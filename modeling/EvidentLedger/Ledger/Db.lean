import EvidentLedger.Structure
import EvidentLedger.Lib.Held

/-!
# The tables of the ledger

The tables that event submission reads and writes (`migrations/`): `chains`, `events`,
`usage_monthly`, `idempotency_records`, `tsa_tokens`, and for reading `identity_keys` and the join
of `accounts` and `tariff_plans` (`service/capabilities.rs:61-96`). Columns that no modelled statement
uses are left out.

A `Write` is one row written, as a commit replays it; `Write.keys` are the rows and unique keys that
it locks. The event writes also count the row of their chain among them: no constraint of the
database says so, it is the discipline of the programs (`ensure_chain_access_in_tx` takes that lock
first), and what `Key.same` promises of a chain's events rests on it.

`same_apply` is the frame lemma of the tables: a write leaves alone everything under other keys.
-/

namespace EvidentLedger.Ledger

open Lib.Transaction

/-! ## Rows -/

/-- `chains`. -/
structure ChainRow where
  chainId : Uuid
  headEventId : Option Uuid
  accountId : Option Uuid
  deriving DecidableEq

/-- `events`. -/
structure EventRecord where
  eventId : Uuid
  chainId : Uuid
  parentEventId : Uuid
  fileHash : String
  idempotencyKey : String
  signature : String
  createdAt : Int
  sequence : Int64
  identityKeyId : Option Uuid
  identitySignature : Option String
  identityFingerprint : Option String
  deriving DecidableEq

/-- The columns the proof code reads. -/
def EventRecord.toRow (e : EventRecord) : EventRow :=
  ⟨e.eventId, e.parentEventId, e.fileHash, e.createdAt, e.sequence⟩

/-- `usage_monthly`; a month is numbered `12 * year + month`. -/
structure UsageRow where
  accountId : Uuid
  periodStart : Int
  serverCommits : Int
  tsaRequests : Int
  deriving DecidableEq

/-- The JSON object `build_v1_response` makes. -/
structure V1Response where
  eventId : Uuid
  chainId : Uuid
  sequence : Int64
  proofStatus : String
  trustLevel : String
  requestId : Uuid
  deriving DecidableEq

/-- `IdempotencyRecord`. -/
structure IdempotencyRecord where
  id : Uuid
  accountId : Uuid
  idempotencyKey : String
  requestHash : String
  responseJson : V1Response
  createdAt : Int
  expiresAt : Int
  deriving DecidableEq

/-- `tsa_tokens`. -/
structure TsaTokenRow where
  chainId : Uuid
  eventId : Uuid
  merkleRoot : String
  tsaToken : List UInt8
  tsaTimestamp : Int64
  tsaSerial : String
  deriving DecidableEq

/-- `TsaMode`. -/
inductive TsaMode where
  | machine
  | qualified
  deriving Repr, DecidableEq

/-- `AccountCapabilities`. -/
structure AccountCapabilities where
  planName : String
  tsaMode : TsaMode
  serverBackup : Bool
  historyRecovery : Bool
  identityEnabled : Bool
  monthlyCommitsLimit : Option Int
  monthlyTsaLimit : Option Int
  deriving DecidableEq

/-- `identity_keys`. -/
structure IdentityKeyRow where
  id : Uuid
  accountId : Uuid
  publicKey : String
  fingerprint : String
  verifiedAt : Option Int
  revokedAt : Option Int
  deriving DecidableEq

/-- The database. Rows stand in the order of their commits. -/
structure Db where
  chains : List ChainRow
  events : List EventRecord
  usageMonthly : List UsageRow
  idempotencyRecords : List IdempotencyRecord
  tsaTokens : List TsaTokenRow
  /-- The plan of an account; none for a missing account. -/
  capabilities : Uuid → Option AccountCapabilities
  identityKeys : List IdentityKeyRow

namespace Db

def chain? (db : Db) (c : Uuid) : Option ChainRow := db.chains.find? (·.chainId == c)

/-- The events of a chain. -/
def eventsOf (db : Db) (c : Uuid) : List EventRecord := db.events.filter (·.chainId == c)

def hasEvent (db : Db) (id : Uuid) : Bool := db.events.any (·.eventId == id)

def usage? (db : Db) (a : Uuid) (m : Int) : Option UsageRow :=
  db.usageMonthly.find? fun r => r.accountId == a && r.periodStart == m

def record? (db : Db) (a : Uuid) (k : String) : Option IdempotencyRecord :=
  db.idempotencyRecords.find? fun r => r.accountId == a && r.idempotencyKey == k

def tsaToken? (db : Db) (c : Uuid) (root : String) : Option TsaTokenRow :=
  db.tsaTokens.find? fun r => r.chainId == c && r.merkleRoot == root

/-- Tables without rows, over given accounts and identity keys. -/
def empty (capabilities : Uuid → Option AccountCapabilities)
    (identityKeys : List IdentityKeyRow) : Db :=
  ⟨[], [], [], [], [], capabilities, identityKeys⟩

end Db

/-! ## Keys and writes -/

/-- Rows and unique keys. -/
inductive Key where
  | chain (c : Uuid)
  | eventId (id : Uuid)
  | eventIdem (c : Uuid) (k : String)
  | eventSeq (c : Uuid) (n : Int64)
  | usage (a : Uuid) (m : Int)
  | recordId (id : Uuid)
  | record (a : Uuid) (k : String)
  | tsaRoot (c : Uuid) (root : String)
  deriving DecidableEq

/-- A row written. -/
inductive Write where
  | insertChain (row : ChainRow)
  | setChainAccount (c account : Uuid)
  | setHead (c event : Uuid)
  | insertEvent (e : EventRecord)
  | setSignature (c event : Uuid) (signature : String)
  | insertUsage (a : Uuid) (m : Int)
  | bumpUsage (a : Uuid) (m : Int)
  | insertRecord (r : IdempotencyRecord)
  | insertTsaToken (r : TsaTokenRow)
  deriving DecidableEq

namespace Write

/-- What a write locks. -/
def keys : Write → List Key
  | insertChain row => [.chain row.chainId]
  | setChainAccount c _ => [.chain c]
  | setHead c _ => [.chain c]
  | insertEvent e => [.chain e.chainId, .eventId e.eventId, .eventIdem e.chainId e.idempotencyKey,
      .eventSeq e.chainId e.sequence]
  | setSignature c id _ => [.chain c, .eventId id]
  | insertUsage a m => [.usage a m]
  | bumpUsage a m => [.usage a m]
  | insertRecord r => [.recordId r.id, .record r.accountId r.idempotencyKey]
  | insertTsaToken r => [.tsaRoot r.chainId r.merkleRoot]

/-- A chain row with another owner, or another head. -/
def assign (c account : Uuid) (row : ChainRow) : ChainRow :=
  if row.chainId == c then { row with accountId := some account } else row

def advance (c event : Uuid) (row : ChainRow) : ChainRow :=
  if row.chainId == c then { row with headEventId := some event } else row

/-- An event row with its signature. -/
def sign (c event : Uuid) (signature : String) (e : EventRecord) : EventRecord :=
  if e.chainId == c && e.eventId == event then { e with signature := signature } else e

/-- A usage row with one more commit and one more timestamp. -/
def count (a : Uuid) (m : Int) (r : UsageRow) : UsageRow :=
  if r.accountId == a && r.periodStart == m then
    { r with serverCommits := r.serverCommits + 1, tsaRequests := r.tsaRequests + 1 }
  else r

/-- The write on the tables. -/
def apply : Write → Db → Db
  | insertChain row, db => { db with chains := db.chains ++ [row] }
  | setChainAccount c a, db => { db with chains := db.chains.map (assign c a) }
  | setHead c e, db => { db with chains := db.chains.map (advance c e) }
  | insertEvent e, db => { db with events := db.events ++ [e] }
  | setSignature c id s, db => { db with events := db.events.map (sign c id s) }
  | insertUsage a m, db => { db with usageMonthly := db.usageMonthly ++ [⟨a, m, 0, 0⟩] }
  | bumpUsage a m, db => { db with usageMonthly := db.usageMonthly.map (count a m) }
  | insertRecord r, db => { db with idempotencyRecords := db.idempotencyRecords ++ [r] }
  | insertTsaToken r, db => { db with tsaTokens := db.tsaTokens ++ [r] }

end Write

/-- What stays the same under a key while another does not hold it: a chain row and its events, the
presence of an event id, a usage row, an idempotency record, a token. -/
def Key.same : Key → Db → Db → Prop
  | .chain c, db, db' => db'.chain? c = db.chain? c ∧ db'.eventsOf c = db.eventsOf c
  | .eventId id, db, db' => db'.hasEvent id = db.hasEvent id
  | .usage a m, db, db' => db'.usage? a m = db.usage? a m
  | .record a k, db, db' => db'.record? a k = db.record? a k
  | .tsaRoot c root, db, db' => db'.tsaToken? c root = db.tsaToken? c root
  | .eventIdem _ _, _, _ => True
  | .eventSeq _ _, _, _ => True
  | .recordId _, _, _ => True

theorem Key.same_refl : ∀ (k : Key) (db : Db), k.same db db
  | .chain _, _ => ⟨rfl, rfl⟩
  | .eventId _, _ => rfl
  | .usage _ _, _ => rfl
  | .record _ _, _ => rfl
  | .tsaRoot _ _, _ => rfl
  | .eventIdem _ _, _ => trivial
  | .eventSeq _ _, _ => trivial
  | .recordId _, _ => trivial

theorem Key.same_trans : ∀ {k : Key} {db₁ db₂ db₃ : Db}, k.same db₁ db₂ → k.same db₂ db₃ →
    k.same db₁ db₃
  | .chain _, _, _, _, h, h' => ⟨h'.1.trans h.1, h'.2.trans h.2⟩
  | .eventId _, _, _, _, h, h' => h'.trans h
  | .usage _ _, _, _, _, h, h' => h'.trans h
  | .record _ _, _, _, _, h, h' => h'.trans h
  | .tsaRoot _ _, _, _, _, h, h' => h'.trans h
  | .eventIdem _ _, _, _, _, _, _ => trivial
  | .eventSeq _ _, _, _, _, _, _ => trivial
  | .recordId _, _, _, _, _, _ => trivial

/-! ## What a write does to each table -/

section Tables

variable (db : Db) (c : Uuid)

theorem chain?_insertChain (row : ChainRow) :
    ((Write.insertChain row).apply db).chain? c =
      (db.chain? c).or (if row.chainId == c then some row else none) := by
  simp only [Write.apply, Db.chain?, List.find?_append, List.find?_singleton]

theorem chain?_map {f : ChainRow → ChainRow} (hf : ∀ row, (f row).chainId = row.chainId) :
    (db.chains.map f).find? (·.chainId == c) = (db.chain? c).map f := by
  rw [List.find?_map]
  congr 1
  refine congrArg (List.find? · db.chains) ?_
  funext row
  simp [hf]

theorem assign_chainId (d a : Uuid) (row : ChainRow) :
    (Write.assign d a row).chainId = row.chainId := by
  unfold Write.assign
  split_ifs <;> rfl

theorem advance_chainId (d e : Uuid) (row : ChainRow) :
    (Write.advance d e row).chainId = row.chainId := by
  unfold Write.advance
  split_ifs <;> rfl

theorem chainId_of_chain? {db : Db} {c : Uuid} {row : ChainRow} (h : db.chain? c = some row) :
    row.chainId = c := by
  simpa using List.find?_some h

theorem chain?_setChainAccount (d a : Uuid) :
    ((Write.setChainAccount d a).apply db).chain? c = (db.chain? c).map (Write.assign d a) :=
  chain?_map db c (assign_chainId d a)

theorem chain?_setHead (d e : Uuid) :
    ((Write.setHead d e).apply db).chain? c = (db.chain? c).map (Write.advance d e) :=
  chain?_map db c (advance_chainId d e)

theorem assign_of_ne {d : Uuid} (h : d ≠ c) (a : Uuid) :
    (db.chain? c).map (Write.assign d a) = db.chain? c := by
  cases hc : db.chain? c with
  | none => rfl
  | some row =>
    have hrow := chainId_of_chain? hc
    rw [Option.map_some, Write.assign, if_neg (by simp [hrow, h.symm])]

theorem advance_of_ne {d : Uuid} (h : d ≠ c) (e : Uuid) :
    (db.chain? c).map (Write.advance d e) = db.chain? c := by
  cases hc : db.chain? c with
  | none => rfl
  | some row =>
    have hrow := chainId_of_chain? hc
    rw [Option.map_some, Write.advance, if_neg (by simp [hrow, h.symm])]

theorem eventsOf_insertEvent (e : EventRecord) :
    ((Write.insertEvent e).apply db).eventsOf c =
      db.eventsOf c ++ if e.chainId == c then [e] else [] := by
  simp only [Write.apply, Db.eventsOf, List.filter_append]
  congr 1
  by_cases h : e.chainId == c
  · simp [h]
  · simp [h]

theorem sign_chainId (d id : Uuid) (s : String) (e : EventRecord) :
    (Write.sign d id s e).chainId = e.chainId := by
  unfold Write.sign
  split_ifs <;> rfl

theorem sign_eventId (d id : Uuid) (s : String) (e : EventRecord) :
    (Write.sign d id s e).eventId = e.eventId := by
  unfold Write.sign
  split_ifs <;> rfl

theorem eventsOf_setSignature (d id : Uuid) (s : String) :
    ((Write.setSignature d id s).apply db).eventsOf c =
      (db.eventsOf c).map (Write.sign d id s) := by
  simp only [Write.apply, Db.eventsOf, List.filter_map]
  congr 1
  refine congrArg (List.filter · db.events) ?_
  funext e
  simp [sign_chainId]

/-- Rows of another chain are not signed. -/
theorem sign_of_ne {d : Uuid} (h : d ≠ c) (id : Uuid) (s : String) :
    (db.eventsOf c).map (Write.sign d id s) = db.eventsOf c := by
  refine (List.map_congr_left fun e he => ?_).trans (List.map_id _)
  have hc : e.chainId = c := by simpa using (List.mem_filter.mp he).2
  rw [Write.sign, if_neg (by simp [hc, h.symm])]
  rfl

theorem hasEvent_insertEvent (id : Uuid) (e : EventRecord) :
    ((Write.insertEvent e).apply db).hasEvent id = (db.hasEvent id || e.eventId == id) := by
  simp [Write.apply, Db.hasEvent]

theorem hasEvent_setSignature (id d event : Uuid) (s : String) :
    ((Write.setSignature d event s).apply db).hasEvent id = db.hasEvent id := by
  simp only [Write.apply, Db.hasEvent, List.any_map]
  refine congrArg (List.any db.events) ?_
  funext e
  simp [sign_eventId]

theorem usage?_insertUsage (a b : Uuid) (m n : Int) :
    ((Write.insertUsage b n).apply db).usage? a m =
      (db.usage? a m).or (if b == a && n == m then some ⟨b, n, 0, 0⟩ else none) := by
  simp only [Write.apply, Db.usage?, List.find?_append, List.find?_singleton]

theorem usage?_bumpUsage (a b : Uuid) (m n : Int) :
    ((Write.bumpUsage b n).apply db).usage? a m = (db.usage? a m).map (Write.count b n) := by
  simp only [Write.apply, Db.usage?, List.find?_map]
  congr 1
  refine congrArg (List.find? · db.usageMonthly) ?_
  funext r
  simp only [Function.comp_apply, Write.count]
  split_ifs <;> rfl

theorem count_of_ne {a b : Uuid} {m n : Int} (h : ¬ (a = b ∧ m = n)) :
    (db.usage? a m).map (Write.count b n) = db.usage? a m := by
  cases hr : db.usage? a m with
  | none => rfl
  | some r =>
    have hrow : r.accountId = a ∧ r.periodStart = m := by simpa using List.find?_some hr
    rw [Option.map_some, Write.count, if_neg (by simpa [hrow.1, hrow.2] using h)]

theorem record?_insertRecord (a : Uuid) (k : String) (r : IdempotencyRecord) :
    ((Write.insertRecord r).apply db).record? a k =
      (db.record? a k).or (if r.accountId == a && r.idempotencyKey == k then some r else none) := by
  simp only [Write.apply, Db.record?, List.find?_append, List.find?_singleton]

theorem tsaToken?_insertTsaToken (root : String) (r : TsaTokenRow) :
    ((Write.insertTsaToken r).apply db).tsaToken? c root =
      (db.tsaToken? c root).or
        (if r.chainId == c && r.merkleRoot == root then some r else none) := by
  simp only [Write.apply, Db.tsaToken?, List.find?_append, List.find?_singleton]

end Tables

/-- **Frame.** A write leaves alone what is under other keys. -/
theorem same_apply {k : Key} {w : Write} {db : Db} (h : k ∉ w.keys) : k.same db (w.apply db) := by
  cases k with
  | chain c =>
    cases w with
    | insertChain row =>
      refine ⟨?_, rfl⟩
      have hne : row.chainId ≠ c := fun he => h (by simp [Write.keys, he])
      rw [chain?_insertChain, if_neg (by simpa using hne), Option.or_none]
    | setChainAccount d a =>
      have hne : d ≠ c := fun he => h (by simp [Write.keys, he])
      exact ⟨(chain?_setChainAccount db c d a).trans (assign_of_ne db c hne a), rfl⟩
    | setHead d e =>
      have hne : d ≠ c := fun he => h (by simp [Write.keys, he])
      exact ⟨(chain?_setHead db c d e).trans (advance_of_ne db c hne e), rfl⟩
    | insertEvent e =>
      have hne : e.chainId ≠ c := fun he => h (by simp [Write.keys, he])
      refine ⟨rfl, ?_⟩
      rw [eventsOf_insertEvent, if_neg (by simpa using hne), List.append_nil]
    | setSignature d id s =>
      have hne : d ≠ c := fun he => h (by simp [Write.keys, he])
      exact ⟨rfl, (eventsOf_setSignature db c d id s).trans (sign_of_ne db c hne id s)⟩
    | insertUsage | bumpUsage | insertRecord | insertTsaToken => exact ⟨rfl, rfl⟩
  | eventId id =>
    cases w with
    | insertEvent e =>
      have hne : e.eventId ≠ id := fun he => h (by simp [Write.keys, he])
      exact (hasEvent_insertEvent db id e).trans (by simp [hne])
    | setSignature d event s => exact hasEvent_setSignature db id d event s
    | insertChain | setChainAccount | setHead | insertUsage | bumpUsage | insertRecord
      | insertTsaToken => rfl
  | usage a m =>
    cases w with
    | insertUsage b n =>
      have hne : ¬ (b = a ∧ n = m) := fun he => h (by simp [Write.keys, he])
      exact (usage?_insertUsage db a b m n).trans (by simp [hne])
    | bumpUsage b n =>
      have hne : ¬ (a = b ∧ m = n) := fun he => h (by simp [Write.keys, he])
      exact (usage?_bumpUsage db a b m n).trans (count_of_ne db hne)
    | insertChain | setChainAccount | setHead | insertEvent | setSignature | insertRecord
      | insertTsaToken => rfl
  | record a k =>
    cases w with
    | insertRecord r =>
      have hne : ¬ (r.accountId = a ∧ r.idempotencyKey = k) :=
        fun he => h (by simp [Write.keys, he])
      exact (record?_insertRecord db a k r).trans (by simp [hne])
    | insertChain | setChainAccount | setHead | insertEvent | setSignature | insertUsage
      | bumpUsage | insertTsaToken => rfl
  | tsaRoot c root =>
    cases w with
    | insertTsaToken r =>
      have hne : ¬ (r.chainId = c ∧ r.merkleRoot = root) := fun he => h (by simp [Write.keys, he])
      exact (tsaToken?_insertTsaToken db c root r).trans (by simp [hne])
    | insertChain | setChainAccount | setHead | insertEvent | setSignature | insertUsage
      | bumpUsage | insertRecord => rfl
  | eventIdem | eventSeq | recordId => trivial

/-- What a write does under a key depends on what is there. -/
theorem same_congr {k : Key} {w : Write} {db db' : Db} (h : k.same db db') :
    k.same (w.apply db) (w.apply db') := by
  cases k with
  | chain c =>
    obtain ⟨hc, he⟩ := h
    cases w with
    | insertChain row => exact ⟨by rw [chain?_insertChain, chain?_insertChain, hc], he⟩
    | setChainAccount d a => exact ⟨by rw [chain?_setChainAccount, chain?_setChainAccount, hc], he⟩
    | setHead d e => exact ⟨by rw [chain?_setHead, chain?_setHead, hc], he⟩
    | insertEvent e => exact ⟨hc, by rw [eventsOf_insertEvent, eventsOf_insertEvent, he]⟩
    | setSignature d id s => exact ⟨hc, by rw [eventsOf_setSignature, eventsOf_setSignature, he]⟩
    | insertUsage | bumpUsage | insertRecord | insertTsaToken => exact ⟨hc, he⟩
  | eventId id =>
    have hid : db'.hasEvent id = db.hasEvent id := h
    cases w with
    | insertEvent e => exact by rw [Key.same, hasEvent_insertEvent, hasEvent_insertEvent, hid]
    | setSignature d event s =>
      exact by rw [Key.same, hasEvent_setSignature, hasEvent_setSignature, hid]
    | insertChain | setChainAccount | setHead | insertUsage | bumpUsage | insertRecord
      | insertTsaToken => exact hid
  | usage a m =>
    have hu : db'.usage? a m = db.usage? a m := h
    cases w with
    | insertUsage b n => exact by rw [Key.same, usage?_insertUsage, usage?_insertUsage, hu]
    | bumpUsage b n => exact by rw [Key.same, usage?_bumpUsage, usage?_bumpUsage, hu]
    | insertChain | setChainAccount | setHead | insertEvent | setSignature | insertRecord
      | insertTsaToken => exact hu
  | record a k =>
    have hr : db'.record? a k = db.record? a k := h
    cases w with
    | insertRecord r => exact by rw [Key.same, record?_insertRecord, record?_insertRecord, hr]
    | insertChain | setChainAccount | setHead | insertEvent | setSignature | insertUsage
      | bumpUsage | insertTsaToken => exact hr
  | tsaRoot c root =>
    have ht : db'.tsaToken? c root = db.tsaToken? c root := h
    cases w with
    | insertTsaToken r =>
      exact by rw [Key.same, tsaToken?_insertTsaToken, tsaToken?_insertTsaToken, ht]
    | insertChain | setChainAccount | setHead | insertEvent | setSignature | insertUsage
      | bumpUsage | insertRecord => exact ht
  | eventIdem | eventSeq | recordId => trivial

end EvidentLedger.Ledger
