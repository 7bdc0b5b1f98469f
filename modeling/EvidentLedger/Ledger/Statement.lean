import EvidentLedger.Ledger.Db
import EvidentLedger.ProofFile
import Mathlib.Data.List.Sort

/-!
# The statements of event submission

Each SQL statement of `service/ledger.rs`, `service/chains.rs`, `service/capabilities.rs`,
`service/identity_signing.rs`, `api/v1/proof_material.rs`, `api/v1/idempotency/postgres.rs` and
`tsa_worker.rs`, as an effect on the tables it sees.

* An `INSERT` checks its unique constraints in the order of their creation: it waits for the
  transaction that holds the key, fails where the row is there, and claims the key otherwise. With
  `ON CONFLICT DO NOTHING` it gives up instead of failing.
* An `UPDATE` and a `SELECT … FOR UPDATE` lock the row they find and wait for its holder.
* `now()` is the start of the transaction; a month is truncated in UTC.
* An account that is not there violates the foreign keys to `accounts`. The other foreign keys are
  to rows that are never deleted.
* Additions past the range of a column fail.

`schema` puts the tables and the statements together.
-/

namespace EvidentLedger.Ledger

open Lib.Transaction

/-- The number of the month of a time, `12 * year + month`: the Gregorian calendar by eras of 400
years from 1 March. -/
def monthOf (now : Int) : Int :=
  let z := now / 86400000000 + 719468
  let era := z / 146097
  let doe := z - era * 146097
  let yoe := (doe - doe / 1460 + doe / 36524 - doe / 146096) / 365
  let doy := doe - (365 * yoe + yoe / 4 - yoe / 100)
  let mp := (5 * doy + 2) / 153
  let month := if mp < 10 then mp + 3 else mp - 9
  12 * (yoe + era * 400 + if month ≤ 2 then 1 else 0) + month

/-- `ORDER BY sequence ASC`. -/
def orderBySequence (events : List EventRecord) : List EventRecord :=
  events.insertionSort fun a b => a.sequence ≤ b.sequence

/-- The functions that read a whole chain from the pool after a commit. -/
inductive ChainReader where
  | computeChainRoot
  | finalizeEventSubmission
  deriving DecidableEq

/-- Which readers of which requests are to find an event of their own last (`OwnLast`). -/
abbrev Calm := Nat → ChainReader → Prop

/-- The statements. -/
inductive Sql where
  /-- `INSERT INTO chains (chain_id, head_event_id, account_id) … ON CONFLICT (chain_id) DO NOTHING
  RETURNING account_id`. -/
  | insertChainOnConflict (chainId accountId : Uuid)
  /-- `SELECT account_id FROM chains WHERE chain_id = $1 FOR UPDATE`. -/
  | selectChainForUpdate (chainId : Uuid)
  /-- `UPDATE chains SET account_id = $1 WHERE chain_id = $2`. -/
  | updateChainAccount (accountId chainId : Uuid)
  /-- `SELECT head_event_id FROM chains WHERE chain_id = $1`. -/
  | selectHead (chainId : Uuid)
  /-- `SELECT event_id, file_hash FROM events WHERE chain_id = $1 AND idempotency_key = $2`. -/
  | selectByIdempotencyKey (chainId : Uuid) (idempotencyKey : String)
  /-- `SELECT COALESCE(MAX(sequence), 0) + 1 FROM events WHERE chain_id = $1`. -/
  | selectNextSequence (chainId : Uuid)
  /-- `INSERT INTO events (…) VALUES (…)`; `created_at` is filled in. -/
  | insertEvent (e : EventRecord)
  /-- `UPDATE chains SET head_event_id = $1 WHERE chain_id = $2`. -/
  | updateHead (eventId chainId : Uuid)
  /-- `SELECT … FROM events WHERE chain_id = $1 AND sequence <= $2 ORDER BY sequence ASC`. -/
  | selectEventPrefix (chainId : Uuid) (targetSequence : Int64)
  /-- `UPDATE events SET signature = $1 WHERE event_id = $2`. -/
  | updateSignature (signature : String) (eventId : Uuid)
  /-- `INSERT INTO usage_monthly (account_id, period_start) … DO NOTHING`. -/
  | insertUsage (accountId : Uuid)
  /-- `SELECT server_commits, tsa_requests FROM usage_monthly WHERE … FOR UPDATE`. -/
  | selectUsageForUpdate (accountId : Uuid)
  /-- `UPDATE usage_monthly SET server_commits = server_commits + 1, tsa_requests = …`. -/
  | updateUsage (accountId : Uuid)
  /-- `SELECT … FROM idempotency_records WHERE … AND expires_at > now() FOR UPDATE`. -/
  | selectActiveRecord (accountId : Uuid) (idempotencyKey : String)
  /-- `INSERT INTO idempotency_records (…) VALUES (…)`. -/
  | insertRecord (record : IdempotencyRecord)
  /-- On the pool: the capabilities of an account. -/
  | selectCapabilities (accountId : Uuid)
  /-- On the pool: `SELECT … FROM identity_keys WHERE id = $1 AND account_id = $2`. -/
  | selectIdentityKey (keyId accountId : Uuid)
  /-- On the pool: `SELECT … FROM events WHERE chain_id = $1 ORDER BY sequence ASC`. -/
  | selectChainEvents (reader : ChainReader) (chainId : Uuid)
  /-- On the pool: `INSERT INTO tsa_tokens (…) … ON CONFLICT (chain_id, merkle_root) DO NOTHING`. -/
  | insertTsaToken (row : TsaTokenRow)
  /-- On the pool: `SELECT … FROM tsa_tokens WHERE chain_id = $1 AND event_id = $2`. -/
  | selectTsaRecord (chainId eventId : Uuid)
  /-- On the pool: `INSERT INTO chains (chain_id, account_id) VALUES ($1, $2)`. -/
  | insertChain (chainId accountId : Uuid)

/-- Their answers. `SELECT … fetch_optional` answers with an option; a nullable column is one
more. -/
def Sql.Res : Sql → Type
  | insertChainOnConflict _ _ => Option (Option Uuid)
  | selectChainForUpdate _ => Option (Option Uuid)
  | selectHead _ => Option Uuid
  | selectByIdempotencyKey _ _ => Option (Uuid × String)
  | selectNextSequence _ => Int64
  | selectEventPrefix _ _ => List EventRow
  | selectUsageForUpdate _ => Int × Int
  | selectActiveRecord _ _ => Option IdempotencyRecord
  | selectCapabilities _ => AccountCapabilities
  | selectIdentityKey _ _ => Option IdentityKeyRow
  | selectChainEvents _ _ => List EventRow
  | selectTsaRecord _ _ => Option TsaData
  | _ => Unit

/-- The statements given the pool. -/
def Sql.onPool : Sql → Bool
  | selectCapabilities _ => true
  | selectIdentityKey _ _ => true
  | selectChainEvents _ _ => true
  | insertTsaToken _ => true
  | selectTsaRecord _ _ => true
  | insertChain _ _ => true
  | _ => false

/-- What the time-stamping authority answers with. -/
structure TsaToken where
  token : List UInt8
  timestamp : Int64
  serial : String
  deriving DecidableEq

/-- Questions outside the database: `Uuid::new_v4`, `Utc::now`, the time-stamping authority
(nothing where it fails), and `on_proof_anchored`, which works on tables of its own. -/
inductive Ask where
  | newUuid
  | utcNow
  | timestamp (hash : List UInt8)
  | onProofAnchored (proofId : Uuid) (fileHash tsaClass : String)

def Ask.Ans : Ask → Type
  | newUuid => Uuid
  | utcNow => Int
  | timestamp _ => Option TsaToken
  | onProofAnchored _ _ _ => Bool

/-- The answers and failures of one step. -/
structure Choice where
  fails : Bool
  time : Int
  uuid : Uuid
  token : Option TsaToken
  anchored : Bool

def Choice.answer (c : Choice) : (a : Ask) → a.Ans
  | .newUuid => c.uuid
  | .utcNow => c.time
  | .timestamp _ => c.token
  | .onProofAnchored _ _ _ => c.anchored

/-! ## Effects -/

/-- The outcome of a statement: it waits, fails, or answers with locks and writes. -/
abbrev Outcome (α : Type) := Option (Except DbError (α × List Key × List Write))

section Outcomes

variable {α : Type} (waits : Key → Bool)

/-- An answer without locks or writes. -/
def reads (a : α) : Outcome α := some (.ok (a, [], []))

def violates (constraint : String) : Outcome α := some (.error (.database (some constraint)))

/-- A row is locked, after its holder. -/
def locking (k : Key) (a : α) (ws : List Write) : Outcome α :=
  if waits k then none else some (.ok (a, [k], ws))

/-- The unique keys of an inserted row, each with its constraint and whether it is taken. -/
def claiming (taken : List (Key × String × Bool)) (ks : List Key) (a : α) (ws : List Write) :
    Outcome α :=
  match taken with
  | [] => some (.ok (a, ks, ws))
  | (k, constraint, isTaken) :: rest =>
    if waits k then none
    else if isTaken then violates constraint
    else claiming rest (k :: ks) a ws

end Outcomes

/-- The greatest 32-bit number. -/
def maxInt32 : Int := 2147483647

/-- What a statement does to the tables `db` it sees, at `now`. -/
def Sql.effect (s : Sql) (waits : Key → Bool) (_ : Choice) (now : Int) (db : Db) :
    Outcome s.Res :=
  match s with
  | insertChainOnConflict chainId accountId =>
    match db.chain? chainId with
    | some _ => reads none
    | none =>
      if (db.capabilities accountId).isNone then violates "chains_account_id_fkey"
      else locking waits (.chain chainId) (some (some accountId))
        [.insertChain ⟨chainId, none, some accountId⟩]
  | selectChainForUpdate chainId =>
    match db.chain? chainId with
    | some row => locking waits (.chain chainId) (some row.accountId) []
    | none => reads none
  | updateChainAccount accountId chainId =>
    match db.chain? chainId with
    | some _ =>
      if (db.capabilities accountId).isNone then violates "chains_account_id_fkey"
      else locking waits (.chain chainId) () [.setChainAccount chainId accountId]
    | none => reads ()
  | selectHead chainId =>
    match db.chain? chainId with
    | some row => reads row.headEventId
    | none => some (.error .rowNotFound)
  | selectByIdempotencyKey chainId idempotencyKey =>
    reads (((db.eventsOf chainId).find? (·.idempotencyKey == idempotencyKey)).map fun e =>
      (e.eventId, e.fileHash))
  | selectNextSequence chainId =>
    let next := (((db.eventsOf chainId).map (·.sequence.toInt)).max?.getD 0) + 1
    if next ≤ Int64.maxValue.toInt then reads (Int64.ofInt next) else some (.error (.database none))
  | insertEvent e =>
    claiming waits
      [(.eventId e.eventId, "events_pkey", db.hasEvent e.eventId),
        (.eventIdem e.chainId e.idempotencyKey, "uniq_idem",
          (db.eventsOf e.chainId).any (·.idempotencyKey == e.idempotencyKey)),
        (.eventSeq e.chainId e.sequence, "events_chain_sequence_unique",
          (db.eventsOf e.chainId).any (·.sequence == e.sequence))]
      [] () [.insertEvent { e with createdAt := now }]
  | updateHead eventId chainId =>
    match db.chain? chainId with
    | some _ => locking waits (.chain chainId) () [.setHead chainId eventId]
    | none => reads ()
  | selectEventPrefix chainId targetSequence =>
    reads ((orderBySequence ((db.eventsOf chainId).filter (·.sequence ≤ targetSequence))).map
      EventRecord.toRow)
  | updateSignature signature eventId =>
    match db.events.find? (·.eventId == eventId) with
    | some e => locking waits (.eventId eventId) () [.setSignature e.chainId eventId signature]
    | none => reads ()
  | insertUsage accountId =>
    match db.usage? accountId (monthOf now) with
    | some _ => reads ()
    | none =>
      if (db.capabilities accountId).isNone then violates "usage_monthly_account_id_fkey"
      else locking waits (.usage accountId (monthOf now)) () [.insertUsage accountId (monthOf now)]
  | selectUsageForUpdate accountId =>
    match db.usage? accountId (monthOf now) with
    | some row =>
      locking waits (.usage accountId (monthOf now)) (row.serverCommits, row.tsaRequests) []
    | none => some (.error .rowNotFound)
  | updateUsage accountId =>
    match db.usage? accountId (monthOf now) with
    | some row =>
      if row.serverCommits < maxInt32 ∧ row.tsaRequests < maxInt32 then
        locking waits (.usage accountId (monthOf now)) () [.bumpUsage accountId (monthOf now)]
      else some (.error (.database none))
    | none => reads ()
  | selectActiveRecord accountId idempotencyKey =>
    match db.record? accountId idempotencyKey with
    | some record =>
      if record.expiresAt > now then
        locking waits (.record accountId idempotencyKey) (some record) []
      else reads none
    | none => reads none
  | insertRecord record =>
    if (db.capabilities record.accountId).isNone then
      violates "idempotency_records_account_id_fkey"
    else
      claiming waits
        [(.recordId record.id, "idempotency_records_pkey",
            db.idempotencyRecords.any (·.id == record.id)),
          (.record record.accountId record.idempotencyKey, "uniq_idempotency_account_key",
            (db.record? record.accountId record.idempotencyKey).isSome)]
        [] () [.insertRecord record]
  | selectCapabilities accountId =>
    match db.capabilities accountId with
    | some capabilities => reads capabilities
    | none => some (.error .rowNotFound)
  | selectIdentityKey keyId accountId =>
    reads (db.identityKeys.find? fun k => k.id == keyId && k.accountId == accountId)
  | selectChainEvents _ chainId =>
    reads ((orderBySequence (db.eventsOf chainId)).map EventRecord.toRow)
  | insertTsaToken row =>
    match db.tsaToken? row.chainId row.merkleRoot with
    | some _ => reads ()
    | none => locking waits (.tsaRoot row.chainId row.merkleRoot) () [.insertTsaToken row]
  | selectTsaRecord chainId eventId =>
    reads ((db.tsaTokens.find? fun r => r.chainId == chainId && r.eventId == eventId).map fun r =>
      ⟨some r.tsaTimestamp, some r.tsaSerial, some (Int64.ofNat r.tsaToken.length)⟩)
  | insertChain chainId accountId =>
    if (db.capabilities accountId).isNone then violates "chains_account_id_fkey"
    else claiming waits [(.chain chainId, "chains_pkey", (db.chain? chainId).isSome)] [] ()
      [.insertChain ⟨chainId, none, some accountId⟩]

/-! ## The schema -/

section Laws

variable {α : Type} {waits : Key → Bool} {a b : α} {ks ks' : List Key} {ws ws' : List Write}

theorem locking_ok {k : Key} (h : locking waits k a ws = some (.ok (b, ks', ws'))) :
    waits k = false ∧ b = a ∧ ks' = [k] ∧ ws' = ws := by
  unfold locking at h
  split_ifs at h with hw
  obtain ⟨rfl, rfl, rfl⟩ := h
  exact ⟨by simpa using hw, rfl, rfl, rfl⟩

theorem reads_ok (h : reads a = some (.ok (b, ks', ws'))) : b = a ∧ ks' = [] ∧ ws' = [] := by
  obtain ⟨rfl, rfl, rfl⟩ := h
  exact ⟨rfl, rfl, rfl⟩

theorem violates_ok {constraint : String} :
    violates constraint ≠ some (.ok (b, ks', ws')) := by
  intro h
  exact absurd h (by simp [violates])

theorem reads_error {e : DbError} : reads a ≠ some (.error e) := by
  intro h
  exact absurd h (by simp [reads])

theorem locking_error {k : Key} {e : DbError} : locking waits k a ws ≠ some (.error e) := by
  intro h
  unfold locking at h
  split_ifs at h
  exact absurd h (by simp)

theorem violates_error {constraint : String} {e : DbError}
    (h : violates (α := α) constraint = some (.error e)) : e = .database (some constraint) :=
  (Except.error.inj (Option.some.inj h)).symm

/-- A claim fails on its first key that is taken. -/
theorem claiming_error {taken : List (Key × String × Bool)} {e : DbError}
    (h : claiming waits taken ks a ws = some (.error e)) :
    ∃ t, taken.find? (·.2.2) = some t ∧ e = .database (some t.2.1) := by
  induction taken generalizing ks with
  | nil => exact absurd h (by simp [claiming])
  | cons t taken ih =>
    unfold claiming at h
    split_ifs at h with hw ht
    · exact ⟨t, by simp [ht], violates_error h⟩
    · obtain ⟨t', hfind, he⟩ := ih h
      exact ⟨t', by simpa [List.find?_cons, ht] using hfind, he⟩

/-- A claim locks the keys, none of them held by others or taken. -/
theorem claiming_ok {taken : List (Key × String × Bool)}
    (h : claiming waits taken ks a ws = some (.ok (b, ks', ws'))) :
    (∀ t ∈ taken, waits t.1 = false ∧ t.2.2 = false ∧ t.1 ∈ ks') ∧ (∀ k ∈ ks, k ∈ ks') ∧
      (∀ k ∈ ks', k ∈ ks ∨ waits k = false) ∧ b = a ∧ ws' = ws := by
  induction taken generalizing ks with
  | nil =>
    obtain ⟨rfl, rfl, rfl⟩ := h
    exact ⟨fun t ht => absurd ht (by simp), fun k hk => hk, fun k hk => Or.inl hk, rfl, rfl⟩
  | cons t taken ih =>
    obtain ⟨k, constraint, isTaken⟩ := t
    unfold claiming at h
    split_ifs at h with hw ht
    · exact absurd h violates_ok
    · obtain ⟨h1, h2, h3, h4, h5⟩ := ih h
      refine ⟨?_, fun k' hk' => h2 k' (List.mem_cons_of_mem k hk'), ?_, h4, h5⟩
      · intro t' ht'
        rcases List.mem_cons.mp ht' with rfl | ht'
        · exact ⟨by simpa using hw, by simpa using ht, h2 k List.mem_cons_self⟩
        · exact h1 t' ht'
      · intro k' hk'
        rcases h3 k' hk' with hk' | hk'
        · rcases List.mem_cons.mp hk' with rfl | hk'
          · exact Or.inr (by simpa using hw)
          · exact Or.inl hk'
        · exact Or.inr hk'

end Laws

/-! ## What an answer says -/

section Answers

variable {waits : Key → Bool} {ch : Choice} {now : Int} {db : Db} {ks : List Key} {ws : List Write}
  {c account id : Uuid}

theorem insertChainOnConflict_ok {r : Option (Option Uuid)}
    (h : (Sql.insertChainOnConflict c account).effect waits ch now db = some (.ok (r, ks, ws))) :
    (r = none ∧ ks = [] ∧ ws = [] ∧ (db.chain? c).isSome = true) ∨
      (r = some (some account) ∧ ks = [.chain c] ∧
        ws = [.insertChain ⟨c, none, some account⟩] ∧ db.chain? c = none) := by
  simp only [Sql.effect] at h
  split at h
  · rename_i row hrow
    obtain ⟨rfl, rfl, rfl⟩ := reads_ok h
    exact Or.inl ⟨rfl, rfl, rfl, by rw [hrow]; rfl⟩
  · rename_i hrow
    split at h
    · exact absurd h violates_ok
    · obtain ⟨-, rfl, rfl, rfl⟩ := locking_ok h
      exact Or.inr ⟨rfl, rfl, rfl, hrow⟩

theorem selectChainForUpdate_ok {r : Option (Option Uuid)}
    (h : (Sql.selectChainForUpdate c).effect waits ch now db = some (.ok (r, ks, ws))) :
    ws = [] ∧ ((r = none ∧ ks = []) ∨
      ∃ row, db.chain? c = some row ∧ r = some row.accountId ∧ ks = [.chain c]) := by
  simp only [Sql.effect] at h
  split at h
  · rename_i row hrow
    obtain ⟨-, rfl, rfl, rfl⟩ := locking_ok h
    exact ⟨rfl, Or.inr ⟨row, hrow, rfl, rfl⟩⟩
  · obtain ⟨rfl, rfl, rfl⟩ := reads_ok h
    exact ⟨rfl, Or.inl ⟨rfl, rfl⟩⟩

theorem updateChainAccount_ok {r : Unit} {row : ChainRow} (hrow : db.chain? c = some row)
    (h : (Sql.updateChainAccount account c).effect waits ch now db = some (.ok (r, ks, ws))) :
    ks = [.chain c] ∧ ws = [.setChainAccount c account] := by
  simp only [Sql.effect, hrow] at h
  split at h
  · exact absurd h violates_ok
  · exact (locking_ok h).2.2

theorem selectHead_ok {r : Option Uuid} {row : ChainRow} (hrow : db.chain? c = some row)
    (h : (Sql.selectHead c).effect waits ch now db = some (.ok (r, ks, ws))) :
    r = row.headEventId ∧ ws = [] := by
  simp only [Sql.effect, hrow] at h
  obtain ⟨rfl, -, rfl⟩ := reads_ok h
  exact ⟨rfl, rfl⟩

/-- A sequence is a 64-bit number. -/
theorem maxSequence_bound (events : List EventRecord) :
    -9223372036854775808 ≤ (events.map (·.sequence.toInt)).max?.getD 0 := by
  cases h : (events.map (·.sequence.toInt)).max? with
  | none => decide
  | some m =>
    obtain ⟨e, -, rfl⟩ := List.mem_map.mp (List.max?_mem h)
    exact Int64.le_toInt e.sequence

theorem selectNextSequence_ok {r : Int64}
    (h : (Sql.selectNextSequence c).effect waits ch now db = some (.ok (r, ks, ws))) :
    r.toInt = ((db.eventsOf c).map (·.sequence.toInt)).max?.getD 0 + 1 ∧ ws = [] := by
  simp only [Sql.effect] at h
  split at h
  · rename_i hmax
    have hmin := maxSequence_bound (db.eventsOf c)
    have hbound : Int64.maxValue.toInt = 2 ^ 63 - 1 := rfl
    obtain ⟨rfl, -, rfl⟩ := reads_ok h
    exact ⟨Int64.toInt_ofInt_of_le (by omega) (by omega), rfl⟩
  · exact absurd h (by simp)

theorem selectByIdempotencyKey_ok {r : Option (Uuid × String)} {key : String}
    (h : (Sql.selectByIdempotencyKey c key).effect waits ch now db = some (.ok (r, ks, ws))) :
    r = ((db.eventsOf c).find? (·.idempotencyKey == key)).map (fun e => (e.eventId, e.fileHash)) ∧
      ws = [] :=
  ⟨(reads_ok h).1, (reads_ok h).2.2⟩

/-- An event is inserted under an id, a key and a sequence that nothing has. -/
theorem insertEvent_ok {r : Unit} {e : EventRecord}
    (h : (Sql.insertEvent e).effect waits ch now db = some (.ok (r, ks, ws))) :
    ws = [.insertEvent { e with createdAt := now }] ∧ db.hasEvent e.eventId = false ∧
      (∀ e' ∈ db.eventsOf e.chainId, e'.idempotencyKey ≠ e.idempotencyKey) ∧
      ∀ k ∈ (Write.insertEvent e).keys, k = .chain e.chainId ∨ k ∈ ks := by
  simp only [Sql.effect] at h
  obtain ⟨htaken, -, -, -, rfl⟩ := claiming_ok h
  obtain ⟨-, hid, hkid⟩ := htaken _ List.mem_cons_self
  obtain ⟨-, hkey, hkkey⟩ := htaken _ (List.mem_cons_of_mem _ List.mem_cons_self)
  obtain ⟨-, -, hkseq⟩ :=
    htaken _ (List.mem_cons_of_mem _ (List.mem_cons_of_mem _ List.mem_cons_self))
  refine ⟨rfl, hid, fun e' he' heq => ?_, fun k hk => ?_⟩
  · exact absurd heq (by simpa using List.any_eq_false.mp hkey e' he')
  · simp only [Write.keys, List.mem_cons, List.not_mem_nil, or_false] at hk
    rcases hk with rfl | rfl | rfl | rfl
    · exact Or.inl rfl
    · exact Or.inr hkid
    · exact Or.inr hkkey
    · exact Or.inr hkseq

theorem updateHead_ok {r : Unit} {row : ChainRow} (hrow : db.chain? c = some row)
    (h : (Sql.updateHead id c).effect waits ch now db = some (.ok (r, ks, ws))) :
    ks = [.chain c] ∧ ws = [.setHead c id] := by
  simp only [Sql.effect, hrow] at h
  exact (locking_ok h).2.2

theorem selectEventPrefix_ok {r : List EventRow} {n : Int64}
    (h : (Sql.selectEventPrefix c n).effect waits ch now db = some (.ok (r, ks, ws))) :
    r = (orderBySequence ((db.eventsOf c).filter (·.sequence ≤ n))).map EventRecord.toRow ∧
      ws = [] :=
  ⟨(reads_ok h).1, (reads_ok h).2.2⟩

theorem updateSignature_ok {r : Unit} {e : EventRecord} {signature : String}
    (he : db.events.find? (·.eventId == id) = some e)
    (h : (Sql.updateSignature signature id).effect waits ch now db = some (.ok (r, ks, ws))) :
    ks = [.eventId id] ∧ ws = [.setSignature e.chainId id signature] := by
  simp only [Sql.effect, he] at h
  exact (locking_ok h).2.2

theorem insertUsage_ok {r : Unit}
    (h : (Sql.insertUsage account).effect waits ch now db = some (.ok (r, ks, ws))) :
    (ks = [] ∧ ws = []) ∨ (db.usage? account (monthOf now) = none ∧
      ks = [.usage account (monthOf now)] ∧ ws = [.insertUsage account (monthOf now)]) := by
  simp only [Sql.effect] at h
  split at h
  · exact Or.inl (reads_ok h).2
  · rename_i hrow
    split at h
    · exact absurd h violates_ok
    · exact Or.inr ⟨hrow, (locking_ok h).2.2⟩

theorem selectUsageForUpdate_ok {r : Int × Int}
    (h : (Sql.selectUsageForUpdate account).effect waits ch now db = some (.ok (r, ks, ws))) :
    ∃ row, db.usage? account (monthOf now) = some row ∧
      r = (row.serverCommits, row.tsaRequests) ∧ ks = [.usage account (monthOf now)] ∧ ws = [] := by
  simp only [Sql.effect] at h
  split at h
  · rename_i row hrow
    obtain ⟨-, rfl, rfl, rfl⟩ := locking_ok h
    exact ⟨row, hrow, rfl, rfl, rfl⟩
  · exact absurd h (by simp)

theorem updateUsage_ok {r : Unit} {row : UsageRow}
    (hrow : db.usage? account (monthOf now) = some row)
    (h : (Sql.updateUsage account).effect waits ch now db = some (.ok (r, ks, ws))) :
    ks = [.usage account (monthOf now)] ∧ ws = [.bumpUsage account (monthOf now)] := by
  simp only [Sql.effect, hrow] at h
  split at h
  · exact (locking_ok h).2.2
  · exact absurd h (by simp)

/-- An active record is locked. -/
theorem selectActiveRecord_ok {r : Option IdempotencyRecord} {key : String}
    (h : (Sql.selectActiveRecord account key).effect waits ch now db = some (.ok (r, ks, ws))) :
    ws = [] ∧ ∀ record, r = some record →
      db.record? account key = some record ∧ now < record.expiresAt ∧ ks = [.record account key] := by
  simp only [Sql.effect] at h
  split at h
  · rename_i record hrecord
    split at h
    · rename_i hexp
      obtain ⟨-, rfl, rfl, rfl⟩ := locking_ok h
      refine ⟨rfl, fun record' heq => ?_⟩
      obtain rfl := Option.some.inj heq
      exact ⟨hrecord, hexp, rfl⟩
    · obtain ⟨rfl, -, rfl⟩ := reads_ok h
      exact ⟨rfl, fun _ heq => absurd heq (by simp)⟩
  · obtain ⟨rfl, -, rfl⟩ := reads_ok h
    exact ⟨rfl, fun _ heq => absurd heq (by simp)⟩

theorem insertRecord_ok {r : Unit} {record : IdempotencyRecord}
    (h : (Sql.insertRecord record).effect waits ch now db = some (.ok (r, ks, ws))) :
    ws = [.insertRecord record] ∧
      db.record? record.accountId record.idempotencyKey = none ∧
      ∀ k ∈ (Write.insertRecord record).keys, k ∈ ks := by
  simp only [Sql.effect] at h
  split at h
  · exact absurd h violates_ok
  · obtain ⟨htaken, -, -, -, rfl⟩ := claiming_ok h
    obtain ⟨-, -, hkid⟩ := htaken _ List.mem_cons_self
    obtain ⟨-, hnone, hkkey⟩ := htaken _ (List.mem_cons_of_mem _ List.mem_cons_self)
    refine ⟨rfl, by simpa using hnone, fun k hk => ?_⟩
    simp only [Write.keys, List.mem_cons, List.not_mem_nil, or_false] at hk
    rcases hk with rfl | rfl
    · exact hkid
    · exact hkkey

theorem selectCapabilities_ok {r : AccountCapabilities}
    (h : (Sql.selectCapabilities account).effect waits ch now db = some (.ok (r, ks, ws))) :
    db.capabilities account = some r ∧ ws = [] := by
  simp only [Sql.effect] at h
  split at h
  · rename_i capabilities hcap
    obtain ⟨rfl, -, rfl⟩ := reads_ok h
    exact ⟨hcap, rfl⟩
  · exact absurd h (by simp)

theorem selectChainEvents_ok {r : List EventRow} {reader : ChainReader}
    (h : (Sql.selectChainEvents reader c).effect waits ch now db = some (.ok (r, ks, ws))) :
    r = (orderBySequence (db.eventsOf c)).map EventRecord.toRow ∧ ws = [] :=
  ⟨(reads_ok h).1, (reads_ok h).2.2⟩

theorem insertTsaToken_ok {r : Unit} {row : TsaTokenRow}
    (h : (Sql.insertTsaToken row).effect waits ch now db = some (.ok (r, ks, ws))) :
    ws = [] ∨ (db.tsaToken? row.chainId row.merkleRoot = none ∧ ws = [.insertTsaToken row]) := by
  simp only [Sql.effect] at h
  split at h
  · exact Or.inl (reads_ok h).2.2
  · rename_i hnone
    exact Or.inr ⟨hnone, (locking_ok h).2.2.2⟩

theorem insertChain_ok {r : Unit}
    (h : (Sql.insertChain c account).effect waits ch now db = some (.ok (r, ks, ws))) :
    db.chain? c = none ∧ ws = [.insertChain ⟨c, none, some account⟩] := by
  simp only [Sql.effect] at h
  split at h
  · exact absurd h violates_ok
  · obtain ⟨htaken, -, -, -, rfl⟩ := claiming_ok h
    obtain ⟨-, hnone, -⟩ := htaken _ List.mem_cons_self
    exact ⟨by simpa using hnone, rfl⟩

end Answers

/-- The locks of an answer are held by nobody else. -/
def Fair {α : Type} (waits : Key → Bool) (o : Outcome α) : Prop :=
  ∀ a ks ws, o = some (.ok (a, ks, ws)) → ∀ k ∈ ks, waits k = false

section Fair

variable {α : Type} {waits : Key → Bool}

theorem fair_reads (a : α) : Fair waits (reads a) := by
  rintro b ks ws h k hk
  rw [(reads_ok h).2.1] at hk
  exact absurd hk (by simp)

theorem fair_error (e : DbError) : Fair (α := α) waits (some (.error e)) := by
  rintro b ks ws h
  exact absurd h (by simp)

theorem fair_violates (constraint : String) : Fair (α := α) waits (violates constraint) :=
  fair_error _

theorem fair_locking (k : Key) (a : α) (ws : List Write) : Fair waits (locking waits k a ws) := by
  rintro b ks ws' h k' hk'
  obtain ⟨hw, -, rfl, -⟩ := locking_ok h
  rwa [List.mem_singleton.mp hk']

theorem fair_claiming (taken : List (Key × String × Bool)) (a : α) (ws : List Write) :
    Fair waits (claiming waits taken [] a ws) := by
  rintro b ks ws' h k hk
  rcases (claiming_ok h).2.2.1 k hk with hk | hk
  · exact absurd hk (by simp)
  · exact hk

end Fair

/-- Every branch of every statement is fair. -/
theorem fair_effect (s : Sql) (waits : Key → Bool) (c : Choice) (now : Int) (db : Db) :
    Fair waits (s.effect waits c now db) := by
  cases s <;> simp only [Sql.effect] <;> repeat' split
  all_goals
    first
    | exact fair_reads _
    | exact fair_violates _
    | exact fair_error _
    | exact fair_locking _ _ _
    | exact fair_claiming _ _ _

theorem locking_blocks {α : Type} {waits : Key → Bool} {k : Key} {a : α} {ws : List Write}
    (h : locking waits k a ws = none) : ∃ k, waits k = true := by
  unfold locking at h
  split_ifs at h with hw
  exact ⟨k, hw⟩

theorem claiming_blocks {α : Type} {waits : Key → Bool} {taken : List (Key × String × Bool)}
    {ks : List Key} {a : α} {ws : List Write} (h : claiming waits taken ks a ws = none) :
    ∃ k, waits k = true := by
  induction taken generalizing ks with
  | nil => exact absurd h (by simp [claiming])
  | cons t taken ih =>
    unfold claiming at h
    split_ifs at h with hw ht
    · exact ⟨t.1, hw⟩
    · exact absurd h (by simp [violates])
    · exact ih h

/-- A statement waits for a lock, or not at all. -/
theorem effect_blocks {s : Sql} {waits : Key → Bool} {c : Choice} {now : Int} {db : Db}
    (h : s.effect waits c now db = none) : ∃ k, waits k = true := by
  cases s <;> simp only [Sql.effect] at h <;> repeat' split at h
  all_goals
    first
    | exact locking_blocks h
    | exact claiming_blocks h
    | exact absurd h (by simp [reads, violates])

/-- The two writes on the pool are under the key they claim. -/
theorem effect_pool {s : Sql} {waits : Key → Bool} {c : Choice} {now : Int} {db : Db} {a : s.Res}
    {ks : List Key} {ws : List Write} (hs : s.onPool = true)
    (h : s.effect waits c now db = some (.ok (a, ks, ws))) :
    ∀ w ∈ ws, ∀ k ∈ w.keys, waits k = false := by
  have hnone : ws = [] → ∀ w ∈ ws, ∀ k ∈ w.keys, waits k = false := by
    rintro rfl w hw
    exact absurd hw (by simp)
  cases s with
  | selectCapabilities accountId =>
    simp only [Sql.effect] at h
    split at h
    · exact hnone (reads_ok h).2.2
    · exact absurd h (by simp)
  | selectIdentityKey | selectChainEvents | selectTsaRecord => exact hnone (reads_ok h).2.2
  | insertTsaToken row =>
    simp only [Sql.effect] at h
    split at h
    · exact hnone (reads_ok h).2.2
    · obtain ⟨hw, -, -, rfl⟩ := locking_ok h
      simpa [Write.keys] using hw
  | insertChain chainId accountId =>
    simp only [Sql.effect] at h
    split_ifs at h with hc
    · exact absurd h violates_ok
    · obtain ⟨htaken, -, -, -, rfl⟩ := claiming_ok h
      simpa [Write.keys] using (htaken _ List.mem_cons_self).1
  | _ => exact absurd hs (by simp [Sql.onPool])

/-- The tables of the ledger under its statements. -/
abbrev schema : Schema where
  Db := Db
  Key := Key
  Write := Write
  Sql := Sql
  Res := Sql.Res
  Ask := Ask
  Ans := Ask.Ans
  Choice := Choice
  decKey := inferInstance
  apply := Write.apply
  keys := Write.keys
  onPool := Sql.onPool
  effect := Sql.effect
  answer := Choice.answer
  fails := Choice.fails
  time := Choice.time
  same := Key.same
  same_refl := Key.same_refl
  same_trans := Key.same_trans
  same_apply := same_apply
  same_congr := same_congr
  effect_waits h := fair_effect _ _ _ _ _ _ _ _ h
  effect_pool := effect_pool

end EvidentLedger.Ledger
