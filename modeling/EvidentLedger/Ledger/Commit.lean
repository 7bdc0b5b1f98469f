import EvidentLedger.Ledger.Submit

/-!
# What a commit writes

Every entry of the history is one of four: a chain of `POST /chains`, an event of `POST /events`, an
event of `POST /v1/events` with its idempotency record, or the token stored after one of these two.
`Commit` says of each what the tables held right before it and what it wrote.

* `Access`: how the transaction got its chain (`ensure_chain_access_in_tx`, `service/ledger.rs:90-141`).
* `Meter`: the usage row of its month (`insert_event_in_tx`, `service/ledger.rs:258-310`).
* `Addition`: an event with both, what it needs of the tables (`Valid`) and all its writes (`log`).
* `Seen`: a statement of the past, with something that was true at that moment.
* **`Recorded`**: the committed tables are the replay of the history, and every entry is a commit.
  The tables at the start are arbitrary: nothing here rests on what they hold.

`Addition.chain?_log`, `Addition.events_log` and `Addition.usage?_log` are all that the later modules
need to know of the writes of an event.
-/

namespace EvidentLedger.Ledger

open Lib.Transaction

/-! ## Tables along a history -/

/-- The rows of events. -/
def rows (events : List EventRecord) : List EventRow := events.map EventRecord.toRow

theorem rows_append (l m : List EventRecord) : rows (l ++ m) = rows l ++ rows m := List.map_append

/-- The head of a chain; none for a chain that is not there. -/
def Db.head? (db : Db) (c : Uuid) : Option Uuid := (db.chain? c).bind (·.headEventId)

/-- The owner of a chain, if it has one. -/
def Db.owner? (db : Db) (c : Uuid) : Option Uuid := (db.chain? c).bind (·.accountId)

/-- All committed writes in order. -/
def committed (h : History schema) : List Write := h.flatMap (·.2)

/-- The tables after a history. -/
def tables (db₀ : Db) (h : History schema) : Db := replay (S := schema) (committed h) db₀

@[simp] theorem replay_none (db : Db) : replay (S := schema) ([] : List Write) db = db := rfl

@[simp] theorem replay_write (w : Write) (log : List Write) (db : Db) :
    replay (S := schema) (w :: log) db = replay (S := schema) log (w.apply db) := rfl

theorem committed_record (p : Nat) (log : List Write) (h : History schema) :
    committed (record p log h) = committed h ++ log := by
  unfold committed record
  split_ifs with h0
  · rw [List.isEmpty_iff.mp h0, List.append_nil]
  · simp

theorem tables_record (db₀ : Db) (p : Nat) (log : List Write) (h : History schema) :
    tables db₀ (record p log h) = replay (S := schema) log (tables db₀ h) := by
  rw [tables, committed_record, replay_append, tables]

theorem tables_concat (db₀ : Db) (h : History schema) (p : Nat) (log : List Write) :
    tables db₀ (h ++ [(p, log)]) = replay (S := schema) log (tables db₀ h) := by
  rw [tables, committed, List.flatMap_append, replay_append, tables, committed]
  simp

/-! ## Chain and usage rows -/

/-- **How a transaction gets its chain**, given the row there is: it inserts one, owns it, or takes
it over. -/
inductive Access (row? : Option ChainRow) (account c : Uuid) : List Write → Prop
  | created (h : row? = none) : Access row? account c [.insertChain ⟨c, none, some account⟩]
  | owned {row : ChainRow} (h : row? = some row) (hown : row.accountId = some account) :
      Access row? account c []
  | adopted {row : ChainRow} (h : row? = some row) (hfree : row.accountId = none) :
      Access row? account c [.setChainAccount c account]

/-- The usage row of a month, given the row there is: a new one, or that one. -/
inductive Meter (row? : Option UsageRow) (account : Uuid) (month : Int) :
    Int → Int → List Write → Prop
  | first (h : row? = none) : Meter row? account month 0 0 [.insertUsage account month]
  | row {row : UsageRow} (h : row? = some row) :
      Meter row? account month row.serverCommits row.tsaRequests []

/-- The plan of the account allows one more event after these. -/
def Allowance (db₀ : Db) (account : Uuid) (commits stamps : Int) : Prop :=
  ∃ capabilities, db₀.capabilities account = some capabilities ∧
    capabilities.canCommit commits = true ∧ capabilities.canUseTsa stamps = true ∧
    capabilities.tsaAvailable = true

/-- The sequence of the last event of a chain. -/
def maxSequence (events : List EventRecord) : Int := (events.map (·.sequence.toInt)).max?.getD 0

/-! ## The transaction of an event -/

/-- An event, how its chain and its usage row were got, and the usage found there. -/
structure Addition where
  account : Uuid
  event : EventRecord
  chainLog : List Write
  usageLog : List Write
  commits : Int
  stamps : Int

namespace Addition

variable (a : Addition)

/-- `date_trunc('month', now())`. -/
def month : Int := monthOf a.event.createdAt

/-- **What the tables are like** when the event is committed. -/
structure Valid (db : Db) : Prop where
  access : Access (db.chain? a.event.chainId) a.account a.event.chainId a.chainLog
  meter : Meter (db.usage? a.account a.month) a.account a.month a.commits a.stamps a.usageLog
  newId : db.hasEvent a.event.eventId = false
  newKey : ∀ e ∈ db.eventsOf a.event.chainId, e.idempotencyKey ≠ a.event.idempotencyKey
  parent : a.event.parentEventId = (db.head? a.event.chainId).getD Uuid.nil
  sequence : a.event.sequence.toInt = maxSequence (db.eventsOf a.event.chainId) + 1

/-- What is locked. -/
def keys : List Key :=
  [.chain a.event.chainId, .usage a.account a.month, .eventId a.event.eventId]

/-- The writes before the insertion, and before the signature. -/
def prepared : List Write := a.chainLog ++ a.usageLog

def unsigned : List Write :=
  a.prepared ++ [.insertEvent a.event] ++ [.setHead a.event.chainId a.event.eventId] ++
    [.bumpUsage a.account a.month]

variable (state : AppState) (db : Db)

/-- The rows of the chain up to the event, as `proof_snapshot_at_event` reads them. -/
def readRows : List EventRow :=
  rows (orderBySequence ((db.eventsOf a.event.chainId ++ [a.event]).filter
    (·.sequence ≤ a.event.sequence)))

/-- Its proof snapshot. -/
def snapshot : ProofSnapshot :=
  buildProofSnapshot state.sha state.ed state.signer a.event.chainId a.event.eventId
    (a.readRows db)

/-- The row as it stays in `events`. -/
def signed : EventRecord := { a.event with signature := (a.snapshot state db).signature }

/-- **All writes of the event.** -/
def log : List Write :=
  a.unsigned ++
    [.setSignature a.event.chainId a.event.eventId (a.snapshot state db).signature]

end Addition

/-! ## What the writes of an event do -/

/-- A write that leaves the rows of `events` alone. -/
def Write.offEvents : Write → Bool
  | .insertEvent _ => false
  | .setSignature _ _ _ => false
  | _ => true

theorem apply_offEvents {w : Write} (hw : w.offEvents = true) (db : Db) :
    (w.apply db).events = db.events := by
  cases w with
  | insertEvent | setSignature => exact absurd hw (by simp [Write.offEvents])
  | insertChain | setChainAccount | setHead | insertUsage | bumpUsage | insertRecord
    | insertTsaToken => rfl

theorem replay_offEvents {log : List Write} (h : ∀ w ∈ log, w.offEvents = true) (db : Db) :
    (replay (S := schema) log db).events = db.events := by
  induction log generalizing db with
  | nil => rfl
  | cons w log ih =>
    exact (ih (fun w' hw' => h w' (List.mem_cons_of_mem w hw')) (w.apply db)).trans
      (apply_offEvents (h w List.mem_cons_self) db)

theorem capabilities_replay (log : List Write) (db : Db) :
    (replay (S := schema) log db).capabilities = db.capabilities := by
  induction log generalizing db with
  | nil => rfl
  | cons w log ih => exact (ih (w.apply db)).trans (by cases w <;> rfl)

theorem tables_capabilities (db₀ : Db) (h : History schema) :
    (tables db₀ h).capabilities = db₀.capabilities := capabilities_replay _ _

theorem Db.eventsOf_of_events {db db' : Db} (h : db'.events = db.events) (c : Uuid) :
    db'.eventsOf c = db.eventsOf c := by
  rw [Db.eventsOf, h, Db.eventsOf]

section Access

variable {row? : Option ChainRow} {account c : Uuid} {log : List Write} {db : Db}

theorem Access.keys (h : Access row? account c log) :
    ∀ w ∈ log, w.keys = [.chain c] ∧ w.offEvents = true := by
  cases h with
  | created | adopted => simp [Write.keys, Write.offEvents]
  | owned => simp

/-- **The chain is the account's**, with the head it had. -/
theorem Access.chain? (h : Access (db.chain? c) account c log) :
    Db.chain? (replay (S := schema) log db) c = some ⟨c, db.head? c, some account⟩ := by
  cases h with
  | created h =>
    rw [replay_write, replay_none, chain?_insertChain, h, Db.head?, h]
    simp
  | @owned row h hown =>
    obtain ⟨id, head, owner⟩ := row
    obtain rfl : id = c := chainId_of_chain? h
    obtain rfl : owner = some account := hown
    rw [replay_none, h, Db.head?, h]
    rfl
  | @adopted row h hfree =>
    obtain ⟨id, head, owner⟩ := row
    obtain rfl : id = c := chainId_of_chain? h
    rw [replay_write, replay_none, chain?_setChainAccount, h, Db.head?, h]
    simp [Write.assign]

/-- Only a chain without an owner, or its owner. -/
theorem Access.owner (h : Access (db.chain? c) account c log) {owner : Uuid}
    (howner : db.owner? c = some owner) : owner = account := by
  rw [Db.owner?] at howner
  cases h with
  | created h => rw [h] at howner; exact absurd howner (by simp)
  | owned h hown =>
    rw [h, Option.bind_some, hown] at howner
    exact (Option.some.inj howner).symm
  | adopted h hfree =>
    rw [h, Option.bind_some, hfree] at howner
    exact absurd howner (by simp)

end Access

section Meter

variable {row? : Option UsageRow} {account : Uuid} {month commits stamps : Int} {log : List Write}
  {db : Db}

theorem Meter.keys (h : Meter row? account month commits stamps log) :
    ∀ w ∈ log, w.keys = [.usage account month] ∧ w.offEvents = true := by
  cases h with
  | first => simp [Write.keys, Write.offEvents]
  | row => simp

/-- The usage row that the transaction finds. -/
theorem Meter.usage? (h : Meter (db.usage? account month) account month commits stamps log) :
    Db.usage? (replay (S := schema) log db) account month =
      some ⟨account, month, commits, stamps⟩ := by
  cases h with
  | first h =>
    rw [replay_write, replay_none, usage?_insertUsage, h]
    simp
  | @row r h =>
    have hr : r.accountId = account ∧ r.periodStart = month := by simpa using List.find?_some h
    rw [replay_none, h]
    obtain ⟨id, period, commits, stamps⟩ := r
    obtain ⟨rfl, rfl⟩ := hr
    rfl

end Meter

/-- Nothing under a key that no write has. -/
theorem same_of_keys {k : Key} {log : List Write} (h : ∀ w ∈ log, k ∉ w.keys) (db : Db) :
    k.same db (replay (S := schema) log db) :=
  same_replay (S := schema) (k := k) h

namespace Addition

variable {a : Addition} {db : Db} {state : AppState}

/-- Before the insertion only the rows of the chain and of the month are written. -/
theorem Valid.prepared_keys (h : a.Valid db) : ∀ w ∈ a.prepared,
    (w.keys = [.chain a.event.chainId] ∨ w.keys = [.usage a.account a.month]) ∧
      w.offEvents = true := by
  intro w hw
  rcases List.mem_append.mp hw with hw | hw
  · exact ⟨Or.inl (h.access.keys w hw).1, (h.access.keys w hw).2⟩
  · exact ⟨Or.inr (h.meter.keys w hw).1, (h.meter.keys w hw).2⟩

/-- All writes of an event are under its keys. -/
theorem Valid.log_keys (h : a.Valid db) : ∀ w ∈ a.log state db, ∀ k ∈ w.keys,
    k ∈ a.keys ∨ k = .eventIdem a.event.chainId a.event.idempotencyKey ∨
      k = .eventSeq a.event.chainId a.event.sequence := by
  intro w hw k hk
  simp only [log, unsigned, List.mem_append, List.mem_singleton] at hw
  rcases hw with (((hw | rfl) | rfl) | rfl) | rfl
  · rcases (h.prepared_keys w hw).1 with hkeys | hkeys
    · rw [hkeys] at hk
      simp only [List.mem_singleton] at hk
      simp [hk, keys]
    · rw [hkeys] at hk
      simp only [List.mem_singleton] at hk
      simp [hk, keys]
  all_goals
    simp only [Write.keys, List.mem_cons, List.not_mem_nil, or_false] at hk
    simp only [keys, List.mem_cons, List.not_mem_nil, or_false]
    tauto

theorem Valid.events_unsigned (h : a.Valid db) :
    (replay (S := schema) a.unsigned db).events = db.events ++ [a.event] := by
  rw [unsigned, replay_append, replay_append, replay_append]
  change (replay (S := schema) a.prepared db).events ++ [a.event] = _
  rw [replay_offEvents fun w hw => (h.prepared_keys w hw).2]

theorem Valid.eventsOf_unsigned (h : a.Valid db) :
    Db.eventsOf (replay (S := schema) a.unsigned db) a.event.chainId =
      db.eventsOf a.event.chainId ++ [a.event] := by
  rw [Db.eventsOf, h.events_unsigned, List.filter_append, Db.eventsOf]
  simp

/-- Rows that do not have the id are not signed. -/
theorem map_sign_of_not_hasEvent {c id : Uuid} (h : Db.hasEvent db id = false) (s : String) :
    db.events.map (Write.sign c id s) = db.events := by
  refine (List.map_congr_left fun e he => ?_).trans (List.map_id _)
  have hne := List.any_eq_false.mp h e he
  rw [Write.sign, if_neg (by
    rw [Bool.and_eq_true]
    exact fun hboth => hne hboth.2)]
  rfl

/-- **One event more.** -/
theorem Valid.events_log (h : a.Valid db) :
    (replay (S := schema) (a.log state db) db).events = db.events ++ [a.signed state db] := by
  rw [log, replay_append]
  change (replay (S := schema) a.unsigned db).events.map _ = _
  rw [h.events_unsigned, List.map_append, map_sign_of_not_hasEvent h.newId, List.map_singleton,
    Write.sign]
  simp [signed]

theorem Valid.eventsOf_log (h : a.Valid db) (c : Uuid) :
    Db.eventsOf (replay (S := schema) (a.log state db) db) c =
      db.eventsOf c ++ if c = a.event.chainId then [a.signed state db] else [] := by
  rw [Db.eventsOf, h.events_log, List.filter_append, Db.eventsOf]
  congr 1
  by_cases hc : c = a.event.chainId
  · simp [hc, signed]
  · simp [signed, hc, Ne.symm hc]

/-- The chain after the transaction was prepared. -/
theorem Valid.chain?_prepared (h : a.Valid db) :
    Db.chain? (replay (S := schema) a.prepared db) a.event.chainId =
      some ⟨a.event.chainId, db.head? a.event.chainId, some a.account⟩ := by
  rw [prepared, replay_append]
  refine Eq.trans ?_ h.access.chain?
  exact (same_of_keys (k := .chain a.event.chainId)
    (fun w hw => by simp [(h.meter.keys w hw).1]) _).1

/-- **The chain has this owner and this head.** -/
theorem Valid.chain?_log (h : a.Valid db) (c : Uuid) :
    Db.chain? (replay (S := schema) (a.log state db) db) c =
      if c = a.event.chainId then some ⟨c, some a.event.eventId, some a.account⟩
      else db.chain? c := by
  split_ifs with hc
  · subst hc
    rw [log, unsigned, replay_append, replay_append, replay_append, replay_append]
    change Db.chain? (Write.apply (.setHead a.event.chainId a.event.eventId)
      (replay (S := schema) a.prepared db)) a.event.chainId = _
    rw [chain?_setHead, h.chain?_prepared]
    simp [Write.advance]
  · refine (same_of_keys (k := .chain c) (fun w hw hk => ?_) db).1
    rcases h.log_keys w hw _ hk with hk | hk | hk
    · simp [keys, hc] at hk
    · simp at hk
    · simp at hk

/-- The usage row after the transaction was prepared. -/
theorem Valid.usage?_prepared (h : a.Valid db) :
    Db.usage? (replay (S := schema) a.prepared db) a.account a.month =
      some ⟨a.account, a.month, a.commits, a.stamps⟩ := by
  have hsame : Db.usage? (replay (S := schema) a.chainLog db) a.account a.month =
      db.usage? a.account a.month :=
    same_of_keys (k := .usage a.account a.month)
      (fun w hw => by simp [(h.access.keys w hw).1]) db
  have hmeter := h.meter
  rw [← hsame] at hmeter
  rw [prepared, replay_append]
  exact hmeter.usage?

/-- **The usage of the month is one event more.** -/
theorem Valid.usage?_log (h : a.Valid db) (account : Uuid) (month : Int) :
    Db.usage? (replay (S := schema) (a.log state db) db) account month =
      if account = a.account ∧ month = a.month then
        some ⟨account, month, a.commits + 1, a.stamps + 1⟩
      else db.usage? account month := by
  split_ifs with hc
  · obtain ⟨rfl, rfl⟩ := hc
    rw [log, unsigned, replay_append, replay_append, replay_append, replay_append]
    change Db.usage? (Write.apply (.bumpUsage a.account a.month)
      (replay (S := schema) a.prepared db)) a.account a.month = _
    rw [usage?_bumpUsage, h.usage?_prepared]
    simp [Write.count]
  · refine same_of_keys (k := .usage account month) (fun w hw hk => ?_) db
    rcases h.log_keys w hw _ hk with hk | hk | hk
    · simp only [keys, List.mem_cons, Key.usage.injEq, List.not_mem_nil, or_false] at hk
      rcases hk with hk | hk | hk
      · exact absurd hk (by simp)
      · exact hc hk
      · exact absurd hk (by simp)
    · simp at hk
    · simp at hk

end Addition

/-! ## Commits -/

section Commits

variable (state : AppState) (requests : Nat → Request)
  (ok : Nat → Call schema → Shared schema → Prop) (db₀ : Db)

/-- A statement that a request issued in the past, and what was true at that moment. -/
def Seen (p : Nat) (q : Call schema) (h : History schema) (F : Shared schema → Prop) : Prop :=
  ∃ g, ok p q g ∧ g.db = tables db₀ g.history ∧ g.history <+: h ∧ F g

/-- The event that a request adds to the tables. -/
structure Adds (p : Nat) (account : Uuid) (req : SubmitEventRequest) (a : Addition) (db : Db) :
    Prop where
  owner : a.account = account
  row : ∃ eventId parentEventId sequence createdAt,
    a.event = req.row eventId parentEventId sequence createdAt
  eventId : ∀ id, req.eventId = some id → a.event.eventId = id
  valid : a.Valid db
  allowance : Allowance db₀ account a.commits a.stamps
  inserted : ∃ g, ok p (.sql (.insertEvent { a.event with createdAt := 0 })) g ∧
    Db.head? g.db a.event.chainId = db.head? a.event.chainId

/-- What a transaction writes after its event: a record with a new key, or nothing. -/
def RecordOnly (db : Db) (after : List Write) : Prop :=
  after = [] ∨ ∃ r : IdempotencyRecord, after = [.insertRecord r] ∧
    db.record? r.accountId r.idempotencyKey = none

/-- **The event of a request is committed**: its entry, with the writes that came after the event's
own, its id, and the snapshot taken before the commit. -/
def Landed (p : Nat) (account : Uuid) (req : SubmitEventRequest) (eventId : Uuid)
    (snapshot : ProofSnapshot) (after : List Write) (h : History schema) : Prop :=
  ∃ (h₀ : History schema) (a : Addition),
    h₀ ++ [(p, a.log state (tables db₀ h₀) ++ after)] <+: h ∧ writesOf p h₀ = [] ∧
    Adds ok db₀ p account req a (tables db₀ h₀) ∧ RecordOnly (tables db₀ h₀) after ∧
    a.event.eventId = eventId ∧ snapshot = a.snapshot state (tables db₀ h₀)

/-- The request that `submit_v1_event` hands to `insert_event_in_tx`. -/
structure V1Request (key : String) (body : V1SubmitEventRequest) (req : SubmitEventRequest) :
    Prop where
  valid : validateSubmitRequest body = true
  chainId : req.chainId = body.chainId
  fileHash : req.fileHash = normalizedFileHash body.fileHash
  idempotencyKey : req.idempotencyKey = key
  eventId : ∀ id, body.eventId = some id → req.eventId = some id

/-- The record of a v1 event. -/
structure V1Record (account : Uuid) (key : String) (body : V1SubmitEventRequest)
    (r : IdempotencyRecord) : Prop where
  accountId : r.accountId = account
  idempotencyKey : r.idempotencyKey = key
  requestHash : r.requestHash = requestHash state
    { body with fileHash := normalizedFileHash body.fileHash, identitySignature := none }
  expiresAt : r.expiresAt = recordExpiry r.createdAt
  chainId : r.responseJson.chainId = body.chainId

/-- **One entry of the history**, given those before it. -/
inductive Commit (h : History schema) (p : Nat) : List Write → Prop
  | chain {account c : Uuid} (hreq : requests p = .createChain account) (hfirst : writesOf p h = [])
      (hnew : (tables db₀ h).chain? c = none) :
      Commit h p [.insertChain ⟨c, none, some account⟩]
  | legacy {account : Uuid} {req : SubmitEventRequest} {a : Addition}
      (hreq : requests p = .submitEvent account req) (hfirst : writesOf p h = [])
      (hadds : Adds ok db₀ p account req a (tables db₀ h)) :
      Commit h p (a.log state (tables db₀ h))
  | v1 {account : Uuid} {key : String} {body : V1SubmitEventRequest} {req : SubmitEventRequest}
      {a : Addition} {r : IdempotencyRecord} (hreq : requests p = .submitV1Event account key body)
      (hfirst : writesOf p h = []) (hbody : V1Request key body req)
      (hadds : Adds ok db₀ p account req a (tables db₀ h)) (hrecord :
        V1Record state account key body r)
      (hnew : (tables db₀ h).record? account key = none)
      (hresponse : r.responseJson.eventId = a.event.eventId) :
      Commit h p (a.log state (tables db₀ h) ++ [.insertRecord r])
  | token {account : Uuid} {req : SubmitEventRequest} {snapshot : ProofSnapshot}
      {after : List Write} {row : TsaTokenRow} (hchain : row.chainId = req.chainId)
      (hlanded : Landed state ok db₀ p account req row.eventId snapshot after h)
      (hroot : Seen ok db₀ p (.sql (.selectChainEvents .computeChainRoot row.chainId)) h fun g =>
        Landed state ok db₀ p account req row.eventId snapshot after g.history ∧
          chainRoot state (rows (orderBySequence (g.db.eventsOf row.chainId))) =
            some row.merkleRoot)
      (hnew : (tables db₀ h).tsaToken? row.chainId row.merkleRoot = none) :
      Commit h p [.insertTsaToken row]

/-- **The committed tables and their history.** -/
structure Recorded (db : Db) (h : History schema) : Prop where
  replayed : db = tables db₀ h
  commits : ∀ h' p log, h' ++ [(p, log)] <+: h → Commit state requests ok db₀ h' p log

variable {state requests ok db₀}

/-- **The history grows by commits.** -/
theorem Recorded.record {db : Db} {h : History schema} {p : Nat} {log : List Write}
    (hr : Recorded state requests ok db₀ db h)
    (hc : log ≠ [] → Commit state requests ok db₀ h p log) :
    Recorded state requests ok db₀ (replay (S := schema) log db)
      (Lib.Transaction.record p log h) := by
  refine ⟨?_, fun h' q log' hp => ?_⟩
  · rw [tables_record, ← hr.replayed]
  · unfold Lib.Transaction.record at hp
    split_ifs at hp with h0
    · exact hr.commits h' q log' hp
    · rcases List.prefix_concat_iff.mp hp with heq | hp
      · obtain ⟨rfl, hlast⟩ := List.append_inj' heq rfl
        obtain ⟨rfl, rfl⟩ := Prod.mk.inj (List.cons.inj hlast).1
        exact hc fun hn => h0 (List.isEmpty_iff.mpr hn)
      · exact hr.commits h' q log' hp

/-- The history without its last entry. -/
theorem Recorded.init {h : History schema} {p : Nat} {log : List Write}
    (hr : Recorded state requests ok db₀ (tables db₀ (h ++ [(p, log)])) (h ++ [(p, log)])) :
    Recorded state requests ok db₀ (tables db₀ h) h ∧ Commit state requests ok db₀ h p log :=
  ⟨⟨rfl, fun h' q log' hp => hr.commits h' q log' (hp.trans (List.prefix_append _ _))⟩,
    hr.commits h p log (List.prefix_refl _)⟩

theorem recorded_nil : Recorded state requests ok db₀ db₀ [] :=
  ⟨rfl, fun _ _ _ h => absurd (List.prefix_nil.mp h) (by simp)⟩

/-- **Induction along the commits.** -/
theorem Recorded.induction {motive : History schema → Prop} {db : Db} {h : History schema}
    (hr : Recorded state requests ok db₀ db h) (nil : motive [])
    (step : ∀ h p log, Recorded state requests ok db₀ (tables db₀ h) h →
      Commit state requests ok db₀ h p log → motive h → motive (h ++ [(p, log)])) : motive h := by
  obtain ⟨rfl, hcommits⟩ := hr
  induction h using List.reverseRecOn with
  | nil => exact nil
  | append_singleton h entry ih =>
    obtain ⟨p, log⟩ := entry
    obtain ⟨hinit, hlast⟩ := Recorded.init ⟨rfl, hcommits⟩
    exact step h p log hinit hlast (ih hinit.commits)

/-- A past moment of the history. -/
theorem Recorded.of_prefix {db : Db} {h h' : History schema}
    (hr : Recorded state requests ok db₀ db h) (hp : h' <+: h) :
    Recorded state requests ok db₀ (tables db₀ h') h' :=
  ⟨rfl, fun h'' q log hq => hr.commits h'' q log (hq.trans hp)⟩

theorem Landed.mono {p : Nat} {account eventId : Uuid} {req : SubmitEventRequest}
    {snapshot : ProofSnapshot} {after : List Write} {h h' : History schema} (hp : h <+: h')
    (hl : Landed state ok db₀ p account req eventId snapshot after h) :
    Landed state ok db₀ p account req eventId snapshot after h' := by
  obtain ⟨h₀, a, h0, rest⟩ := hl
  exact ⟨h₀, a, h0.trans hp, rest⟩

/-- A request whose event has landed has written something. -/
theorem Landed.writes_ne {p : Nat} {account eventId : Uuid} {req : SubmitEventRequest}
    {snapshot : ProofSnapshot} {after : List Write} {h : History schema}
    (hl : Landed state ok db₀ p account req eventId snapshot after h) : writesOf p h ≠ [] := by
  obtain ⟨h₀, a, ⟨rest, rfl⟩, -⟩ := hl
  rw [writesOf_append, writesOf_append, writesOf_singleton, if_pos rfl]
  simp [Addition.log]

theorem Seen.mono {p : Nat} {q : Call schema} {h h' : History schema} {F : Shared schema → Prop}
    (hp : h <+: h') (hs : Seen ok db₀ p q h F) : Seen ok db₀ p q h' F := by
  obtain ⟨g, hok, hdb, hg, hF⟩ := hs
  exact ⟨g, hok, hdb, hg.trans hp, hF⟩

/-! ## The kinds of commits -/

variable (state ok db₀) in
/-- **A commit by what it does to the tables**: a chain, an event, a token. -/
inductive Kind (p : Nat) (db : Db) : List Write → Prop
  | chain {account c : Uuid} (hnew : db.chain? c = none) :
      Kind p db [.insertChain ⟨c, none, some account⟩]
  | event {account : Uuid} {req : SubmitEventRequest} {a : Addition} {after : List Write}
      (hadds : Adds ok db₀ p account req a db) (hafter : RecordOnly db after) :
      Kind p db (a.log state db ++ after)
  | token {row : TsaTokenRow} (hnew : db.tsaToken? row.chainId row.merkleRoot = none) :
      Kind p db [.insertTsaToken row]

theorem Commit.kind {h : History schema} {p : Nat} {log : List Write}
    (hc : Commit state requests ok db₀ h p log) : Kind state ok db₀ p (tables db₀ h) log := by
  cases hc with
  | chain _ _ hnew => exact .chain hnew
  | legacy _ _ hadds =>
    rw [← List.append_nil (Addition.log _ _ _)]
    exact .event hadds (Or.inl rfl)
  | v1 _ _ _ hadds hrecord hnew =>
    refine .event hadds (Or.inr ⟨_, rfl, ?_⟩)
    rw [hrecord.accountId, hrecord.idempotencyKey]
    exact hnew
  | token _ _ _ hnew => exact .token hnew

/-- A record touches neither chains nor events nor usage. -/
theorem RecordOnly.replay {db : Db} {after : List Write} (h : RecordOnly db after) (db' : Db) :
    (replay (S := schema) after db').events = db'.events ∧
      (replay (S := schema) after db').chains = db'.chains ∧
      (replay (S := schema) after db').usageMonthly = db'.usageMonthly := by
  rcases h with rfl | ⟨r, rfl, -⟩
  · exact ⟨rfl, rfl, rfl⟩
  · exact ⟨rfl, rfl, rfl⟩

section Event

variable {db : Db} {a : Addition} {after : List Write}

/-- **The writes of an event**, with its record. -/
theorem Addition.Valid.events_all (h : a.Valid db) (hafter : RecordOnly db after) :
    (replay (S := schema) (a.log state db ++ after) db).events =
      db.events ++ [a.signed state db] := by
  rw [replay_append, (hafter.replay _).1, h.events_log]

theorem Addition.Valid.eventsOf_all (h : a.Valid db) (hafter : RecordOnly db after) (c : Uuid) :
    Db.eventsOf (replay (S := schema) (a.log state db ++ after) db) c =
      db.eventsOf c ++ if c = a.event.chainId then [a.signed state db] else [] := by
  rw [replay_append, Db.eventsOf_of_events (hafter.replay _).1, h.eventsOf_log]

theorem Addition.Valid.chain?_all (h : a.Valid db) (hafter : RecordOnly db after) (c : Uuid) :
    Db.chain? (replay (S := schema) (a.log state db ++ after) db) c =
      if c = a.event.chainId then some ⟨c, some a.event.eventId, some a.account⟩
      else db.chain? c := by
  rw [replay_append, Db.chain?, (hafter.replay _).2.1]
  exact h.chain?_log c

theorem Addition.Valid.usage?_all (h : a.Valid db) (hafter : RecordOnly db after) (account : Uuid)
    (month : Int) :
    Db.usage? (replay (S := schema) (a.log state db ++ after) db) account month =
      if account = a.account ∧ month = a.month then
        some ⟨account, month, a.commits + 1, a.stamps + 1⟩
      else db.usage? account month := by
  rw [replay_append, Db.usage?, (hafter.replay _).2.2]
  exact h.usage?_log account month

end Event

/-- **Events are only ever appended.** -/
theorem Kind.events {p : Nat} {db : Db} {log : List Write} (hk : Kind state ok db₀ p db log) :
    db.events <+: (replay (S := schema) log db).events := by
  cases hk with
  | chain | token => exact List.prefix_refl _
  | event hadds hafter =>
    rw [hadds.valid.events_all hafter]
    exact List.prefix_append _ _

theorem Recorded.events {db : Db} {h h' : History schema}
    (hr : Recorded state requests ok db₀ db h) (hp : h' <+: h) :
    (tables db₀ h').events <+: db.events := by
  rw [hr.replayed]
  refine hr.induction (motive := fun h => ∀ h', h' <+: h →
    (tables db₀ h').events <+: (tables db₀ h).events) ?_ ?_ h' hp
  · intro h' hp
    rw [List.prefix_nil.mp hp]
  · intro h p log _ hc ih h' hp
    rcases List.prefix_concat_iff.mp hp with rfl | hp
    · exact List.prefix_refl _
    · rw [tables_concat]
      exact (ih h' hp).trans hc.kind.events

end Commits

end EvidentLedger.Ledger
