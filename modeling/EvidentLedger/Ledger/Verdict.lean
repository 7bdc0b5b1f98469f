import EvidentLedger.Ledger.Replay
import EvidentLedger.Lib.Alone

/-!
# The verdict on a request

`submit_v1_event` (`src/api/v1/submit_event.rs:141-288`) with the tables to itself: no other request
takes a step and no statement fails. What it answers is then a pure function of the tables, with one
verdict for each function of the source: `ensure_chain_access_in_tx` (`service/ledger.rs:90-141`),
`plan_next_event` (`:143-171`), `insert_event_in_tx` (`:258-370`), `validate_and_prepare`
(`service/identity_signing.rs`), and the two lookups of `api/v1/idempotency/postgres.rs`.

* `submitVerdict`: the whole request.
* `calmly`: the begin of the transaction has its time, no statement fails, an identifier is new.
* `Opened`, `Planned`: the view of the tables once the chain is the account's, and the plan of the
  event. `Decision.lean` goes on from there.
-/

namespace EvidentLedger.Ledger

open Lib.Interleave Lib.Transaction

/-! ## Verdicts -/

/-- A check. -/
def demand {ε : Type} (b : Bool) (e : ε) : Except ε Unit := if b then .ok () else .error e

@[simp] theorem demand_true {ε : Type} (e : ε) : demand true e = .ok () := rfl

@[simp] theorem demand_false {ε : Type} (e : ε) : demand false e = .error e := rfl

@[simp] theorem ok_bind {ε α β : Type} (a : α) (f : α → Except ε β) :
    (Except.ok a >>= f) = f a := rfl

@[simp] theorem error_bind {ε α β : Type} (e : ε) (f : α → Except ε β) :
    (Except.error e >>= f) = .error e := rfl

theorem demand_ok {ε : Type} {b : Bool} {e : ε} (h : demand b e = .ok ()) : b = true := by
  cases b with
  | true => rfl
  | false => exact absurd h (by simp)

namespace Db

variable (db : Db)

/-- Nobody else owns the chain. -/
def mayWrite (account c : Uuid) : Bool := (db.owner? c).all (· == account)

/-- The chain has a sequence left. -/
def sequenceLeft (c : Uuid) : Bool := maxSequence (db.eventsOf c) + 1 ≤ Int64.maxValue.toInt

/-- The next one. -/
def nextSequence (c : Uuid) : Int64 := Int64.ofInt (maxSequence (db.eventsOf c) + 1)

/-- Commits and timestamps of a month. -/
def usageOf (account : Uuid) (month : Int) : Int × Int :=
  ((db.usage? account month).map fun r => (r.serverCommits, r.tsaRequests)).getD (0, 0)

/-- The row of the month, as the transaction finds it. -/
def meter (account : Uuid) (month : Int) : UsageRow :=
  ⟨account, month, (db.usageOf account month).1, (db.usageOf account month).2⟩

def identityKey? (keyId account : Uuid) : Option IdentityKeyRow :=
  db.identityKeys.find? fun k => k.id == keyId && k.accountId == account

/-- An event of the chain has this key. -/
def hasKey (c : Uuid) (key : String) : Bool := (db.eventsOf c).any (·.idempotencyKey == key)

/-- The record of a key, until it expires. -/
def activeRecord? (account : Uuid) (key : String) (now : Int) : Option IdempotencyRecord :=
  (db.record? account key).filter (·.expiresAt > now)

end Db

/-- `ensure_chain_access_in_tx`. -/
def accessVerdict (db : Db) (account c : Uuid) : Except LedgerError Unit :=
  demand (db.mayWrite account c) .chainAccessDenied

/-- `plan_next_event`. -/
def planVerdict (db : Db) (c : Uuid) : Except LedgerError Unit :=
  demand (db.sequenceLeft c) (.databaseError (.database none))

/-- `validate_and_prepare`. -/
def keyVerdict (state : AppState) (db : Db) (account : Uuid) (identity : V1IdentitySignature)
    (hash : String) : Except IdentitySigningError (Uuid × String × String) :=
  match db.identityKey? identity.keyId account with
  | none => .error .keyNotFound
  | some key => checkIdentityKey state key identity.signature hash

/-- The identity columns of the event. -/
def identityVerdict (state : AppState) (db : Db) (account : Uuid) (capabilities : AccountCapabilities)
    (identity : Option V1IdentitySignature) (hash : String) :
    Except ApiError (Option (Uuid × String × String)) :=
  match identity with
  | none => .ok none
  | some identity => do
    demand capabilities.identityEnabled .entitlementMissing
    let fields ← (keyVerdict state db account identity hash).mapError mapIdentitySigningError
    .ok (some fields)

/-- The quotas of `insert_event_in_tx`. -/
def usageVerdict (capabilities : AccountCapabilities) (usage : Int × Int) :
    Except LedgerError Unit := do
  demand (capabilities.canCommit usage.1) .usageLimitExceeded
  demand (capabilities.canUseTsa usage.2) .tsaLimitExceeded
  demand capabilities.tsaAvailable .qualifiedTsaUnavailable

/-- The unique keys of the event. -/
def keysVerdict (idTaken keyTaken : Bool) : Except LedgerError Unit := do
  demand (!idTaken) (.databaseError (.database (some "events_pkey")))
  demand (!keyTaken) (.databaseError (.database (some "uniq_idem")))

/-- The usage counted. -/
def countVerdict (usage : Int × Int) : Except LedgerError Unit :=
  demand (usage.1 < maxInt32 && usage.2 < maxInt32) (.databaseError (.database none))

/-- `insert_event_in_tx`. -/
def insertVerdict (capabilities : AccountCapabilities) (idTaken keyTaken : Bool)
    (usage : Int × Int) : Except LedgerError Unit := do
  usageVerdict capabilities usage
  keysVerdict idTaken keyTaken
  countVerdict usage

/-- `insert_in_tx`. -/
def recordVerdict (db : Db) (account : Uuid) (key : String) : Except ApiError Unit :=
  demand (db.record? account key).isNone .conflict

/-- The named event id is taken. -/
def Db.idTaken (db : Db) (eventId : Option Uuid) : Bool := eventId.any db.hasEvent

/-- The hash an identity key signs. -/
def plannedHash (state : AppState) (db : Db) (body : V1SubmitEventRequest) (eventId : Uuid) : String :=
  buildLeaf state.sha (db.nextSequence body.chainId) eventId
    ((db.head? body.chainId).getD Uuid.nil) (normalizedFileHash body.fileHash)

/-- A new event, in the order of the source. -/
def entryVerdict (state : AppState) (db : Db) (now : Int) (account : Uuid)
    (capabilities : AccountCapabilities) (key : String) (body : V1SubmitEventRequest) :
    Except ApiError Unit := do
  (accessVerdict db account body.chainId).mapError mapLedgerError
  (planVerdict db body.chainId).mapError mapLedgerError
  let _ ← identityVerdict state db account capabilities body.identitySignature
    (plannedHash state db body (body.eventId.getD Uuid.nil))
  (insertVerdict capabilities (db.idTaken body.eventId) (db.hasKey body.chainId key)
    (db.usageOf account (monthOf now))).mapError mapLedgerError
  recordVerdict db account key

/-- The transaction: the response of an active record, or a new event. -/
def bodyVerdict (state : AppState) (db : Db) (now : Int) (account : Uuid)
    (capabilities : AccountCapabilities) (key : String) (body : V1SubmitEventRequest) :
    Except ApiError (Option V1Response) :=
  match db.activeRecord? account key now with
  | some record => do
    demand (record.requestHash == requestHash state body.hashed) .conflict
    .ok (some record.responseJson)
  | none => do
    entryVerdict state db now account capabilities key body
    .ok none

/-- **`submit_v1_event`**: an error, the response of a record, or none for a new event. -/
def submitVerdict (state : AppState) (db : Db) (now : Int) (account : Uuid) (key : String)
    (body : V1SubmitEventRequest) : Except ApiError (Option V1Response) := do
  demand (validateSubmitRequest body) .invalidRequest
  match db.capabilities account with
  | none => .error .internal
  | some capabilities => bodyVerdict state db now account capabilities key body

/-! ## On its own -/

/-- No event and no record has the id. -/
def Db.isNewId (db : Db) (id : Uuid) : Bool :=
  !db.hasEvent id && !db.idempotencyRecords.any (·.id == id)

/-- Request `p` begins at this time, none of its statements fails, and a new identifier is in none of
these tables. -/
def calmly (p : Nat) (now : Int) (db : Db) (q : Nat) (ch : Choice) (call : Call schema)
    (_ : Shared schema) : Bool :=
  q != p || !ch.fails && match call with
    | .begin => decide (ch.time = now)
    | .ask .newUuid => db.isNewId ch.uuid
    | _ => true

/-- The inside of its transaction, and what it decides. -/
abbrev Decides {ε α γ : Type} (p : Nat) (now : Int) (db : Db) (h : History schema)
    (Pre : Db → Prop) (verdict : Except ε γ) (prog : Program schema ε α)
    (Post : γ → α → Db → Prop) : Prop :=
  Computes (S := schema) (calmly p now db) p now db h Pre verdict prog Post

section Rules

variable {p : Nat} {now : Int} {db : Db} {h : History schema} {ε α γ : Type} {Pre : Db → Prop}
  {verdict : Except ε γ}

theorem calmly_fails {ch : Choice} {call : Call schema} {g : Shared schema}
    (h : calmly p now db p ch call g = true) : ch.fails = false := by
  simp only [calmly, bne_self_eq_false, Bool.false_or, Bool.and_eq_true] at h
  simpa using h.1

/-- **A statement** decides by its effect on the view. -/
theorem decides_sql {s : Sql} {f : DbError → ε} {Post : γ → s.Res → Db → Prop}
    (hs : s.onPool = false)
    (hok : ∀ view waits ch a ks ws, Pre view → s.effect waits ch now view = some (.ok (a, ks, ws)) →
      ∃ v, verdict = .ok v ∧ Post v a (replay (S := schema) ws view))
    (herr : ∀ view waits ch e, Pre view → s.effect waits ch now view = some (.error e) →
      verdict = .error (f e)) :
    Decides p now db h Pre verdict (statement f s) Post :=
  computes_sql (S := schema) hs (fun _ _ hadm => calmly_fails hadm)
    (fun view waits ch a ks ws hpre he => hok view waits ch a ks ws hpre he)
    fun view waits ch e hpre he => herr view waits ch e hpre he

/-- A read on the pool decides by its effect on the tables. -/
theorem decides_pool {s : Sql} {f : DbError → ε} {Post : γ → s.Res → Db → Prop}
    (hs : s.onPool = true)
    (hok : ∀ view waits ch a ks ws, Pre view →
      s.effect waits ch ch.time db = some (.ok (a, ks, ws)) →
        ws = [] ∧ ∃ v, verdict = .ok v ∧ Post v a view)
    (herr : ∀ waits ch e, s.effect waits ch ch.time db = some (.error e) →
      verdict = .error (f e)) :
    Decides p now db h Pre verdict (statement f s) Post :=
  computes_pool (S := schema) hs (fun _ _ hadm => calmly_fails hadm)
    (fun view waits ch a ks ws hpre he => hok view waits ch a ks ws hpre he)
    fun waits ch e he => herr waits ch e he

theorem decides_require {b : Bool} {e : ε} :
    Decides p now db h Pre (demand b e) (require b e) fun _ _ view => b = true ∧ Pre view := by
  cases b with
  | true => exact computes_pure fun _ hpre => ⟨rfl, hpre⟩
  | false => exact body_throw fun _ _ => rfl

end Rules

/-! ## The chain -/

/-- The view once the chain is the account's: nothing else is written. -/
structure Opened (db : Db) (account c : Uuid) (view : Db) : Prop where
  chain : view.chain? c = some ⟨c, db.head? c, some account⟩
  events : view.events = db.events
  usage : view.usageMonthly = db.usageMonthly
  records : view.idempotencyRecords = db.idempotencyRecords
  capabilities : view.capabilities = db.capabilities

theorem Access.opened {db : Db} {account c : Uuid} {log : List Write}
    (h : Access (db.chain? c) account c log) :
    Opened db account c (replay (S := schema) log db) := by
  refine ⟨h.chain?, replay_offEvents (fun w hw => (h.keys w hw).2) db, ?_, ?_,
    capabilities_replay _ _⟩
  all_goals cases h <;> rfl

section Chain

variable {p : Nat} {now : Int} {db : Db} {h : History schema} {account c : Uuid}
  {capabilities : AccountCapabilities}

/-- A chain that is there is locked. -/
theorem decides_lockChain {row : ChainRow} (hrow : db.chain? c = some row) :
    Decides p now db h (fun view => view = db) (.ok ()) (lockChain c)
      fun _ owner view => owner = row.accountId ∧ view = db := by
  refine computes_bind (o := .ok ()) (n := fun _ => .ok ())
    (M := fun _ found view => found = some row.accountId ∧ view = db)
    (decides_sql rfl ?_ ?_) fun _ found _ => computes_and ?_
  · rintro view waits ch found ks ws rfl he
    simp only [Sql.effect, hrow] at he
    obtain ⟨-, rfl, -, rfl⟩ := locking_ok he
    exact ⟨(), rfl, rfl, rfl⟩
  · rintro view waits ch e rfl he
    simp only [Sql.effect, hrow] at he
    exact absurd he locking_error
  · rintro rfl
    exact computes_pure fun _ hview => ⟨rfl, hview⟩

/-- The row of the chain, new or locked. -/
def Owned (db : Db) (account c : Uuid) (owner : Option Uuid) (view : Db) : Prop :=
  (db.chain? c = none ∧ owner = some account ∧
      view = (Write.insertChain ⟨c, none, some account⟩).apply db) ∨
    ∃ row, db.chain? c = some row ∧ owner = row.accountId ∧ view = db

theorem decides_insertOrLockChain (hcap : db.capabilities account = some capabilities) :
    Decides p now db h (fun view => view = db) (.ok ()) (insertOrLockChain account c)
      fun _ owner => Owned db account c owner := by
  refine computes_bind (o := .ok ()) (n := fun _ => .ok ())
    (M := fun _ found view => (found = none ∧ (db.chain? c).isSome = true ∧ view = db) ∨
      (found = some (some account) ∧ db.chain? c = none ∧
        view = (Write.insertChain ⟨c, none, some account⟩).apply db)) (decides_sql rfl ?_ ?_)
      fun _ found _ => ?_
  · rintro view waits ch found ks ws rfl he
    rcases insertChainOnConflict_ok he with ⟨rfl, -, rfl, hrow⟩ | ⟨rfl, -, rfl, hrow⟩
    · exact ⟨(), rfl, .inl ⟨rfl, hrow, rfl⟩⟩
    · exact ⟨(), rfl, .inr ⟨rfl, hrow, rfl⟩⟩
  · rintro view waits ch e rfl he
    simp only [Sql.effect, hcap, Option.isNone_some, Bool.false_eq_true, if_false] at he
    split at he
    · exact absurd he reads_error
    · exact absurd he locking_error
  · cases found with
    | none =>
      refine computes_pre (P := fun view => (db.chain? c).isSome = true ∧ view = db) ?_
        (computes_and fun hrow => ?_)
      · rintro view (⟨-, hrow, rfl⟩ | ⟨hfound, -⟩)
        · exact ⟨hrow, rfl⟩
        · exact absurd hfound (by simp)
      · obtain ⟨row, hrow⟩ := Option.isSome_iff_exists.mp hrow
        exact computes_post (decides_lockChain hrow) fun _ _ _ hlocked =>
          .inr ⟨row, hrow, hlocked.1, hlocked.2⟩
    | some owner =>
      refine computes_pure fun view hview => ?_
      rcases hview with ⟨hfound, -⟩ | ⟨hfound, hrow, hview⟩
      · exact absurd hfound (by simp)
      · exact .inl ⟨hrow, Option.some.inj hfound, hview⟩

/-- What its owner decides. -/
theorem decides_claimChain {owner : Option Uuid}
    (hcap : db.capabilities account = some capabilities) :
    Decides p now db h (Owned db account c owner) (accessVerdict db account c)
      (claimChain account c owner) fun _ _ => Opened db account c := by
  cases owner with
  | some owner =>
    refine computes_pre (P := fun view => db.mayWrite account c = (owner == account) ∧
      Owned db account c (some owner) view) ?_ (computes_and fun hmay => ?_)
    · rintro view (⟨hrow, hown, hview⟩ | ⟨row, hrow, hown, hview⟩)
      · refine ⟨?_, .inl ⟨hrow, hown, hview⟩⟩
        rw [Db.mayWrite, Db.owner?, hrow, Option.some.inj hown]
        simp
      · refine ⟨?_, .inr ⟨row, hrow, hown, hview⟩⟩
        rw [Db.mayWrite, Db.owner?, hrow, Option.bind_some, ← hown]
        rfl
    · rw [accessVerdict, hmay]
      refine computes_post decides_require fun _ _ view hrequired => ?_
      obtain ⟨hown, hview⟩ := hrequired
      obtain rfl : owner = account := by simpa using hown
      rcases hview with ⟨hrow, -, rfl⟩ | ⟨row, hrow, hown, rfl⟩
      · exact (Access.created hrow).opened
      · exact (Access.owned hrow hown.symm).opened
  | none =>
    have hnone : ∀ view, Owned db account c none view →
        ∃ row, db.chain? c = some row ∧ row.accountId = none ∧ view = db := by
      rintro view (⟨-, hown, -⟩ | ⟨row, hrow, hown, hview⟩)
      · exact absurd hown (by simp)
      · exact ⟨row, hrow, hown.symm, hview⟩
    refine decides_sql rfl ?_ ?_
    · intro view waits ch r ks ws hview he
      obtain ⟨row, hrow, hfree, rfl⟩ := hnone view hview
      obtain ⟨-, rfl⟩ := updateChainAccount_ok hrow he
      refine ⟨(), ?_, (Access.adopted hrow hfree).opened⟩
      rw [accessVerdict, Db.mayWrite, Db.owner?, hrow, Option.bind_some, hfree]
      rfl
    · intro view waits ch e hview he
      obtain ⟨row, hrow, -, rfl⟩ := hnone view hview
      simp only [Sql.effect, hrow, hcap, Option.isNone_some, Bool.false_eq_true, if_false] at he
      exact absurd he locking_error

/-- **`ensure_chain_access_in_tx`.** -/
theorem decides_ensureChainAccessInTx (hcap : db.capabilities account = some capabilities) :
    Decides p now db h (fun view => view = db) (accessVerdict db account c)
      (ensureChainAccessInTx account c) fun _ _ => Opened db account c :=
  computes_bind (o := .ok ()) (n := fun _ => accessVerdict db account c)
    (decides_insertOrLockChain hcap) fun _ _ _ => decides_claimChain hcap

end Chain

/-! ## The plan -/

/-- The id of the new event: the one of the request, or a new one. -/
def Named (db : Db) (eventId : Option Uuid) (id : Uuid) : Prop :=
  match eventId with
  | some eventId => id = eventId
  | none => db.hasEvent id = false

/-- A plan for the next event of a chain. -/
structure Planned (db : Db) (c : Uuid) (eventId : Option Uuid) (plan : PlannedEvent) : Prop where
  named : Named db eventId plan.eventId
  sequence : plan.sequence = db.nextSequence c
  parent : plan.parentEventId = (db.head? c).getD Uuid.nil

section Plan

variable {p : Nat} {now : Int} {db : Db} {h : History schema} {account c : Uuid} {ε : Type}

theorem decides_question {a : Ask} {Pre : Db → Prop} {Q : a.Ans → Prop}
    (hQ : ∀ ch g, calmly p now db p ch (.ask a) g = true → Q (ch.answer a)) :
    Decides p now db h Pre (.ok () : Except ε Unit) (question a)
      fun _ r view => Q r ∧ Pre view :=
  computes_ask (S := schema) fun _ ch g hpre hadm => ⟨hQ ch g hadm, hpre⟩

theorem decides_eventIdOrNew {eventId : Option Uuid} {Pre : Db → Prop} :
    Decides p now db h Pre (.ok ()) (eventIdOrNew eventId)
      fun _ id view => Named db eventId id ∧ Pre view := by
  cases eventId with
  | some eventId => exact computes_pure fun _ hpre => ⟨rfl, hpre⟩
  | none =>
    refine decides_question fun ch g hadm => ?_
    simp only [calmly, Db.isNewId, bne_self_eq_false, Bool.false_or, Bool.and_eq_true,
      Bool.not_eq_true'] at hadm
    exact hadm.2.1

/-- The head of a chain that is open. -/
theorem decides_selectHead {Pre : Db → Prop} {f : DbError → ε} {head : Option Uuid}
    (hPre : ∀ view, Pre view → view.chain? c = some ⟨c, head, some account⟩) :
    Decides p now db h Pre (.ok ()) (statement f (.selectHead c))
      fun _ r view => r = head ∧ Pre view := by
  refine decides_sql rfl ?_ ?_
  · intro view waits ch r ks ws hpre he
    obtain ⟨rfl, rfl⟩ := selectHead_ok (hPre view hpre) he
    exact ⟨(), rfl, rfl, hpre⟩
  · intro view waits ch e hpre he
    simp only [Sql.effect, hPre view hpre] at he
    exact absurd he reads_error

/-- Its next sequence. -/
theorem decides_selectNextSequence {Pre : Db → Prop}
    (hPre : ∀ view, Pre view → view.events = db.events) :
    Decides p now db h Pre (planVerdict db c) (query (.selectNextSequence c))
      fun _ r view => (db.sequenceLeft c = true ∧ r = db.nextSequence c) ∧ Pre view := by
  cases hleft : db.sequenceLeft c with
  | true =>
    have hmax := of_decide_eq_true hleft
    rw [maxSequence] at hmax
    refine decides_sql rfl ?_ ?_
    · intro view waits ch r ks ws hpre he
      simp only [Sql.effect, Db.eventsOf_of_events (hPre view hpre) c, if_pos hmax] at he
      obtain ⟨rfl, -, rfl⟩ := reads_ok he
      exact ⟨(), by rw [planVerdict, hleft]; rfl, ⟨rfl, rfl⟩, hpre⟩
    · intro view waits ch e hpre he
      simp only [Sql.effect, Db.eventsOf_of_events (hPre view hpre) c, if_pos hmax] at he
      exact absurd he reads_error
  | false =>
    have hmax := of_decide_eq_false hleft
    rw [maxSequence] at hmax
    refine decides_sql rfl ?_ ?_
    · intro view waits ch r ks ws hpre he
      simp only [Sql.effect, Db.eventsOf_of_events (hPre view hpre) c, if_neg hmax] at he
      exact absurd he (by simp)
    · intro view waits ch e hpre he
      simp only [Sql.effect, Db.eventsOf_of_events (hPre view hpre) c, if_neg hmax] at he
      obtain rfl := Except.error.inj (Option.some.inj he)
      rw [planVerdict, hleft]
      rfl

/-- **`plan_next_event`.** -/
theorem decides_planNextEvent {eventId : Option Uuid} :
    Decides p now db h (Opened db account c) (planVerdict db c) (planNextEvent c eventId)
      fun _ plan view => (db.sequenceLeft c = true ∧ Planned db c eventId plan) ∧
        Opened db account c view := by
  refine computes_bind (o := .ok ()) (n := fun _ => planVerdict db c)
    (decides_selectHead fun view hview => hview.chain) fun _ head _ => computes_and fun hhead => ?_
  rw [← bind_pure (planVerdict db c)]
  refine computes_bind (decides_selectNextSequence fun view hview => hview.events)
    fun _ sequence _ => computes_and fun hsequence => ?_
  refine computes_bind (o := .ok ()) (n := fun _ => .ok ()) decides_eventIdOrNew
    fun _ id _ => computes_and fun hid => computes_pure fun view hview => ?_
  refine ⟨⟨hsequence.1, hid, hsequence.2, ?_⟩, hview⟩
  rw [hhead]

end Plan

/-! ## The identity columns -/

section Identity

variable {state : AppState} {p : Nat} {now : Int} {db : Db} {h : History schema} {account : Uuid}
  {capabilities : AccountCapabilities} {ε α : Type} {Pre : Db → Prop}

theorem decides_except {verdict : Except ε α} :
    Decides p now db h Pre verdict (ExceptT.mk (pure verdict)) fun v r view => r = v ∧ Pre view := by
  cases verdict with
  | ok v => exact computes_pure fun _ hpre => ⟨rfl, hpre⟩
  | error e => exact body_throw fun _ _ => rfl

theorem decides_selectCapabilities {f : DbError → ε}
    (hcap : db.capabilities account = some capabilities) :
    Decides p now db h Pre (.ok ()) (statement f (.selectCapabilities account))
      fun _ r view => r = capabilities ∧ Pre view := by
  refine decides_pool rfl ?_ ?_
  · intro view waits ch r ks ws hpre he
    obtain ⟨hr, rfl⟩ := selectCapabilities_ok he
    exact ⟨rfl, (), rfl, Option.some.inj (hr.symm.trans hcap), hpre⟩
  · intro waits ch e he
    simp only [Sql.effect, hcap] at he
    exact absurd he reads_error

theorem decides_requireIdentityFeature (hcap : db.capabilities account = some capabilities) :
    Decides p now db h Pre (demand capabilities.identityEnabled .entitlementMissing)
      (requireIdentityFeature account) fun _ _ view => Pre view := by
  refine computes_bind (o := .ok ())
    (n := fun _ => demand capabilities.identityEnabled ApiError.entitlementMissing)
    (decides_selectCapabilities hcap) fun _ r _ => computes_and ?_
  rintro rfl
  exact computes_post decides_require fun _ _ _ hpost => hpost.2

/-- **`validate_and_prepare`.** -/
theorem decides_validateAndPrepare {identity : V1IdentitySignature} {hash : String} :
    Decides p now db h Pre (keyVerdict state db account identity hash)
      (validateAndPrepare state account identity.keyId identity.signature hash)
      fun v r view => r = v ∧ Pre view := by
  refine computes_bind (o := .ok ())
    (n := fun _ => keyVerdict state db account identity hash)
    (M := fun _ found view => found = db.identityKey? identity.keyId account ∧ Pre view)
    (decides_pool rfl ?_ ?_) fun _ found _ => computes_and fun hfound => ?_
  · intro view waits ch r ks ws hpre he
    obtain ⟨rfl, -, rfl⟩ := reads_ok he
    exact ⟨rfl, (), rfl, rfl, hpre⟩
  · exact fun waits ch e he => absurd he reads_error
  · unfold keyVerdict
    rw [← hfound]
    cases found with
    | none => exact body_throw fun _ _ => rfl
    | some key => exact decides_except

theorem decides_identityFields {identity : Option V1IdentitySignature} {hash : String}
    (hcap : db.capabilities account = some capabilities) :
    Decides p now db h Pre (identityVerdict state db account capabilities identity hash)
      (identityFields state account identity hash) fun _ _ view => Pre view := by
  cases identity with
  | none => exact computes_pure fun _ hpre => hpre
  | some identity =>
    refine computes_bind (decides_requireIdentityFeature hcap) fun _ _ _ => ?_
    refine computes_bind (computes_mapErr decides_validateAndPrepare) fun v fields _ =>
      computes_and fun _ => computes_pure fun _ hpre => hpre

end Identity

end EvidentLedger.Ledger
