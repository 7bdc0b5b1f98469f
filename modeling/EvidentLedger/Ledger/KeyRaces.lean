import EvidentLedger.Lib.Shape
import EvidentLedger.Ledger.Legacy

/-!
# Requests that lose their idempotency key

A request is refused for its key in three places: the lookup of its record finds one for another body,
the insertion of its record finds one that was committed in between, and the insertion of its event
finds an event of the chain with that key (`uniq_idem`, `migrations/20260628192818_init.sql:17`). The
first two are mapped to a conflict (`api/v1/submit_event.rs:164-177`, `256-264`). The third is not:
`From<sqlx::Error>` compares the constraint with `"uniq_idempotency"` (`service/ledger.rs:36-48`), and
`map_ledger_error` makes an internal error of the rest.

* `leads_run`: in every request, whatever else it is told, a refusal by a record leads to a conflict.
* `once_run`: no request inserts two events, so a transaction that inserts one sees the committed
  events of its chain.
* **`lost_race_is_conflict`**: in every run where no event is inserted under a key that the chain
  already has, a request that is refused for its key returns a conflict.
-/

namespace EvidentLedger.Ledger

open Lib.Interleave Lib.Interleave.Prog Lib.Transaction

/-- An answer that refuses a request for its key: `hash` is that of its body. -/
def keyTaken (hash : String) : (q : Call schema) → q.Answer → Bool
  | .sql (.insertEvent _), .error err => err == .database (some "uniq_idem")
  | .sql (.insertRecord _), .error err => err == .database (some "uniq_idempotency_account_key")
  | .sql (.selectActiveRecord _ _), .ok (some record) =>
    IdempotencyRecord.requestHash record != hash
  | _, _ => false

/-- The event that a call inserts. -/
def insertion? : Call schema → Option EventRecord
  | .sql (.insertEvent e) => some e
  | _ => none

/-- The insertion of an event. -/
def insertsEvent (q : Call schema) : Prop := (insertion? q).isSome = true

/-- Calls that are never refused for a key. -/
def plain : Call schema → Prop
  | .sql (.insertEvent _) | .sql (.insertRecord _) | .sql (.selectActiveRecord _ _) => False
  | _ => True

/-- Calls that are never refused for a record. -/
def recordless : Call schema → Prop
  | .sql (.insertRecord _) | .sql (.selectActiveRecord _ _) => False
  | _ => True

/-- A refusal by a record. -/
def recordTaken (hash : String) (q : Call schema) (r : q.Answer) : Prop :=
  ¬ insertsEvent q ∧ keyTaken hash q r = true

/-- A plain call writes no idempotency record. -/
theorem plain_recordless {q : Call schema} (h : plain q) : recordless q := by
  cases q with
  | sql s => cases s <;> first | exact trivial | exact h
  | begin | commit | rollback | ask => exact trivial

/-- A plain call inserts no event. -/
theorem plain_insertsEvent {q : Call schema} (h : plain q) : ¬ insertsEvent q := by
  cases q with
  | sql s => cases s <;> first | exact h.elim | simp [insertsEvent, insertion?]
  | begin | commit | rollback | ask => simp [insertsEvent, insertion?]

/-- A call that writes no record is not refused for one. -/
theorem recordless_taken {hash : String} {q : Call schema} (h : recordless q) (r : q.Answer) :
    ¬ recordTaken hash q r := by
  rintro ⟨hne, ht⟩
  cases q with
  | sql s =>
    cases s with
    | insertEvent => exact hne rfl
    | insertRecord | selectActiveRecord => exact h
    | _ => exact absurd ht (by simp [keyTaken])
  | begin | commit | rollback | ask => exact absurd ht (by simp [keyTaken])

variable {state : AppState} {ε ε' α : Type} {P : Call schema → Prop}

/-! ## Plain programs -/

theorem only_mapErr {f : ε → ε'} {prog : Program schema ε α} (h : Only P prog.run) :
    Only P (mapErr f prog).run := by
  refine only_bind (fun r => ?_) h
  exact trivial

/-- Access to the chain reads, locks and claims rows of `chains` only. -/
theorem only_ensureChainAccessInTx {account c : Uuid} :
    Only plain (ensureChainAccessInTx account c).run := by
  refine only_seq (only_seq (only_sql trivial) fun answer => ?_) fun owner => ?_
  · cases answer with
    | some owner => exact trivial
    | none =>
      refine only_seq (only_sql trivial) fun answer => ?_
      cases answer with
      | some owner => exact trivial
      | none => exact trivial
  · cases owner with
    | some owner => exact only_require
    | none => exact only_sql trivial

theorem only_eventIdOrNew {eventId : Option Uuid} : Only plain (eventIdOrNew eventId).run := by
  cases eventId with
  | none => exact only_ask trivial
  | some id => exact trivial

/-- The plan of an event only reads. -/
theorem only_planNextEvent {c : Uuid} {eventId : Option Uuid} :
    Only plain (planNextEvent c eventId).run :=
  only_seq (only_sql trivial) fun _ => only_seq (only_sql trivial) fun _ =>
    only_seq only_eventIdOrNew fun _ => trivial

/-- The quotas read and lock the usage row. -/
theorem only_reserveUsage {account : Uuid} : Only plain (reserveUsage account).run :=
  only_seq (only_sql trivial) fun _ => only_seq (only_sql trivial) fun _ =>
    only_seq (only_sql trivial) fun _ => only_seq only_require fun _ =>
      only_seq only_require fun _ => only_require

/-- The signature is an update of the event that is there. -/
theorem only_signEvent {c eventId : Uuid} {sequence : Int64} :
    Only plain (signEvent state c eventId sequence).run :=
  only_seq (only_seq (only_sql trivial) fun _ => trivial) fun _ =>
    only_seq (only_sql trivial) fun _ => trivial

/-- After the commit the service asks for a timestamp and stores the token. -/
theorem only_postCommitTsa {c eventId : Uuid} : Only plain (postCommitTsa state c eventId) := by
  refine only_bind (fun root? => ?_) (only_bind (fun answer => ?_) (only_call trivial))
  · cases root? with
    | none => exact trivial
    | some root =>
      change Only plain (stampChain c root eventId)
      unfold stampChain
      cases decodeArray 32 root with
      | none => exact trivial
      | some hash =>
        refine only_bind (fun token? => ?_) (only_call trivial)
        cases token? with
        | none => exact trivial
        | some token =>
          refine only_bind (fun _ => ?_) (only_call trivial)
          exact trivial
  · cases answer with
    | ok events => exact trivial
    | error err => exact trivial

theorem only_publish {eventId : Uuid} {fileHash tsaClass : String} :
    Only plain (publish eventId fileHash tsaClass) := by
  refine only_bind (fun _ => ?_) (only_call trivial)
  exact trivial

theorem only_publishV1 {status : ProofStatus} {eventId : Uuid} {fileHash tsaClass : String} :
    Only plain (publishV1 status eventId fileHash tsaClass) := by
  unfold publishV1
  split_ifs
  · exact only_publish
  · exact trivial

/-- What `submit_event` does behind its commit. -/
theorem only_submitEventAfter {account : Uuid} {req : SubmitEventRequest} {eventId : Uuid}
    {sequence : Int64} {snapshot : ProofSnapshot} :
    Only plain (submitEventAfter state account req eventId sequence snapshot).run := by
  refine only_seq ?_ fun _ => only_seq (only_lift only_postCommitTsa) fun _ =>
    only_seq (only_sql trivial) fun _ => only_seq (only_sql trivial) fun _ => trivial
  unfold publishLegacy
  split_ifs
  · exact only_seq (only_sql trivial) fun _ => only_lift only_publish
  · exact trivial

theorem only_identityFields {account : Uuid} {identity : Option V1IdentitySignature}
    {hash : String} : Only plain (identityFields state account identity hash).run := by
  cases identity with
  | none => exact trivial
  | some identity =>
    refine only_seq (only_seq (only_sql trivial) fun _ => only_require) fun _ =>
      only_seq (only_mapErr (only_seq (only_sql trivial) fun key? => ?_)) fun _ => trivial
    cases key? with
    | none => exact trivial
    | some key => exact trivial

/-! ## One event -/

/-- `insert_event_in_tx` inserts one event. -/
theorem once_insertEventInTx {account : Uuid} {req : SubmitEventRequest} :
    Once insertsEvent (insertEventInTx account req).run := by
  have hplain : ∀ {β : Type} {prog : Program schema LedgerError β}, Only plain prog.run →
      Only (fun q => ¬ insertsEvent q) prog.run := fun h => h.mono fun _ => plain_insertsEvent
  refine once_seq_of_only (hplain only_reserveUsage) fun _ => once_seq_of_only
    (hplain (only_sql trivial)) fun _ => once_seq_of_only (hplain (only_sql trivial)) fun _ =>
      once_seq_of_only (hplain only_eventIdOrNew) fun _ => once_seq once_sql fun _ => hplain ?_
  exact only_seq (only_sql trivial) fun _ => only_seq (only_sql trivial) fun _ => trivial

/-- The insertion of an event writes no record. -/
theorem recordless_insertEventInTx {account : Uuid} {req : SubmitEventRequest} :
    Only recordless (insertEventInTx account req).run := by
  have hplain : ∀ {β : Type} {prog : Program schema LedgerError β}, Only plain prog.run →
      Only recordless prog.run := fun h => h.mono fun _ => plain_recordless
  exact only_seq (hplain only_reserveUsage) fun _ => only_seq (only_sql trivial) fun _ =>
    only_seq (only_sql trivial) fun _ => only_seq (hplain only_eventIdOrNew) fun _ =>
      only_seq (only_sql trivial) fun _ => only_seq (only_sql trivial) fun _ =>
        only_seq (only_sql trivial) fun _ => trivial

/-- A plain program inserts no event. -/
theorem eventless {prog : Program schema ε α} (h : Only plain prog.run) :
    Only (fun q => ¬ insertsEvent q) prog.run := h.mono fun _ => plain_insertsEvent

theorem once_mapErr {f : ε → ε'} {prog : Program schema ε α} (h : Once insertsEvent prog.run) :
    Once insertsEvent (mapErr f prog).run := by
  refine once_bind (fun r => ?_) h
  exact trivial

/-- `submit_event` inserts one event at most: it is found by its key, or inserted. -/
theorem once_submitEvent {account : Uuid} {req : SubmitEventRequest} :
    Once insertsEvent (submitEvent state account req).run := by
  refine once_seq_of_only (eventless (only_attempt (only_call trivial))) fun _ =>
    once_seq (once_orRollback ?_ fun h => absurd h (by simp [insertsEvent, insertion?]))
      fun body => ?_
  · refine once_seq_of_only (eventless only_ensureChainAccessInTx) fun _ =>
      once_seq_of_only (eventless (only_sql trivial)) fun found => ?_
    cases found with
    | some existing =>
      exact once_of_only (eventless (only_seq (only_sql trivial) fun _ => trivial))
    | none =>
      exact once_seq once_insertEventInTx fun _ =>
        eventless (only_seq only_signEvent fun _ => trivial)
  · cases body with
    | inl response =>
      exact eventless (only_seq (only_lift (only_call trivial)) fun _ => trivial)
    | inr r =>
      exact eventless (only_seq (only_attempt (only_call trivial)) fun _ =>
        only_seq only_submitEventAfter fun _ => trivial)

/-- So does the transaction of a v1 request. -/
theorem once_insertV1InTx {account : Uuid} {key : String} {body : V1SubmitEventRequest}
    {trustLevel fileHash hash : String} :
    Once insertsEvent (insertV1InTx state account key body trustLevel fileHash hash).run := by
  refine once_seq_of_only (eventless (only_mapErr only_ensureChainAccessInTx)) fun _ =>
    once_seq_of_only (eventless (only_mapErr only_planNextEvent)) fun _ =>
      once_seq_of_only (eventless only_identityFields) fun _ =>
        once_seq (once_mapErr once_insertEventInTx) fun _ => ?_
  refine only_seq (eventless (only_mapErr only_signEvent)) fun _ =>
    only_seq (eventless (only_ask trivial)) fun _ => only_seq (eventless (only_ask trivial))
      fun _ => only_seq (eventless (only_ask trivial)) fun _ => only_seq (only_sql ?_) fun _ => trivial
  simp [insertsEvent, insertion?]

/-- And the v1 request: its transaction replays a response, or inserts. -/
theorem once_submitV1Event {account : Uuid} {key : String} {body : V1SubmitEventRequest} :
    Once insertsEvent (submitV1Event state account key body).run := by
  refine once_seq_of_only only_require fun _ =>
    once_seq_of_only (eventless (only_sql trivial)) fun _ =>
      once_seq_of_only (eventless (only_attempt (only_call trivial))) fun _ =>
        once_seq (once_orRollback ?_ fun h => absurd h (by simp [insertsEvent, insertion?]))
          fun body => ?_
  · refine once_seq_of_only (only_sql (by simp [insertsEvent, insertion?])) fun found => ?_
    cases found with
    | some record => exact once_of_only (only_seq only_require fun _ => trivial)
    | none => exact once_seq once_insertV1InTx fun _ => trivial
  · cases body with
    | inl response =>
      exact eventless (only_seq (only_attempt (only_call trivial)) fun _ => trivial)
    | inr r =>
      exact eventless (only_seq (only_attempt (only_call trivial)) fun _ => only_seq
        (only_lift only_publishV1) fun _ => only_seq (only_lift only_postCommitTsa) fun _ => trivial)

/-- **A request inserts one event at most.** -/
theorem once_run (state : AppState) (request : Request) :
    Once insertsEvent (request.run state) := by
  cases request with
  | createChain account =>
    refine once_bind_of_only (fun r => ?_) (only_seq (only_ask ?_) fun _ => only_seq (only_sql ?_)
      fun _ => trivial)
    · exact trivial
    all_goals simp [insertsEvent, insertion?]
  | submitEvent account req =>
    refine once_bind (fun r => ?_) (once_seq_of_only only_require fun _ => once_submitEvent)
    exact trivial
  | submitV1Event account key body =>
    refine once_bind (fun r => ?_) once_submitV1Event
    exact trivial

/-! ## Refusals -/

/-- The hash of the body of a v1 request, as its record has it. -/
def Request.hash (state : AppState) : Request → String
  | .submitV1Event _ _ body => requestHash state
    { body with fileHash := normalizedFileHash body.fileHash, identitySignature := none }
  | _ => ""

/-- A reply that reports a conflict of keys. -/
def Reply.conflict : Reply → Bool
  | .event (.error err) => err == .duplicateIdempotencyKey
  | .v1 (.error err) => err == .conflict
  | _ => false

/-- A plain program writes no record. -/
theorem recordless_of_plain {prog : Program schema ε α} (h : Only plain prog.run) :
    Only recordless prog.run := h.mono fun _ => plain_recordless

/-- The legacy path knows no idempotency records. -/
theorem recordless_submitEvent {account : Uuid} {req : SubmitEventRequest} :
    Only recordless (submitEvent state account req).run := by
  refine only_seq (only_attempt (only_call trivial)) fun _ =>
    only_seq (only_orRollback ?_ trivial) fun body => ?_
  · refine only_seq (recordless_of_plain only_ensureChainAccessInTx) fun _ =>
      only_seq (only_sql trivial) fun found => ?_
    cases found with
    | some existing => exact only_seq (only_sql trivial) fun _ => trivial
    | none =>
      exact only_seq recordless_insertEventInTx fun _ =>
        recordless_of_plain (only_seq only_signEvent fun _ => trivial)
  · cases body with
    | inl response => exact only_seq (only_lift (only_call trivial)) fun _ => trivial
    | inr r =>
      exact recordless_of_plain (only_seq (only_attempt (only_call trivial)) fun _ =>
        only_seq only_submitEventAfter fun _ => trivial)

/-- Where no record is touched, no record refuses. -/
theorem leads_of_recordless {hash : String} {C : α → Prop} {prog : Action α}
    (h : Only recordless prog) : Leads (recordTaken hash) C prog :=
  leads_of_only (h.mono fun _ hq r => recordless_taken hq r)

/-- A record that is refused ends the transaction with a conflict: nothing follows its `INSERT`. -/
theorem leads_insertV1InTx {account : Uuid} {key : String} {body : V1SubmitEventRequest}
    {trustLevel fileHash hash hash' : String} :
    Leads (recordTaken hash) (Fails (· = ApiError.conflict))
      (insertV1InTx state account key body trustLevel fileHash hash').run := by
  have hplain : ∀ {β : Type} {prog : Program schema ApiError β}, Only plain prog.run →
      Leads (recordTaken hash) (Fails (· = ApiError.conflict)) prog.run := fun h =>
    leads_of_recordless (recordless_of_plain h)
  refine leads_seq (hplain (only_mapErr only_ensureChainAccessInTx)) fun _ =>
    leads_seq (hplain (only_mapErr only_planNextEvent)) fun _ =>
      leads_seq (hplain only_identityFields) fun _ => leads_seq
        (leads_of_recordless (only_mapErr recordless_insertEventInTx)) fun _ =>
          leads_seq (hplain (only_mapErr only_signEvent)) fun _ => leads_seq
            (hplain (only_ask trivial)) fun _ => leads_seq (hplain (only_ask trivial)) fun _ =>
              leads_seq (hplain (only_ask trivial)) fun _ => leads_seq (leads_sql ?_ ?_)
                fun _ => trivial
  · rintro err ⟨-, ht⟩
    exact if_pos (by simpa [keyTaken] using ht)
  · rintro _ ⟨-, ht⟩
    exact absurd ht (by simp [keyTaken])

/-- The same with the lookup in front, where a stored hash that differs is a conflict too. -/
theorem leads_submitV1InTx {account : Uuid} {key : String} {body : V1SubmitEventRequest}
    {trustLevel fileHash hash : String} :
    Leads (recordTaken hash) (Fails (· = ApiError.conflict))
      (submitV1InTx state account key body trustLevel fileHash hash).run := by
  refine leads_sql_seq ?_ (fun found ht => ?_) fun found => ?_
  · rintro err ⟨-, ht⟩
    exact absurd ht (by simp [keyTaken])
  · obtain ⟨-, ht⟩ := ht
    cases found with
    | none => exact absurd ht (by simp [keyTaken])
    | some record =>
      have hne : (IdempotencyRecord.requestHash record == hash) = false := by
        simpa [keyTaken] using ht
      refine leaves_seq ?_
      rw [hne]
      exact leaves_throw rfl
  · cases found with
    | some record =>
      exact leads_of_recordless (only_seq only_require fun _ => trivial)
    | none => exact leads_seq leads_insertV1InTx fun _ => trivial

/-- **A refusal by a record leads to a conflict.** -/
theorem leads_submitV1Event {account : Uuid} {key : String} {body : V1SubmitEventRequest} :
    Leads (recordTaken (Request.hash state (.submitV1Event account key body)))
      (Fails (· = ApiError.conflict)) (submitV1Event state account key body).run := by
  have hplain : ∀ {β : Type} {prog : Program schema ApiError β}, Only plain prog.run →
      Leads (recordTaken (Request.hash state (.submitV1Event account key body)))
        (Fails (· = ApiError.conflict)) prog.run := fun h =>
    leads_of_recordless (recordless_of_plain h)
  refine leads_seq (hplain only_require) fun _ => leads_seq (hplain (only_sql trivial)) fun _ =>
    leads_seq (hplain (only_attempt (only_call trivial))) fun _ =>
      leads_seq (leads_orRollback leads_submitV1InTx ?_) fun r => ?_
  · rintro _ ⟨-, ht⟩
    exact absurd ht (by simp [keyTaken])
  · cases r with
    | inl response =>
      exact hplain (only_seq (only_attempt (only_call trivial)) fun _ => trivial)
    | inr r =>
      exact hplain (only_seq (only_attempt (only_call trivial)) fun _ => only_seq
        (only_lift only_publishV1) fun _ => only_seq (only_lift only_postCommitTsa) fun _ => trivial)

/-- **Every request** ends in a conflict once its record is refused. -/
theorem leads_run (state : AppState) (request : Request) :
    Leads (recordTaken (request.hash state)) (fun reply => reply.conflict = true)
      (request.run state) := by
  cases request with
  | createChain account =>
    refine leads_of_recordless (only_bind (fun r => ?_) (recordless_of_plain (only_seq
      (only_ask trivial) fun _ => only_seq (only_sql trivial) fun _ => trivial)))
    exact trivial
  | submitEvent account req =>
    refine leads_of_recordless (only_bind (fun r => ?_) (only_seq only_require fun _ =>
      recordless_submitEvent))
    exact trivial
  | submitV1Event account key body =>
    refine leads_bind ?_ (fun r => ?_) leads_submitV1Event
    · rintro r ⟨err, rfl, rfl⟩
      exact rfl
    · exact trivial

/-! ## What the transaction of an event sees -/

/-- No event is inserted under a key that its chain already has. -/
def KeyUnused (_ : Nat) (q : Call schema) (g : Shared schema) : Prop :=
  ∀ e ∈ insertion? q, ∀ e' ∈ Db.eventsOf g.db e.chainId, e'.idempotencyKey ≠ e.idempotencyKey

instance (p : Nat) (q : Call schema) (g : Shared schema) : Decidable (KeyUnused p q g) :=
  inferInstanceAs (Decidable (∀ e ∈ insertion? q, ∀ e' ∈ Db.eventsOf g.db e.chainId,
    e'.idempotencyKey ≠ e.idempotencyKey))

/-- A log without events. -/
def Eventless (log : List Write) : Prop := ∀ e, .insertEvent e ∉ log

/-- The answers of a statement write no event. -/
def WritesNoEvent {α : Type} (o : Outcome α) : Prop :=
  ∀ a ks ws, o = some (.ok (a, ks, ws)) → Eventless ws

section

variable {waits : Key → Bool}

/-- A read writes no event. -/
theorem writesNoEvent_reads (a : α) : WritesNoEvent (reads a) := by
  intro b ks ws h e he
  rw [(reads_ok h).2.2] at he
  exact absurd he (by simp)

/-- An error writes none either. -/
theorem writesNoEvent_error (e : DbError) : WritesNoEvent (α := α) (some (.error e)) :=
  fun _ _ _ h => absurd h (by simp)

/-- A lock writes what it is given. -/
theorem writesNoEvent_locking {k : Key} {a : α} {ws : List Write} (h : Eventless ws) :
    WritesNoEvent (locking waits k a ws) := by
  intro b ks ws' hl
  rw [(locking_ok hl).2.2.2]
  exact h

/-- So does a claim. -/
theorem writesNoEvent_claiming {taken : List (Key × String × Bool)} {ks : List Key} {a : α}
    {ws : List Write} (h : Eventless ws) : WritesNoEvent (claiming waits taken ks a ws) := by
  intro b ks' ws' hl
  rw [(claiming_ok hl).2.2.2.2]
  exact h

end

/-- Only the insertion of an event writes one. -/
theorem effect_eventless {s : Sql} (hs : ¬ insertsEvent (.sql s)) (waits : Key → Bool) (ch : Choice)
    (now : Int) (db : Db) : WritesNoEvent (s.effect waits ch now db) := by
  cases s with
  | insertEvent e => exact absurd rfl hs
  | _ =>
    simp only [Sql.effect]
    repeat' split
    all_goals
      first
      | exact writesNoEvent_reads _
      | exact writesNoEvent_error _
      | exact writesNoEvent_locking (by simp [Eventless])
      | exact writesNoEvent_claiming (by simp [Eventless])

/-- Without events the keys of the events stay. -/
theorem Eventless.keys {log : List Write} (h : Eventless log) (db : Db) :
    (replay (S := schema) log db).events.map (fun e => (e.chainId, e.idempotencyKey)) =
      db.events.map fun e => (e.chainId, e.idempotencyKey) := by
  induction log generalizing db with
  | nil => rfl
  | cons w log ih =>
    refine (ih (fun e he => h e (List.mem_cons_of_mem _ he)) (w.apply db)).trans ?_
    cases w with
    | insertEvent e => exact absurd List.mem_cons_self (h e)
    | setSignature c id s =>
      change (db.events.map (Write.sign c id s)).map _ = _
      rw [List.map_map]
      refine List.map_congr_left fun e _ => ?_
      simp only [Function.comp_apply, Write.sign]
      split_ifs <;> rfl
    | insertChain | setChainAccount | setHead | insertUsage | bumpUsage | insertRecord
      | insertTsaToken => rfl

/-- `uniq_idem` is violated by an event of the chain. -/
theorem insertEvent_taken {e : EventRecord} {waits : Key → Bool} (ch : Choice) {now : Int} {db : Db}
    (h : (Sql.insertEvent e).effect waits ch now db =
      some (.error (.database (some "uniq_idem")))) :
    (e.chainId, e.idempotencyKey) ∈ db.events.map fun e => (e.chainId, e.idempotencyKey) := by
  simp only [Sql.effect, claiming, violates] at h
  split_ifs at h with _ _ _ hkey
  · exact absurd h (by simp)
  · obtain ⟨e', he', hk⟩ := List.any_eq_true.mp hkey
    obtain ⟨hmem, hc⟩ := List.mem_filter.mp he'
    refine List.mem_map.mpr ⟨e', hmem, ?_⟩
    rw [beq_iff_eq.mp hc, beq_iff_eq.mp hk]
  · exact absurd h (by simp)
  · exact absurd h (by simp)

/-- A program that inserts one event at most, and none once its transaction has one. -/
def OneEvent (prog : Action Reply) (l : Local schema) : Prop :=
  Once insertsEvent prog ∧
    ∀ tx, l = some tx → Eventless tx.log ∨ Only (fun q => ¬ insertsEvent q) prog

/-- **One step** of a transaction that may insert one event: it has inserted it, or may still do so.
-/
theorem oneEvent_step {p : Nat} (ch : Choice) (q : Call schema) (k : q.Answer → Action Reply)
    (r : q.Answer) (g g' : Shared schema) (l l' : Local schema) (h : OneEvent (.stmt q k) l)
    (he : (system schema).exec p ch q g l = some (r, g', l')) : OneEvent (k r) l' := by
  obtain ⟨honce, hlog⟩ := h
  refine ⟨(honce r).2, ?_⟩
  rintro tx' rfl
  by_cases hq : insertsEvent q
  · exact Or.inr ((honce r).1 hq)
  · rcases exec_log he with hnil | ⟨tx, rfl, hsame⟩
    · rw [hnil]
      exact Or.inl fun _ => List.not_mem_nil
    · refine (hlog tx rfl).imp (fun hnone => ?_) fun honly => honly.2 r
      rcases hsame with hsame | ⟨s, a, ks, ws, rfl, heff, hsame⟩
      · rw [hsame]
        exact hnone
      · rw [hsame]
        intro e hmem
        rcases List.mem_append.mp hmem with hmem | hmem
        · exact hnone e hmem
        · exact effect_eventless hq (g.waits p) ch tx.now (view tx g) a ks ws heff e hmem

/-! ## The races -/

/-- The step refuses the request for its key. -/
def keyRefused (state : AppState) (requests : Nat → Request) (p : Nat) (ch : Choice)
    (y : LedgerConfig) : Bool :=
  match y.procs p with
  | (.ret _, _) => false
  | (.stmt q _, l) =>
    match (system schema).exec p ch q y.shared l with
    | none => false
    | some (r, _, _) => keyTaken ((requests p).hash state) q r

/-- An event is refused only under a key that its chain already has. -/
theorem not_eventTaken {p : Nat} {ch : Choice} {q : Call schema} {k : q.Answer → Action Reply}
    {r : q.Answer} {g g' : Shared schema} {l l' : Local schema} {hash : String}
    (hshape : OneEvent (.stmt q k) l) (hok : KeyUnused p q g)
    (he : (system schema).exec p ch q g l = some (r, g', l')) (hq : insertsEvent q) :
    keyTaken hash q r = false := by
  obtain ⟨e, hins⟩ := Option.isSome_iff_exists.mp hq
  obtain rfl : q = .sql (.insertEvent e) := by
    unfold insertion? at hins
    split at hins
    · rw [Option.some.inj hins]
    · exact absurd hins (by simp)
  cases r with
  | ok a => rfl
  | error err =>
    by_contra ht
    obtain rfl : err = .database (some "uniq_idem") := by simpa [keyTaken] using ht
    have he' : exec (S := schema) p ch (Call.sql (Sql.insertEvent e)) g l =
        some (.error (.database (some "uniq_idem")), g', l') := he
    rcases exec_error rfl he' with herr | ⟨tx, rfl, heff⟩
    · exact absurd herr (by simp)
    · have hlog : Eventless tx.log :=
        (hshape.2 tx rfl).resolve_right fun honly => honly.1 hq
      have hmem := insertEvent_taken ch heff
      rw [view, hlog.keys] at hmem
      obtain ⟨e', he', hkey⟩ := List.mem_map.mp hmem
      obtain ⟨hc, hk⟩ := Prod.mk.inj hkey
      refine hok e rfl e' (List.mem_filter.mpr ⟨he', ?_⟩) hk
      simpa using hc

/-- **A lost race is a conflict**, in every run where no event is inserted under a key that its chain
already has. -/
theorem lost_race_is_conflict (state : AppState) (requests : Nat → Request) (db₀ : Db)
    (p : Nat) (ch : Choice) (y y' z : LedgerConfig)
    (hy : Reach (system schema) KeyUnused (start state requests db₀) y)
    (hstep : y.step (system schema) KeyUnused p ch = some y')
    (hrefused : keyRefused state requests p ch y = true)
    (hz : Reach (system schema) KeyUnused y' z) (reply : Reply)
    (hreply : (z.procs p).1.result = some reply) : reply.conflict = true := by
  have hshape : OneEvent (y.procs p).1 (y.procs p).2 :=
    reach_shape (fun ch q k r g g' l l' => oneEvent_step ch q k r g g' l l') hy
      ⟨once_run state (requests p), fun _ h => absurd h (by simp [start])⟩
  have hleads : Leads (recordTaken ((requests p).hash state)) (fun reply => reply.conflict = true)
      (y.procs p).1 :=
    reach_shape (Φ := fun prog _ => Leads (recordTaken ((requests p).hash state))
      (fun reply : Reply => reply.conflict = true) prog) (fun _ _ _ r _ _ _ _ h _ => (h r).2) hy
        (leads_run state (requests p))
  unfold keyRefused at hrefused
  unfold Config.step at hstep
  rcases hp : y.procs p with ⟨prog, l⟩
  rw [hp] at hshape hleads hrefused hstep
  cases prog with
  | ret a => exact absurd hrefused (by simp)
  | stmt q k =>
    simp only at hrefused hstep
    split_ifs at hstep with hok
    cases he : (system schema).exec p ch q y.shared l with
    | none => rw [he] at hstep; exact absurd hstep (by simp)
    | some out =>
      obtain ⟨r, g', l'⟩ := out
      rw [he] at hstep hrefused
      change keyTaken ((requests p).hash state) q r = true at hrefused
      obtain rfl := Option.some.inj hstep
      have hq : ¬ insertsEvent q := fun hq =>
        absurd (not_eventTaken hshape hok he hq) (by rw [hrefused]; simp)
      have hleaves : Leaves (fun reply => reply.conflict = true) (z.procs p).1 :=
        reach_shape (Φ := fun prog _ => Leaves (fun reply : Reply => reply.conflict = true) prog)
          (fun _ _ _ r _ _ _ _ h _ => h r) hz (by simpa using (hleads r).1 ⟨hq, hrefused⟩)
      exact hleaves.result hreply

/-- The moment before the second request inserts its record. -/
def sampleLoser : List (Nat × Choice) :=
  sampleSteps 0 3 20 none ++ sampleSteps 1 3 21 none ++ sampleSteps 0 19 20 none ++
    sampleSteps 1 17 21 none

/-- The second request loses its record to the first. -/
theorem lost_race_is_conflict_sampleRun :
    ∃ (y z : LedgerConfig) (reply : Reply), keyRefused sampleState sampleV1Requests 1
        ⟨false, 0, Uuid.small 21, none, true⟩ y = true ∧
      (z.procs 1).1.result = some reply ∧ reply.conflict = true := by
  have hrun : (((start sampleState sampleV1Requests (Db.empty sampleCapabilities [])).run
      (system schema) KeyUnused sampleLoser).bind fun y =>
        (y.step (system schema) KeyUnused 1 ⟨false, 0, Uuid.small 21, none, true⟩).bind fun y' =>
          (y'.run (system schema) KeyUnused (sampleSteps 1 1 21 none)).map fun z =>
            (keyRefused sampleState sampleV1Requests 1 ⟨false, 0, Uuid.small 21, none, true⟩ y,
              (z.procs 1).1.result.isSome)) = some (true, true) := by decide +kernel
  obtain ⟨y, hy, hrest⟩ := Option.bind_eq_some_iff.mp hrun
  obtain ⟨y', hy', hrest⟩ := Option.bind_eq_some_iff.mp hrest
  obtain ⟨z, hz, hfacts⟩ := Reach.exists_of_run hrest
  obtain ⟨hrefused, hsome⟩ := Prod.mk.inj hfacts
  obtain ⟨reply, hreply⟩ := Option.isSome_iff_exists.mp hsome
  exact ⟨y, z, reply, hrefused, hreply, lost_race_is_conflict sampleState sampleV1Requests _ 1 _ y
    y' z (.of_run hy) hy' hrefused hz reply hreply⟩

/-- Two requests under one key, for one chain. -/
def sampleTwins (_ : Nat) : Request := sampleV1Requests 0

/-- A reply that reports an internal error. -/
def Reply.isInternal : Reply → Bool
  | .v1 (.error err) => err == .internal
  | _ => false

/-- **On one chain the race ends in an internal error.** -/
theorem lost_race_is_internal :
    ∃ (y y' z : LedgerConfig) (ch : Choice) (reply : Reply),
      Reach (system schema) (fun _ _ _ => True)
        (start sampleState sampleTwins (Db.empty sampleCapabilities [])) y ∧
      y.step (system schema) (fun _ _ _ => True) 1 ch = some y' ∧
      keyRefused sampleState sampleTwins 1 ch y = true ∧
      Reach (system schema) (fun _ _ _ => True) y' z ∧
      (z.procs 1).1.result = some reply ∧ reply.isInternal = true ∧ reply.conflict = false := by
  have hrun : (((start sampleState sampleTwins (Db.empty sampleCapabilities [])).run
      (system schema) (fun _ _ _ => True) (sampleSteps 0 3 20 none ++ sampleSteps 1 3 21 none ++
        sampleSteps 0 19 20 none ++ sampleSteps 1 10 21 none)).bind fun y =>
        (y.step (system schema) (fun _ _ _ => True) 1
          ⟨false, 0, Uuid.small 21, none, true⟩).bind fun y' =>
          (y'.run (system schema) (fun _ _ _ => True) (sampleSteps 1 1 21 none)).map fun z =>
            (keyRefused sampleState sampleTwins 1 ⟨false, 0, Uuid.small 21, none, true⟩ y,
              (z.procs 1).1.result.map fun reply => (reply.isInternal, reply.conflict))) =
                some (true, some (true, false)) := by decide +kernel
  obtain ⟨y, hy, hrest⟩ := Option.bind_eq_some_iff.mp hrun
  obtain ⟨y', hy', hrest⟩ := Option.bind_eq_some_iff.mp hrest
  obtain ⟨z, hz, hfacts⟩ := Reach.exists_of_run hrest
  obtain ⟨hrefused, hfacts⟩ := Prod.mk.inj hfacts
  obtain ⟨reply, hreply, hfacts⟩ := Option.map_eq_some_iff.mp hfacts
  obtain ⟨hinternal, hconflict⟩ := Prod.mk.inj hfacts
  exact ⟨y, y', z, _, reply, .of_run hy, hy', hrefused, hz, hreply, hinternal, hconflict⟩

end EvidentLedger.Ledger
