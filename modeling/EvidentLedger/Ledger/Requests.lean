import EvidentLedger.Ledger.PostCommit

/-!
# Requests in any interleaving

The contracts of the three requests, whatever the others do between their statements: what a request
commits is one of the commits of `Commit`, and what its reply says about the history.

* `LegacyReply`, `V1Reply`: a reply is from an event or a record that was there, or from the event
  that the request has just committed.
* `spec_submitEvent`, `spec_submitV1Event`, `spec_createChain`: the requests meet them. A v1 request
  that returns an error has committed nothing; a legacy request may fail late (`Late`).
* **`ledger_reach`**: in every state reached by any number of requests from any tables, the history
  is one of commits, and every reply given so far meets its contract.
-/

namespace EvidentLedger.Ledger

open Lib.Interleave Lib.Transaction

variable {x : Setting} {p : Nat} {now : Int} {ks : List Key} {F : Db → Prop} {log : List Write}
  {account : Uuid} {req : SubmitEventRequest} {ε α : Type}

/-! ## Transactions -/

/-- **`begin`**: nothing known, nothing written. -/
theorem spec_begun {f : DbError → ε} :
    x.Spec p (Outside (Fresh p)) (beginTx f)
      (fun _ l g => ∃ now, Under p now [] (fun _ => True) [] l g) fun _ => Fresh p :=
  spec_post (spec_begin (S := schema) (fun _ => steady_fresh) fun _ h => h)
    (fun _ _ _ ⟨now, _, h⟩ => ⟨now, h⟩) fun _ _ h => h

/-- The body of a transaction that has committed nothing when it fails. -/
theorem spec_body {Pre : Local schema → Shared schema → Prop}
    {Post : α → Local schema → Shared schema → Prop} {prog : Program schema ε α}
    (hpost : ∀ a, Stable (discipline (S := schema) x.Inv) p (Post a))
    (h : x.Spec p Pre prog Post fun _ => Fresh p) :
    x.Spec p Pre (orRollback prog) Post fun _ => Fresh p :=
  spec_orRollback hpost (fun _ => steady_fresh) (fun _ => steady_fresh) (fun _ _ h => h) h

/-- A program with its errors renamed. -/
theorem spec_mapErr {ε' : Type} {f : ε → ε'} {Pre : Local schema → Shared schema → Prop}
    {Post : α → Local schema → Shared schema → Prop} {E : ε' → Shared schema → Prop}
    {prog : Program schema ε α}
    (hpost : ∀ a, Stable (discipline (S := schema) x.Inv) p (Post a))
    (hE : ∀ e, Steady x.Inv p (E e)) (h : x.Spec p Pre prog Post fun e => E (f e)) :
    x.Spec p Pre (mapErr f prog) Post E := by
  refine triple_bind h fun r => ?_
  cases r with
  | ok a => exact triple_ret (hpost a) fun _ _ hp _ => hp
  | error e => exact triple_ret (stable_outside (hE (f e))) fun _ _ hp _ => hp

/-- A fact that does not speak of the tables. -/
theorem under_const {P : Prop} {l : Local schema} {g : Shared schema}
    (h : Under p now ks (fun db => F db ∧ P) log l g) : P ∧ Under p now ks F log l g :=
  ⟨h.fact.2, under_mono (fun _ hf => hf.1) h⟩

/-! ## `POST /events` -/

variable (x p req) in
/-- An event that was there with this key when the request looked. -/
def Existing (e : EventRecord) (db : Db) : Prop :=
  e ∈ db.eventsOf req.chainId ∧ e.idempotencyKey = req.idempotencyKey ∧
    ∃ g, x.ok p (.sql (.selectByIdempotencyKey req.chainId req.idempotencyKey)) g ∧
      Db.eventsOf g.db req.chainId = db.eventsOf req.chainId ∧
      Db.head? g.db req.chainId = db.head? req.chainId

variable (x p account req) in
/-- **The reply of `submit_event`**: an event that was there, with the head of its chain at that moment,
or the request's own, just committed. -/
def LegacyReply (h : History schema) : SubmitResponse → Prop
  | .cached eventId chainId head => writesOf p h = [] ∧ chainId = req.chainId ∧
      ∃ h' e, h' <+: h ∧ Existing x p req e (tables x.db₀ h') ∧ e.eventId = eventId ∧
        head = (tables x.db₀ h').head? req.chainId
  | .committed response => Answered x p account req h response

variable (p) in
/-- Nothing is committed, or the request failed late. -/
def LegacyError (x : Setting) (err : LedgerError) (h : History schema) : Prop :=
  writesOf p h = [] ∨ Late x p ∧ err = .databaseError .io

/-- What an error says stays true: it speaks of the request's own writes. -/
theorem steady_legacyError {err : LedgerError} :
    Steady x.Inv p fun g => LegacyError p x err g.history :=
  steady_or steady_fresh steady_const

/-- What a success says stays true: the history only grows. -/
theorem steady_legacyReply {response : SubmitResponse} :
    Steady x.Inv p fun g => LegacyReply x p account req g.history response := by
  cases response with
  | cached eventId chainId head =>
    refine steady_and steady_fresh (steady_and steady_const (steady_past (P := fun h =>
      ∃ h' e, h' <+: h ∧ Existing x p req e (tables x.db₀ h') ∧ e.eventId = eventId ∧
        head = (tables x.db₀ h').head? req.chainId) ?_))
    rintro h h' hp ⟨h₀, e, h0, rest⟩
    exact ⟨h₀, e, h0.trans hp, rest⟩
  | committed response => exact steady_answered

/-- An event that was found by its key stays, while the chain is locked and after. -/
theorem framed_existing {e : EventRecord} :
    Framed (S := schema) [Key.chain req.chainId] fun db => Existing x p req e db :=
  framed_chain fun row? events => e ∈ events ∧ e.idempotencyKey = req.idempotencyKey ∧
    ∃ g, x.ok p (.sql (.selectByIdempotencyKey req.chainId req.idempotencyKey)) g ∧
      Db.eventsOf g.db req.chainId = events ∧
      Db.head? g.db req.chainId = row?.bind (·.headEventId)

variable (x p now account req) in
/-- A signed event before its commit, with what else its transaction wrote. -/
def SignedEvent (r : Uuid × Int64 × ProofSnapshot) (l : Local schema) (g : Shared schema) : Prop :=
  ∃ a : Addition, (a.event.chainId = req.chainId ∧ a.event.eventId = r.1) ∧
    Under p now a.keys
      (fun db => Adds x.ok x.db₀ p account req a db ∧ r.2.2 = a.snapshot x.state db)
      (a.unsigned ++ [.setSignature a.event.chainId a.event.eventId r.2.2.signature]) l g

/-- A signed event waits for its commit, under its keys. -/
theorem stable_signedEvent {r : Uuid × Int64 × ProofSnapshot} :
    Stable (discipline (S := schema) x.Inv) p (SignedEvent x p now account req r) :=
  stable_exists fun _ _ _ _ h hi hr hi' => ⟨h.1, stable_held
    (framed_adds.and (framed_snapshot (x := x) r.2.2)) _ _ _ h.2 hi hr hi'⟩

variable (x p now account req) in
/-- The end of the body of `submit_event`. -/
def LegacyBody : SubmitResponse ⊕ (Uuid × Int64 × ProofSnapshot) → Local schema →
    Shared schema → Prop
  | .inl response => fun l g => ∃ log e head, response = .cached e.eventId req.chainId head ∧
      Under p now [.chain req.chainId]
        (fun db => Existing x p req e db ∧ head = db.head? req.chainId) log l g
  | .inr r => SignedEvent x p now account req r

/-- So does whatever the transaction of `submit_event` has come to. -/
theorem stable_legacyBody (r : SubmitResponse ⊕ (Uuid × Int64 × ProofSnapshot)) :
    Stable (discipline (S := schema) x.Inv) p (LegacyBody x p now account req r) := by
  cases r with
  | inl response =>
    exact stable_exists fun _ => stable_exists fun _ => stable_exists fun head _ _ _ h hi hr hi' =>
      ⟨h.1, stable_held (framed_existing.and (framed_head List.mem_cons_self fun h => head = h))
        _ _ _ h.2 hi hr hi'⟩
  | inr r => exact stable_signedEvent

variable (x p now account req) in
/-- An inserted event before its signature. -/
def InsertedEvent (r : Uuid × Int64) (l : Local schema) (g : Shared schema) : Prop :=
  ∃ a : Addition, (a.event.chainId = req.chainId ∧ a.event.eventId = r.1 ∧
    a.event.sequence = r.2) ∧ Under p now a.keys
      (fun db => Adds x.ok x.db₀ p account req a db) a.unsigned l g

variable (req) in
/-- `insert_event_in_tx`, for the chain that was locked. -/
theorem spec_inserted {c : Uuid} (hc : req.chainId = c) {chainLog : List Write} :
    x.Spec p (Under p now [.chain c] (fun db => Access (db.chain? c) account c chainLog) chainLog)
      (insertEventInTx account req) (InsertedEvent x p now account req) fun _ => Fresh p := by
  subst hc
  exact spec_insertEventInTx

/-- An inserted event waits for its signature. -/
theorem stable_insertedEvent {r : Uuid × Int64} :
    Stable (discipline (S := schema) x.Inv) p (InsertedEvent x p now account req r) :=
  stable_exists fun _ _ _ _ h hi hr hi' => ⟨h.1, stable_held framed_adds _ _ _ h.2 hi hr hi'⟩

/-- `proof_snapshot_at_event` and `persist_event_signature` after `insert_event_in_tx`. -/
theorem spec_signInserted {r : Uuid × Int64} :
    x.Spec p (InsertedEvent x p now account req r) (signEvent x.state req.chainId r.1 r.2)
      (fun snapshot => SignedEvent x p now account req (r.1, r.2, snapshot))
      fun _ => Fresh p := by
  refine spec_exists fun a => spec_and fun ha => ?_
  obtain ⟨id, sequence⟩ := r
  obtain ⟨hc, rfl, rfl⟩ := ha
  rw [← hc]
  exact spec_post spec_signEvent (fun snapshot l g h => ⟨a, ⟨hc, rfl⟩, h⟩) fun _ _ h => h

/-- The event found by its key. -/
theorem spec_selectByIdempotencyKey {chainLog : List Write} :
    x.Spec p (Under p now [.chain req.chainId]
        (fun db => Access (db.chain? req.chainId) account req.chainId chainLog) chainLog)
      (query (.selectByIdempotencyKey req.chainId req.idempotencyKey))
      (fun found => Under p now [.chain req.chainId]
        (fun db => Access (db.chain? req.chainId) account req.chainId chainLog ∧
          ∀ r, found = some r → ∃ e, e.eventId = r.1 ∧ Existing x p req e db) chainLog)
      fun _ => Fresh p := by
  refine spec_read (s := .selectByIdempotencyKey req.chainId req.idempotencyKey)
    (G := fun (found : Option (Uuid × String)) db =>
      Access (db.chain? req.chainId) account req.chainId chainLog ∧
        ∀ r, found = some r → ∃ e, e.eventId = r.1 ∧ Existing x p req e db)
    rfl (framed_access chainLog) (fun found => (framed_access chainLog).and ?_) ?_
  · rintro db db' hs h r hr
    obtain ⟨e, he, hex⟩ := h r hr
    exact ⟨e, he, framed_existing db db' hs hex⟩
  · intro g ch found taken ws hf _ hq he
    obtain ⟨rfl, rfl⟩ := selectByIdempotencyKey_ok he
    rw [Db.eventsOf_of_events (replay_offEvents (fun w hw => (hf.keys w hw).2) g.db)]
    refine ⟨rfl, hf, fun r hr => ?_⟩
    obtain ⟨e, hfind, rfl⟩ := Option.map_eq_some_iff.mp hr
    exact ⟨e, rfl, List.mem_of_find?_eq_some hfind, by simpa using List.find?_some hfind, g, hq,
      rfl, rfl⟩

/-- **The transaction of `POST /events`**: the chain, the lookup by key, and the event with its
signature. -/
theorem spec_submitEventInTx :
    x.Spec p (Under p now [] (fun _ => True) []) (submitEventInTx x.state account req)
      (LegacyBody x p now account req) fun _ => Fresh p := by
  refine spec_bind (fun _ => steady_fresh) spec_ensureChainAccessInTx fun _ =>
    spec_exists fun chainLog => ?_
  refine spec_bind (fun _ => steady_fresh) spec_selectByIdempotencyKey fun found => ?_
  cases found with
  | some existing =>
    have hF : ∀ e, Framed (S := schema) [Key.chain req.chainId] fun db : Db =>
        Access (db.chain? req.chainId) account req.chainId chainLog ∧ Existing x p req e db :=
      fun e => (framed_access chainLog).and framed_existing
    refine spec_pre (P := fun l g => ∃ e, e.eventId = existing.1 ∧ Under p now
      [.chain req.chainId] (fun db => Access (db.chain? req.chainId) account req.chainId chainLog ∧
        Existing x p req e db) chainLog l g) ?_ (spec_exists fun e => spec_and fun he => ?_)
    · rintro l g ⟨tx, hl, ha, ho, h⟩ -
      obtain ⟨e, he, hex⟩ := h.fact.2 existing rfl
      exact ⟨e, he, tx, hl, ha, ho, h.fresh, h.now, h.log, h.locks, h.fact.1, hex⟩
    · refine spec_bind (fun _ => steady_fresh) (spec_selectHead (hF e) List.mem_cons_self
        fun db h => ⟨some account, h.1.chain?⟩) fun head => ?_
      refine spec_pure (stable_held ((hF e).and (framed_head List.mem_cons_self fun h =>
        head = h))) fun l g h => ?_
      refine ⟨chainLog, e, head, ?_, under_mono (fun db h => ⟨h.1.2, h.2⟩) h⟩
      rw [he]
  | none =>
    refine spec_pre (fun l g h _ => under_mono (fun db h => h.1) h) ?_
    exact spec_bind (fun _ => steady_fresh) (spec_inserted req rfl) fun inserted =>
      spec_bind (fun _ => steady_fresh) spec_signInserted fun snapshot =>
        spec_pure stable_signedEvent fun _ _ h => h

/-- A request may also fail after its commit. -/
theorem spec_early {Pre : Local schema → Shared schema → Prop}
    {Post : α → Local schema → Shared schema → Prop} {prog : Program schema LedgerError α}
    (h : x.Spec p Pre prog Post fun _ => Fresh p) :
    x.Spec p Pre prog Post fun err g => LegacyError p x err g.history :=
  spec_post h (fun _ _ _ hp => hp) fun _ _ hp => Or.inl hp

/-- An error behind the commit, as an error of the request. -/
theorem spec_late {Pre : Local schema → Shared schema → Prop}
    {Post : α → Local schema → Shared schema → Prop} {prog : Program schema LedgerError α}
    (h : x.Spec p Pre prog Post fun err _ => Late x p ∧ err = .databaseError .io) :
    x.Spec p Pre prog Post fun err g => LegacyError p x err g.history :=
  spec_post h (fun _ _ _ hp => hp) fun _ _ hp => Or.inr hp

/-- **`submit_event`.** -/
theorem spec_submitEvent (hreq : x.requests p = .submitEvent account req) :
    x.Spec p (Outside (Fresh p)) (submitEvent x.state account req)
      (fun response => Outside fun g => LegacyReply x p account req g.history response)
      fun err g => LegacyError p x err g.history := by
  have hE : ∀ err : LedgerError, Steady x.Inv p fun g => LegacyError p x err g.history :=
    fun _ => steady_legacyError
  refine spec_bind hE (spec_early spec_begun) fun _ => spec_exists fun now => ?_
  refine spec_bind hE (spec_early (spec_body stable_legacyBody spec_submitEventInTx)) fun body => ?_
  cases body with
  | inl response =>
    refine spec_bind (M := fun _ => Outside fun g =>
      LegacyReply x p account req g.history response) hE (spec_lift (S := schema)
        (fun _ => stable_outside steady_legacyReply) (triple_rollback (S := schema)
          (stable_legacyBody (.inl response)) steady_legacyReply ?_)) fun _ =>
            spec_pure (stable_outside steady_legacyReply) fun _ _ h => h
    rintro l g ⟨log, e, head, rfl, h⟩ hi
    obtain ⟨hex, hhead⟩ := h.fact
    rw [hi.replayed] at hex hhead
    exact ⟨h.fresh, rfl, g.history, e, List.prefix_refl _, hex, rfl, hhead⟩
  | inr r =>
    obtain ⟨eventId, sequence, snapshot⟩ := r
    refine spec_exists fun a => spec_and fun ⟨hc, hid⟩ => ?_
    obtain rfl : a.event.eventId = eventId := hid
    refine spec_pre (P := fun l g => (∃ capabilities,
      x.db₀.capabilities account = some capabilities) ∧ Under p now a.keys
        (fun db => Adds x.ok x.db₀ p account req a db ∧ snapshot = a.snapshot x.state db)
        (a.unsigned ++ [.setSignature a.event.chainId a.event.eventId snapshot.signature] ++ [])
        l g) ?_ (spec_and fun hcap => ?_)
    · intro l g h _
      obtain ⟨capabilities, hcap, -⟩ := h.fact.1.allowance
      rw [List.append_nil]
      exact ⟨⟨capabilities, hcap⟩, h⟩
    refine spec_bind hE (spec_early (spec_commitEvent
      (framed_adds.and (framed_snapshot (x := x) snapshot)) (fun _ h => h)
      (fun _ _ => Or.inl rfl) ?_)) fun _ => ?_
    · intro h hfresh hF
      rw [List.append_nil]
      exact .legacy hreq hfresh hF.1
    refine spec_bind hE (M := fun response => Outside fun g =>
        Answered x p account req g.history response)
      (spec_late (spec_bind (fun _ => steady_const) (spec_publishLegacy hcap)
        fun _ => spec_finalizeEventSubmission)) fun response => ?_
    exact spec_pure (stable_outside steady_answered) fun _ _ h => h

/-! ## `POST /v1/events` -/

/-- The plan is read again by `insert_event_in_tx`: what stays is the chosen event id. -/
theorem spec_planNextEvent {c : Uuid} {eventId : Option Uuid} {chainLog : List Write} :
    x.Spec p (Under p now [.chain c] (fun db => Access (db.chain? c) account c chainLog) chainLog)
      (planNextEvent c eventId)
      (fun planned => Under p now [.chain c]
        (fun db => Access (db.chain? c) account c chainLog ∧
          ∀ i, eventId = some i → planned.eventId = i) chainLog) fun _ => Fresh p := by
  have hF := framed_access (c := c) (i := account) chainLog
  have hc : Key.chain c ∈ [Key.chain c] := List.mem_cons_self
  refine spec_bind (fun _ => steady_fresh)
    (spec_selectHead hF hc fun db h => ⟨some account, h.chain?⟩) fun head => ?_
  refine spec_bind (fun _ => steady_fresh) (spec_selectNextSequence
    (hF.and (framed_head hc fun h => head = h)) hc fun db h w hw => (h.1.keys w hw).2)
    fun sequence => ?_
  have hplan := (hF.and (framed_head hc fun h => head = h)).and
    (framed_events hc fun events => sequence.toInt = maxSequence events + 1)
  refine spec_bind (fun _ => steady_fresh) (spec_eventIdOrNew hplan) fun id => ?_
  exact spec_pure (stable_held (hplan.and framed_const)) fun _ _ h =>
    under_mono (fun _ hf => ⟨hf.1.1.1, hf.2⟩) h

/-- The identity of an event is read, and nothing written. -/
theorem spec_identityFields (hF : Framed (S := schema) ks F) {account : Uuid}
    {identity : Option V1IdentitySignature} {hash : String} :
    x.Spec p (Under p now ks F log) (identityFields x.state account identity hash)
      (fun _ => Under p now ks F log) fun _ => Fresh p := by
  cases identity with
  | none => exact spec_pure (stable_held hF) fun _ _ h => h
  | some identity =>
    refine spec_bind (fun _ => steady_fresh) (spec_bind (M := fun _ => Under p now ks F log)
      (fun _ => steady_fresh) (spec_post (spec_selectCapabilities hF)
        (fun _ _ _ h => under_mono (fun _ hf => hf.1) h) fun _ _ h => h) fun capabilities =>
          spec_post (spec_requireUnder hF) (fun _ _ _ h => under_mono (fun _ hf => hf.1) h)
            fun _ _ h => h) fun _ => ?_
    refine spec_bind (fun _ => steady_fresh) (spec_mapErr (fun _ => stable_held hF)
      (fun _ => steady_fresh) (spec_bind (M := fun _ => Under p now ks F log)
        (fun _ => steady_fresh) (spec_post (spec_poolRead (Q := fun _ => True) rfl hF
          fun g ch a ks ws _ he => ⟨(reads_ok he).2.2, trivial⟩)
          (fun _ _ _ h => under_mono (fun _ hf => hf.1) h) fun _ _ h => h) fun key => ?_))
      fun fields => spec_pure (stable_held hF) fun _ _ h => h
    cases key with
    | none => exact spec_throw (stable_held hF) fun _ _ h => h.fresh
    | some key =>
      cases hcheck : checkIdentityKey x.state key identity.signature hash with
      | ok fields =>
        refine triple_ret (stable_held hF) fun l g h _ => ?_
        rw [hcheck]
        exact h
      | error err =>
        refine triple_ret (stable_held hF) fun l g h _ => ?_
        rw [hcheck]
        exact h.fresh

variable {key : String} {body : V1SubmitEventRequest}

/-- A write of an event is under none of the keys of a record. -/
theorem record?_signed {a : Addition} {db : Db} {s : String} (h : a.Valid db) (account : Uuid)
    (key : String) : Db.record? (replay (S := schema) (a.unsigned ++
      [.setSignature a.event.chainId a.event.eventId s]) db) account key = db.record? account key := by
  refine same_of_keys (k := .record account key) (fun w hw hk => ?_) db
  simp only [Addition.unsigned, List.mem_append, List.mem_singleton] at hw
  rcases hw with (((hw | rfl) | rfl) | rfl) | rfl
  · rcases (h.prepared_keys w hw).1 with hkeys | hkeys
    · simp [hkeys] at hk
    · simp [hkeys] at hk
  all_goals simp [Write.keys] at hk

variable (x p now account key body) in
/-- A signed v1 event with its record, before the commit. -/
def V1Signed (r : Uuid × ProofStatus × V1Response) (l : Local schema) (g : Shared schema) : Prop :=
  ∃ (a : Addition) (req : SubmitEventRequest) (record : IdempotencyRecord)
    (snapshot : ProofSnapshot), (a.event.chainId = req.chainId ∧ a.event.eventId = r.1 ∧
      V1Request key body req ∧ V1Record x.state account key body record ∧
      record.responseJson = r.2.2 ∧ record.responseJson.eventId = a.event.eventId) ∧
    Under p now ([.recordId record.id, .record account key] ++ a.keys)
      (fun db => (Adds x.ok x.db₀ p account req a db ∧ snapshot = a.snapshot x.state db) ∧
        db.record? account key = none)
      (a.unsigned ++ [.setSignature a.event.chainId a.event.eventId snapshot.signature] ++
        [.insertRecord record]) l g

/-- The signed event and the absence of a record are under the keys that are held. -/
theorem framed_v1Signed {a : Addition} {record : IdempotencyRecord} {snapshot : ProofSnapshot} :
    Framed (S := schema) ([.recordId record.id, .record account key] ++ a.keys) fun db : Db =>
      (Adds x.ok x.db₀ p account req a db ∧ snapshot = a.snapshot x.state db) ∧
        db.record? account key = none :=
  ((framed_adds.and (framed_snapshot (x := x) snapshot)).mono (List.subset_append_right _ _)).and
    ((framed_record fun r => r = none).mono (by simp))

/-- A signed v1 event waits for its record's commit. -/
theorem stable_v1Signed {r : Uuid × ProofStatus × V1Response} :
    Stable (discipline (S := schema) x.Inv) p (V1Signed x p now account key body r) :=
  stable_exists fun _ => stable_exists fun _ => stable_exists fun _ => stable_exists fun _ =>
    fun _ _ _ h hi hr hi' => ⟨h.1, stable_held framed_v1Signed _ _ _ h.2 hi hr hi'⟩

/-- **`insert_in_tx`** claims the key of the record. -/
theorem spec_insertInTx {a : Addition} {record : IdempotencyRecord} {snapshot : ProofSnapshot}
    (hrecord : V1Record x.state account key body record) :
    x.Spec p (Under p now a.keys
        (fun db => Adds x.ok x.db₀ p account req a db ∧ snapshot = a.snapshot x.state db)
        (a.unsigned ++ [.setSignature a.event.chainId a.event.eventId snapshot.signature]))
      (insertInTx record)
      (fun _ => Under p now ([.recordId record.id, .record account key] ++ a.keys)
        (fun db => (Adds x.ok x.db₀ p account req a db ∧ snapshot = a.snapshot x.state db) ∧
          db.record? account key = none)
        (a.unsigned ++ [.setSignature a.event.chainId a.event.eventId snapshot.signature] ++
          [.insertRecord record])) fun _ => Fresh p := by
  obtain ⟨rfl, rfl, -, -⟩ := hrecord
  refine spec_locks (s := .insertRecord record)
    (K := fun _ => [.recordId record.id, .record record.accountId record.idempotencyKey] ++ a.keys)
    (G := fun _ db => (Adds x.ok x.db₀ p record.accountId req a db ∧
      snapshot = a.snapshot x.state db) ∧
        db.record? record.accountId record.idempotencyKey = none)
    (W := fun _ => [.insertRecord record]) rfl
    (framed_adds.and (framed_snapshot (x := x) snapshot)) (fun _ => framed_v1Signed) ?_
  intro g ch _ taken ws hf _ _ he
  obtain ⟨rfl, hnone, hkeys⟩ := insertRecord_ok he
  rw [record?_signed hf.1.valid] at hnone
  refine ⟨rfl, ⟨hf, hnone⟩, fun k hk => ?_, fun w hw k hk => ?_⟩
  · rcases List.mem_append.mp hk with hk | hk
    · exact Or.inr (hkeys k hk)
    · exact Or.inl hk
  · rw [List.mem_singleton.mp hw] at hk
    exact Or.inr (hkeys k hk)

/-- **A new v1 event.** -/
theorem spec_insertV1InTx {trustLevel hash : String} (hvalid : validateSubmitRequest body = true)
    (hhash : hash = requestHash x.state
      { body with fileHash := normalizedFileHash body.fileHash, identitySignature := none }) :
    x.Spec p (Under p now [] (fun _ => True) [])
      (insertV1InTx x.state account key body trustLevel (normalizedFileHash body.fileHash) hash)
      (V1Signed x p now account key body) fun _ => Fresh p := by
  have hacc := fun chainLog => framed_access (c := body.chainId) (i := account) chainLog
  refine spec_bind (M := fun _ l g => ∃ chainLog, Under p now [.chain body.chainId]
    (fun db => Access (db.chain? body.chainId) account body.chainId chainLog) chainLog l g)
    (fun _ => steady_fresh) (spec_mapErr
      (fun _ => stable_exists fun chainLog => stable_held (hacc chainLog)) (fun _ => steady_fresh)
      spec_ensureChainAccessInTx) fun _ => spec_exists fun chainLog => ?_
  refine spec_bind (fun _ => steady_fresh) (spec_mapErr
    (fun _ => stable_held ((hacc chainLog).and framed_const)) (fun _ => steady_fresh)
    spec_planNextEvent) fun planned => ?_
  refine spec_pre (fun _ _ h _ => under_const h) (spec_and fun hid => ?_)
  refine spec_bind (fun _ => steady_fresh) (spec_identityFields (hacc chainLog)) fun fields => ?_
  refine spec_bind (fun _ => steady_fresh) (spec_mapErr (fun _ => stable_insertedEvent)
    (fun _ => steady_fresh) (spec_inserted _ (by rfl))) fun inserted => ?_
  refine spec_bind (fun _ => steady_fresh) (spec_mapErr (fun _ => stable_signedEvent)
    (fun _ => steady_fresh) spec_signInserted) fun snapshot => ?_
  refine spec_exists fun a => spec_and fun ha => ?_
  refine spec_bind (fun _ => steady_fresh)
    (spec_questionUnder (framed_adds.and (framed_snapshot snapshot))) fun requestId => ?_
  refine spec_bind (fun _ => steady_fresh)
    (spec_questionUnder (framed_adds.and (framed_snapshot snapshot))) fun createdAt => ?_
  refine spec_bind (fun _ => steady_fresh)
    (spec_questionUnder (framed_adds.and (framed_snapshot snapshot))) fun id => ?_
  refine spec_bind (fun _ => steady_fresh) (spec_insertInTx
    (⟨rfl, rfl, hhash, rfl, rfl⟩ : V1Record x.state account key body _)) fun _ => ?_
  refine spec_pure (stable_held framed_v1Signed) fun l g h => ?_
  refine ⟨a, _, _, snapshot, ⟨ha.1, ha.2, ⟨hvalid, rfl, rfl, rfl, ?_⟩,
    ⟨rfl, rfl, hhash, rfl, rfl⟩, rfl, ha.2.symm⟩, h⟩
  intro i hi
  exact congrArg some (hid i hi)

variable (x p now account key body) in
/-- The end of the body of `submit_v1_event`: the record that was there, locked, or a new event. -/
def V1Body : V1Response ⊕ (Uuid × ProofStatus × V1Response) → Local schema → Shared schema → Prop
  | .inl response => fun l g => ∃ record : IdempotencyRecord, record.responseJson = response ∧
      Under p now [.record account key] (fun db => db.record? account key = some record) [] l g
  | .inr r => V1Signed x p now account key body r

/-- A stored record is under its own key. -/
theorem framed_stored {record : IdempotencyRecord} :
    Framed (S := schema) [Key.record account key] fun db : Db =>
      db.record? account key = some record :=
  framed_record fun r => r = some record

/-- Whatever the transaction of a v1 request has come to waits for its commit. -/
theorem stable_v1Body (r : V1Response ⊕ (Uuid × ProofStatus × V1Response)) :
    Stable (discipline (S := schema) x.Inv) p (V1Body x p now account key body r) := by
  cases r with
  | inl response =>
    exact stable_exists fun _ _ _ _ h hi hr hi' =>
      ⟨h.1, stable_held framed_stored _ _ _ h.2 hi hr hi'⟩
  | inr r => exact stable_v1Signed

/-- An active record is found and locked, or nothing is. -/
theorem spec_selectActiveRecord :
    x.Spec p (Under p now [] (fun _ => True) []) (queryV1 (.selectActiveRecord account key))
      (fun found => Under p now (if found.isSome then [.record account key] else [])
        (fun db => ∀ record, found = some record → db.record? account key = some record) [])
      fun _ => Fresh p := by
  refine spec_locks (s := .selectActiveRecord account key)
    (K := fun found : Option IdempotencyRecord =>
      if found.isSome then [.record account key] else [])
    (G := fun (found : Option IdempotencyRecord) db => ∀ record, found = some record →
      db.record? account key = some record)
    (W := fun _ => []) rfl framed_const (fun found => ?_) ?_
  · cases found with
    | none => exact fun _ _ _ _ _ h => absurd h (by simp)
    | some record =>
      exact framed_record fun row? => ∀ r, some record = some r → row? = some r
  · intro g ch found taken ws _ _ _ he
    obtain ⟨rfl, hfound⟩ := selectActiveRecord_ok he
    refine ⟨rfl, fun record hr => (hfound record hr).1, fun k hk => ?_, by simp⟩
    cases found with
    | none => exact absurd hk (by simp)
    | some record =>
      rw [(hfound record rfl).2.2]
      exact Or.inr hk

/-- **The body of `submit_v1_event`**: a replay writes nothing. -/
theorem spec_submitV1InTx {trustLevel hash : String} (hvalid : validateSubmitRequest body = true)
    (hhash : hash = requestHash x.state
      { body with fileHash := normalizedFileHash body.fileHash, identitySignature := none }) :
    x.Spec p (Under p now [] (fun _ => True) [])
      (submitV1InTx x.state account key body trustLevel (normalizedFileHash body.fileHash) hash)
      (V1Body x p now account key body) fun _ => Fresh p := by
  refine spec_bind (fun _ => steady_fresh) spec_selectActiveRecord fun found => ?_
  cases found with
  | some record =>
    refine spec_pre (fun _ _ h _ => under_mono (fun db hf => hf record rfl) h)
      (spec_bind (fun _ => steady_fresh) (spec_requireUnder framed_stored) fun _ => ?_)
    exact spec_pure (stable_held (framed_stored.and framed_const)) fun _ _ h =>
      ⟨record, rfl, under_mono (fun _ hf => hf.1) h⟩
  | none =>
    exact spec_pre (fun _ _ h _ => under_mono (fun _ _ => trivial) h)
      (spec_bind (fun _ => steady_fresh) (spec_insertV1InTx hvalid hhash) fun inserted =>
        spec_pure stable_v1Signed fun _ _ h => h)

variable (x p account key body) in
/-- **The reply of `submit_v1_event`**: the response stored with a record that was there, or with
the request's own. -/
def V1Reply (h : History schema) (response : V1Response) : Prop :=
  (writesOf p h = [] ∧ ∃ h' record, h' <+: h ∧
      (tables x.db₀ h').record? account key = some record ∧ record.responseJson = response) ∨
    ∃ req record eventId snapshot, V1Request key body req ∧
      V1Record x.state account key body record ∧ record.responseJson = response ∧
      response.eventId = eventId ∧
      Landed x.state x.ok x.db₀ p account req eventId snapshot [.insertRecord record] h

/-- What a v1 reply says stays true. -/
theorem steady_v1Reply {response : V1Response} :
    Steady x.Inv p fun g => V1Reply x p account key body g.history response := by
  rintro g g' (⟨hfresh, h', record, hp, h⟩ |
    ⟨req, record, eventId, snapshot, hreq, hrec, hresp, hid, h⟩) hi hr hi'
  · exact Or.inl ⟨steady_fresh g g' hfresh hi hr hi', h', record, hp.trans hr.history, h⟩
  · exact Or.inr ⟨req, record, eventId, snapshot, hreq, hrec, hresp, hid, h.mono hr.history⟩

/-- A replay commits nothing. -/
theorem spec_commitReplay {f : DbError → ε} {record : IdempotencyRecord} :
    x.Spec p (Under p now [.record account key]
        (fun db => db.record? account key = some record) []) (commitTx f)
      (fun _ => Outside fun g => V1Reply x p account key body g.history record.responseJson)
      fun _ => Fresh p := by
  refine Lib.Transaction.spec_commit (S := schema) framed_stored steady_v1Reply
    (fun _ => steady_fresh) (fun g hfresh hf hi => ⟨hi, Or.inl ⟨hfresh, ?_⟩⟩) fun _ h => h
  rw [hi.replayed] at hf
  exact ⟨g.history, record, List.prefix_refl _, hf, rfl⟩

/-- **`submit_v1_event`.** -/
theorem spec_submitV1Event (hreq : x.requests p = .submitV1Event account key body) :
    x.Spec p (Outside (Fresh p)) (submitV1Event x.state account key body)
      (fun response => Outside fun g => V1Reply x p account key body g.history response)
      fun _ => Fresh p := by
  have hfresh : Stable (discipline (S := schema) x.Inv) p (Outside (Fresh p)) :=
    stable_outside steady_fresh
  refine spec_bind (M := fun _ l g => validateSubmitRequest body = true ∧ Outside (Fresh p) l g)
    (fun _ => steady_fresh) (spec_require hfresh (fun _ _ h hv => ⟨hv, h⟩) fun _ _ h _ => h)
    fun _ => spec_and fun hvalid => ?_
  refine spec_bind (M := fun _ => Outside (Fresh p)) (fun _ => steady_fresh) (spec_attempt
    (S := schema) (fun _ => hfresh) (fun _ => steady_fresh) (triple_poolRead (S := schema) rfl hfresh
      (fun _ => hfresh) (fun _ => steady_fresh) ?_ fun _ _ _ h _ _ => h)) fun capabilities => ?_
  · intro l g ch a ks ws h _ _ he
    have he : (Sql.selectCapabilities account).effect (g.waits p) ch ch.time g.db =
      some (.ok (a, ks, ws)) := he
    exact ⟨(selectCapabilities_ok he).2, h⟩
  refine spec_bind (fun _ => steady_fresh) spec_begun fun _ => spec_exists fun now => ?_
  refine spec_bind (fun _ => steady_fresh)
    (spec_body stable_v1Body (spec_submitV1InTx hvalid rfl)) fun r => ?_
  cases r with
  | inl response =>
    refine spec_exists fun record => spec_and fun hrecord => ?_
    subst hrecord
    exact spec_bind (fun _ => steady_fresh) spec_commitReplay fun _ =>
      spec_pure (stable_outside steady_v1Reply) fun _ _ h => h
  | inr r =>
    obtain ⟨eventId, status, response⟩ := r
    refine spec_exists fun a => spec_exists fun req => spec_exists fun record =>
      spec_exists fun snapshot => spec_and fun ⟨hc, hid, hbody, hrecord, hresponse, hevent⟩ => ?_
    obtain rfl : a.event.eventId = eventId := hid
    have hresponse : record.responseJson = response := hresponse
    refine spec_bind (fun _ => steady_fresh) (spec_commitEvent framed_v1Signed (fun _ h => h.1)
      (fun db h => Or.inr ⟨record, rfl, ?_⟩) ?_) fun _ => ?_
    · rw [hrecord.accountId, hrecord.idempotencyKey]
      exact h.2
    · intro h hfirst hF
      exact .v1 hreq hfirst hbody hF.1.1 hrecord hF.2 hevent
    have hstable : Stable (discipline (S := schema) x.Inv) p
        (Outside (After x p account req a.event.eventId snapshot [.insertRecord record])) :=
      stable_outside steady_after
    refine spec_bind (M := fun _ => Outside
      (After x p account req a.event.eventId snapshot [.insertRecord record]))
        (fun _ => steady_fresh) (spec_lift (S := schema) (fun _ => hstable) ?_) fun _ => ?_
    · unfold publishV1
      split_ifs
      · exact triple_publish
      · exact triple_ret hstable fun _ _ h _ => h
    rw [← hbody.chainId]
    refine spec_bind (fun _ => steady_fresh) (spec_lift (S := schema) (fun _ => hstable)
      triple_postCommitTsa) fun _ => ?_
    exact spec_pure hstable fun _ _ h =>
      Or.inr ⟨req, record, a.event.eventId, snapshot, hbody, hrecord, hresponse, hresponse ▸ hevent, h⟩

/-! ## All requests -/

variable (p account) in
/-- The chain is a commit of the request. -/
def Created (c : Uuid) (h : History schema) : Prop :=
  ∃ h₀, h₀ ++ [(p, [.insertChain ⟨c, none, some account⟩])] <+: h

/-- A created chain stays created. -/
theorem steady_created {c : Uuid} : Steady x.Inv p fun g => Created p account c g.history :=
  steady_past fun _ _ hp ⟨h₀, h⟩ => ⟨h₀, h.trans hp⟩

/-- **`create_chain`** adds a chain without events. -/
theorem spec_createChain (hreq : x.requests p = .createChain account) :
    x.Spec p (Outside (Fresh p)) (createChain account)
      (fun c => Outside fun g => Created p account c g.history) fun _ => Fresh p := by
  refine spec_bind (M := fun _ => Outside (Fresh p)) (fun _ => steady_fresh)
    (spec_ask (S := schema) (stable_outside steady_fresh) (fun _ => stable_outside steady_fresh)
      fun _ _ _ h => h) fun chainId => ?_
  refine spec_bind (M := fun _ => Outside fun g => Created p account chainId g.history)
    (fun _ => steady_fresh)
    (spec_attempt (S := schema) (fun _ => stable_outside steady_created) (fun _ => steady_fresh)
      (triple_pool (S := schema) rfl steady_fresh (fun _ => steady_created) (fun _ => steady_fresh) ?_
        fun _ _ h _ _ => h)) fun _ => spec_pure (stable_outside steady_created) fun _ _ h => h
  intro g ch a ks ws h hi _ he
  have he : (Sql.insertChain chainId account).effect (g.waits p) ch ch.time g.db =
    some (.ok (a, ks, ws)) := he
  obtain ⟨hnew, rfl⟩ := insertChain_ok he
  rw [hi.replayed] at hnew
  exact ⟨hi.record fun _ => .chain hreq h hnew, g.history, List.prefix_refl _⟩

/-- **What a reply says** about the history. -/
def ReplyOk (x : Setting) (p : Nat) (h : History schema) : Reply → Prop
  | .chain result => ∃ account, x.requests p = .createChain account ∧
      match result with
      | .ok c => Created p account c h
      | .error _ => writesOf p h = []
  | .event result => ∃ account req, x.requests p = .submitEvent account req ∧
      match result with
      | .ok response => LegacyReply x p account req h response
      | .error err => LegacyError p x err h
  | .v1 result => ∃ account key body, x.requests p = .submitV1Event account key body ∧
      match result with
      | .ok response => V1Reply x p account key body h response
      | .error _ => writesOf p h = []

/-- Every request meets its contract. -/
theorem triple_run (x : Setting) (p : Nat) :
    x.Triple p (Outside (Fresh p)) ((x.requests p).run x.state)
      (fun reply => Outside fun g => ReplyOk x p g.history reply) := by
  cases hreq : x.requests p with
  | createChain account =>
    refine triple_bind (spec_createChain hreq) fun r => ?_
    cases r with
    | ok _ => exact triple_ret (stable_outside steady_created) fun _ _ h _ => ⟨account, hreq, h⟩
    | error _ => exact triple_ret (stable_outside steady_fresh) fun _ _ h _ => ⟨account, hreq, h⟩
  | submitEvent account req =>
    refine triple_bind (spec_bind (M := fun _ => Outside (Fresh p)) (fun _ => steady_legacyError)
      (spec_require (stable_outside steady_fresh) (fun _ _ h _ => h) fun _ _ h _ => Or.inl h)
      fun _ => spec_submitEvent hreq) fun r => ?_
    cases r with
    | ok response =>
      exact triple_ret (stable_outside steady_legacyReply) fun _ _ h _ => ⟨account, req, hreq, h⟩
    | error _ =>
      exact triple_ret (stable_outside steady_legacyError) fun _ _ h _ => ⟨account, req, hreq, h⟩
  | submitV1Event account key body =>
    refine triple_bind (spec_submitV1Event hreq) fun r => ?_
    cases r with
    | ok response =>
      exact triple_ret (stable_outside steady_v1Reply) fun _ _ h _ => ⟨account, key, body, hreq, h⟩
    | error _ =>
      exact triple_ret (stable_outside steady_fresh) fun _ _ h _ => ⟨account, key, body, hreq, h⟩

/-- The tables with the locks and the history, and the requests under way. -/
abbrev LedgerConfig := Config (Call.Answer (S := schema)) (Shared schema) (Local schema) Reply

/-- Any number of requests over some tables; none has begun. -/
def start (state : AppState) (requests : Nat → Request) (db : Db) : LedgerConfig :=
  ⟨⟨db, fun _ => none, []⟩, fun p => ((requests p).run state, none)⟩

/-- The runs of a setting. -/
abbrev Setting.Reach (x : Setting) : LedgerConfig → LedgerConfig → Prop :=
  Lib.Interleave.Reach ((system schema).restrict x.admits) x.ok

/-- The empty history is one of commits. -/
theorem inv_start (x : Setting) :
    (discipline (S := schema) x.Inv).Inv (start x.state x.requests x.db₀).shared :=
  recorded_nil

/-- Every request is about to keep its contract. -/
theorem safe_start (x : Setting) : ∀ p, Safe ((system schema).restrict x.admits) x.ok
    (discipline (S := schema) x.Inv) p (fun reply => Outside fun g => ReplyOk x p g.history reply)
    ((start x.state x.requests x.db₀).procs p).1 ((start x.state x.requests x.db₀).procs p).2
    (start x.state x.requests x.db₀).shared :=
  fun p => triple_run x p none ⟨x.db₀, fun _ => none, []⟩ rfl (inv_start x)

/-- **In every state reached the history is one of commits, and every reply given meets its
contract.** -/
theorem ledger_reach {x : Setting} {y : LedgerConfig}
    (h : x.Reach (start x.state x.requests x.db₀) y) :
    x.Inv y.shared.db y.shared.history ∧
      ∀ p reply, (y.procs p).1.result = some reply → ReplyOk x p y.shared.history reply := by
  obtain ⟨hinv, hsafe⟩ := reach_safe (inv_start x) (safe_start x) h
  exact ⟨hinv, fun p reply hr => (hsafe p).result hinv hr⟩

/-- The history only grows. -/
theorem ledger_history {x : Setting} {y z : LedgerConfig}
    (hy : x.Reach (start x.state x.requests x.db₀) y) (hz : x.Reach y z) :
    y.shared.history <+: z.shared.history := by
  obtain ⟨hinv, hsafe⟩ := reach_safe (inv_start x) (safe_start x) hy
  refine reach_relation (fun g g' : Shared schema => g.history <+: g'.history)
    (fun _ => List.prefix_refl _) (fun _ _ _ h h' => h.trans h') ?_ hinv hsafe hz
  exact fun _ _ _ hr => Rely.history hr

/-- Any requests over any tables, with no restriction on the runs. -/
def Setting.all (state : AppState) (requests : Nat → Request) (db₀ : Db) : Setting where
  state
  requests
  admits _ _ _ _ := true
  ok _ _ _ := True
  db₀

end EvidentLedger.Ledger
