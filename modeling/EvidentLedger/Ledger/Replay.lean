import EvidentLedger.Ledger.RequestHash
import EvidentLedger.Ledger.KeyRaces

/-!
# Replays

A v1 request under a key whose record is active is answered from the record, before any statement of
the ledger (`src/api/v1/submit_event.rs:164-177`). The hash in the record is of `chain_id`,
`event_type` and `file_hash` only: `event_id` and `identity_signature` are not compared, though the
API promises a conflict for any different body (`docs/API.md:161-166`).

* `Recorded.stored`: a committed v1 request had a valid body, and its record is in the table.
* `spec_replay`: what a request does once its record is there, among any other requests.
* **`replay_reply`**: while the record is active and no statement of the request fails, the reply is
  `replayOutcome`.
* **`replay_answers_same_request`**: a second body is answered as promised if and only if it is the
  same, or it is valid and one of the three fields that are hashed is different.
-/

namespace EvidentLedger.Ledger

open Lib.Interleave Lib.Transaction

variable {state : AppState} {requests : Nat → Request} {ok : Nat → Call schema → Shared schema → Prop}
  {db₀ db : Db} {h : History schema}

/-! ## Records stay -/

/-- A record that is there stays the one that is found. -/
theorem record?_replay {account : Uuid} {key : String} {record : IdempotencyRecord}
    (log : List Write) {db : Db} (h : db.record? account key = some record) :
    Db.record? (replay (S := schema) log db) account key = some record := by
  induction log generalizing db with
  | nil => exact h
  | cons w log ih =>
    refine ih ?_
    cases w with
    | insertRecord r => rw [record?_insertRecord, h, Option.some_or]
    | insertChain | setChainAccount | setHead | insertEvent | setSignature | insertUsage | bumpUsage
      | insertTsaToken => exact h

theorem record?_tables {account : Uuid} {key : String} {record : IdempotencyRecord}
    {h h' : History schema} (hp : h <+: h')
    (hrecord : (tables db₀ h).record? account key = some record) :
    (tables db₀ h').record? account key = some record := by
  obtain ⟨later, rfl⟩ := hp
  rw [tables, committed, List.flatMap_append, replay_append]
  exact record?_replay _ hrecord

/-- What is in the tables for a committed v1 request. -/
structure Stored (state : AppState) (account : Uuid) (key : String) (body : V1SubmitEventRequest)
    (r : IdempotencyRecord) (db : Db) : Prop where
  valid : validateSubmitRequest body = true
  record : V1Record state account key body r
  found : db.record? account key = some r
  account : (db.capabilities account).isSome = true

/-- **A committed v1 request has its record in the table.** -/
theorem Recorded.stored (hr : Recorded state requests ok db₀ db h) {p : Nat} {account : Uuid}
    {key : String} (body : V1SubmitEventRequest) {r : IdempotencyRecord}
    (hp : requests p = .submitV1Event account key body) (hmem : r ∈ recordsOf (writesOf p h)) :
    Stored state account key body r db := by
  rw [hr.replayed]
  refine hr.induction (motive := fun h => r ∈ recordsOf (writesOf p h) →
    Stored state account key body r (tables db₀ h)) (fun h0 => absurd h0 (by simp [writesOf, recordsOf]))
      ?_ hmem
  intro h q log _ hc ih hmem
  have hcapabilities : ∀ h : History schema,
      (tables db₀ h).capabilities = db₀.capabilities := tables_capabilities db₀
  rw [writesOf_concat, recordsOf_append] at hmem
  rcases List.mem_append.mp hmem with hpast | hlast
  · obtain ⟨hvalid, hrecord, hfound, haccount⟩ := ih hpast
    refine ⟨hvalid, hrecord, record?_tables (List.prefix_append _ _) hfound, ?_⟩
    rwa [hcapabilities] at haccount ⊢
  by_cases hq : q = p
  swap
  · rw [if_neg hq] at hlast
    exact absurd hlast (by simp [recordsOf])
  subst hq
  rw [if_pos rfl] at hlast
  cases hc with
  | chain hreq => exact absurd (hp.symm.trans hreq) (by simp)
  | legacy hreq => exact absurd (hp.symm.trans hreq) (by simp)
  | token _ hlanded => exact absurd hlast (by simp [recordsOf, effects, Write.effect?, Effect.record?])
  | @v1 _ _ _ req a r' hreq hfirst hbody hadds hrecord hnew =>
    obtain ⟨rfl, rfl, rfl⟩ := Request.submitV1Event.inj (hp.symm.trans hreq)
    obtain rfl : r = r' := by
      rw [mem_recordsOf, effects_append, hadds.valid.effects_log] at hlast
      simpa [effects, Write.effect?] using hlast
    refine ⟨hbody.valid, hrecord, ?_, ?_⟩
    · rw [tables_concat, replay_append, replay_write, replay_none, record?_insertRecord,
        Addition.log, record?_signed hadds.valid, hnew, Option.none_or, hrecord.accountId,
        hrecord.idempotencyKey]
      simp
    · obtain ⟨capabilities, hcap, -⟩ := hadds.allowance
      rw [hcapabilities, hcap]
      rfl

/-! ## A request whose record is there -/

/-- The reply to a body under a key whose record is active. -/
def replayOutcome (state : AppState) (record : IdempotencyRecord) (body : V1SubmitEventRequest) :
    Except ApiError V1Response :=
  if validateSubmitRequest body then
    if record.requestHash == requestHash state body.hashed then .ok record.responseJson
    else .error .conflict
  else .error .invalidRequest

/-- Request `q` begins before its record expires, and none of its statements fails. -/
def undisturbed (q : Nat) (expiresAt : Int) (p : Nat) (ch : Choice) (call : Call schema)
    (_ : Shared schema) : Bool :=
  p != q || !ch.fails && match call with
    | .begin => decide (ch.time < expiresAt)
    | _ => true

/-- The runs in which request `q` is not disturbed. -/
def Setting.inTime (x : Setting) (q : Nat) (expiresAt : Int) : Setting :=
  { x with admits := undisturbed q expiresAt }

theorem Setting.not_fails {x : Setting} {q : Nat} {expiresAt : Int} {ch : Choice}
    {call : Call schema} {g : Shared schema} (h : (x.inTime q expiresAt).admits q ch call g = true) :
    ¬ schema.fails ch = true := by
  simp only [Setting.inTime, undisturbed, bne_self_eq_false, Bool.false_or, Bool.and_eq_true] at h
  simpa using h.1

/-- Its record is in the table, and its account is there. -/
def RecordFound (account : Uuid) (key : String) (record : IdempotencyRecord)
    (g : Shared schema) : Prop :=
  Db.record? g.db account key = some record ∧ (Db.capabilities g.db account).isSome = true

section Spec

variable {x : Setting} {q : Nat} {account : Uuid} {key : String} {record : IdempotencyRecord}
  {body : V1SubmitEventRequest} {ε : Type}

theorem steady_recordFound : Steady x.Inv q (RecordFound account key record) := by
  rintro g g' ⟨hrecord, haccount⟩ hi hr hi'
  rw [RecordFound, hi'.replayed, tables_capabilities]
  rw [hi.replayed] at hrecord haccount
  rw [tables_capabilities] at haccount
  exact ⟨record?_tables hr.history hrecord, haccount⟩

/-- Inside a transaction that has written nothing and began in time. -/
abbrev Reading (account : Uuid) (key : String) (record : IdempotencyRecord) (q : Nat) :
    Local schema → Shared schema → Prop :=
  InTx (S := schema) q fun tx g => (tx.log = [] ∧ tx.now < record.expiresAt) ∧
    RecordFound account key record g

theorem steady_reading (tx : Tx schema) : Steady x.Inv q fun g =>
    (tx.log = [] ∧ tx.now < record.expiresAt) ∧ RecordFound account key record g :=
  steady_and steady_const steady_recordFound

/-- The capabilities of the account are read. -/
theorem spec_replayCapabilities {E : ApiError → Shared schema → Prop}
    (hE : ∀ err, Steady x.Inv q (E err)) :
    (x.inTime q record.expiresAt).Spec q (Outside (RecordFound account key record))
      (queryV1 (.selectCapabilities account)) (fun _ => Outside (RecordFound account key record))
      E := by
  have hst : Stable (discipline (S := schema) x.Inv) q (Outside (RecordFound account key record)) :=
    stable_outside steady_recordFound
  refine spec_attempt (S := schema) (fun _ => hst) hE (triple_poolRead (S := schema) rfl hst
    (fun _ => hst) (fun _ => hE _) ?_ ?_)
  · intro l g ch a ks ws h _ _ he
    have he : (Sql.selectCapabilities account).effect (g.waits q) ch ch.time g.db =
      some (.ok (a, ks, ws)) := he
    exact ⟨(selectCapabilities_ok he).2, h⟩
  · rintro l g err ⟨-, haccount⟩ _ ⟨ch, hadm, ⟨hf, -⟩ | he⟩
    · exact absurd hf (Setting.not_fails hadm)
    · have he : (Sql.selectCapabilities account).effect (g.waits q) ch ch.time g.db =
        some (.error err) := he
      obtain ⟨capabilities, hcap⟩ := Option.isSome_iff_exists.mp haccount
      simp only [Sql.effect, hcap] at he
      exact absurd he (by simp [reads])

/-- **`begin`**, in time. -/
theorem spec_replayBegin {E : ApiError → Shared schema → Prop}
    (hE : ∀ err, Steady x.Inv q (E err)) :
    (x.inTime q record.expiresAt).Spec q (Outside (RecordFound account key record))
      (beginTx fun _ => .internal) (fun _ => Reading account key record q) E := by
  refine spec_attempt (S := schema) (fun _ => stable_inTx steady_reading) hE
    (triple_begin (S := schema) steady_recordFound steady_reading (fun _ => hE _) ?_ ?_)
  · intro ch g h hadm
    simp only [Setting.inTime, undisturbed, bne_self_eq_false, Bool.false_or, Bool.and_eq_true,
      decide_eq_true_eq] at hadm
    exact ⟨⟨rfl, hadm.2⟩, h⟩
  · intro ch g _ hadm hf
    exact absurd hf (Setting.not_fails hadm)

/-- **The lookup finds the record.** -/
theorem spec_replayLookup {E : ApiError → Shared schema → Prop}
    (hE : ∀ err, Steady x.Inv q (E err)) :
    (x.inTime q record.expiresAt).Spec q (Reading account key record q)
      (queryV1 (.selectActiveRecord account key))
      (fun found l g => found = some record ∧ Reading account key record q l g) E := by
  have hQ : ∀ (found : Option IdempotencyRecord) (tx : Tx schema), Steady x.Inv q fun g =>
      found = some record ∧ (tx.log = [] ∧ tx.now < record.expiresAt) ∧
        RecordFound account key record g := fun found tx =>
    steady_and steady_const (steady_reading tx)
  refine spec_post (spec_attempt (S := schema) (fun found => stable_inTx (hQ found)) hE
    (triple_sql (S := schema) (s := .selectActiveRecord account key) rfl steady_reading hQ
      (fun _ => hE _) ?_ ?_)) ?_ fun _ _ h => h
  · rintro tx g ch found ks ws ⟨⟨hlog, hnow⟩, hfound⟩ _ _ he
    have he : (Sql.selectActiveRecord account key).effect (g.waits q) ch tx.now
      (replay (S := schema) tx.log g.db) = some (.ok (found, ks, ws)) := he
    simp only [hlog, replay_none, Sql.effect, hfound.1, gt_iff_lt, hnow, if_true] at he
    obtain ⟨-, rfl, -, rfl⟩ := locking_ok he
    refine ⟨by simp, rfl, ⟨?_, hnow⟩, hfound⟩
    change tx.log ++ [] = []
    rw [hlog, List.append_nil]
  · rintro tx g err ⟨⟨hlog, hnow⟩, hfound⟩ _ ⟨ch, hadm, ⟨hf, -⟩ | he⟩
    · exact absurd hf (Setting.not_fails hadm)
    · have he : (Sql.selectActiveRecord account key).effect (g.waits q) ch tx.now
        (replay (S := schema) tx.log g.db) = some (.error err) := he
      simp only [hlog, replay_none, Sql.effect, hfound.1, gt_iff_lt, hnow, if_true] at he
      unfold locking at he
      split_ifs at he
      exact absurd he (by simp)
  · rintro found l g ⟨tx, rfl, ha, ho, hfound, h⟩
    exact ⟨hfound, tx, rfl, ha, ho, h⟩

/-- **`commit`** of a transaction that has written nothing. -/
theorem spec_replayCommit {E : ApiError → Shared schema → Prop}
    (hE : ∀ err, Steady x.Inv q (E err)) :
    (x.inTime q record.expiresAt).Spec q (Reading account key record q)
      (commitTx fun _ => .internal) (fun _ => Outside fun _ => True) E := by
  refine spec_attempt (S := schema) (fun _ => stable_outside steady_const) hE
    (triple_commit (S := schema) steady_reading steady_const (fun _ => hE _) ?_ ?_)
  · rintro tx g ⟨⟨hlog, -⟩, -⟩ hi
    rw [hlog]
    exact ⟨hi, trivial⟩
  · intro tx g ch _ hadm hf
    exact absurd hf (Setting.not_fails hadm)

variable (x q account key record body) in
/-- The end of the body: the stored response. -/
def ReplayBody (r : V1Response ⊕ (Uuid × ProofStatus × V1Response)) (l : Local schema)
    (g : Shared schema) : Prop :=
  (∃ response, r = .inl response ∧ replayOutcome x.state record body = .ok response) ∧
    Reading account key record q l g

theorem stable_replayBody (r : V1Response ⊕ (Uuid × ProofStatus × V1Response)) :
    Stable (discipline (S := schema) x.Inv) q (ReplayBody x q account key record body r) :=
  fun _ _ _ h hi hr hi' => ⟨h.1, stable_inTx steady_reading _ _ _ h.2 hi hr hi'⟩

/-- **The body**: the record is found, and its hash compared. -/
theorem spec_replayInTx {trustLevel fileHash hash : String}
    (hvalid : validateSubmitRequest body = true)
    (hhash : hash = requestHash x.state body.hashed) :
    (x.inTime q record.expiresAt).Spec q (Reading account key record q)
      (submitV1InTx x.state account key body trustLevel fileHash hash)
      (ReplayBody x q account key record body)
      fun err _ => replayOutcome x.state record body = .error err := by
  have hE : ∀ err, Steady (S := schema) x.Inv q fun _ =>
    replayOutcome x.state record body = .error err := fun _ => steady_const
  have hst : Stable (discipline (S := schema) x.Inv) q (Reading account key record q) :=
    stable_inTx steady_reading
  refine spec_bind hE (spec_replayLookup hE) fun found => spec_and fun hfound => ?_
  subst hfound
  have houtcome : replayOutcome x.state record body =
      if record.requestHash == hash then .ok record.responseJson else .error .conflict := by
    rw [replayOutcome, if_pos hvalid, hhash]
  refine spec_bind (M := fun _ l g => record.requestHash == hash ∧ Reading account key record q l g)
    hE (spec_require hst (fun _ _ h heq => ⟨heq, h⟩) fun _ _ _ hne => ?_) fun _ => spec_and
      fun heq => spec_pure hst fun _ _ h => ⟨⟨_, rfl, ?_⟩, h⟩
  · rw [houtcome, hne]
    rfl
  · rw [houtcome, if_pos heq]

/-- **A request whose record is there.** -/
theorem spec_replay : (x.inTime q record.expiresAt).Spec q
    (Outside (RecordFound account key record)) (submitV1Event x.state account key body)
    (fun response => Outside fun _ => replayOutcome x.state record body = .ok response)
    fun err _ => replayOutcome x.state record body = .error err := by
  have hE : ∀ err, Steady (S := schema) x.Inv q fun _ =>
    replayOutcome x.state record body = .error err := fun _ => steady_const
  have hfound : Stable (discipline (S := schema) x.Inv) q
      (Outside (RecordFound account key record)) := stable_outside steady_recordFound
  refine spec_bind (M := fun _ l g => validateSubmitRequest body = true ∧
    Outside (RecordFound account key record) l g) hE
      (spec_require hfound (fun _ _ h hv => ⟨hv, h⟩) fun _ _ _ hv => ?_) fun _ =>
        spec_and fun hvalid => ?_
  · rw [replayOutcome, if_neg (by simp [hv])]
  refine spec_bind hE (spec_replayCapabilities hE) fun capabilities => ?_
  refine spec_bind hE (spec_replayBegin hE) fun _ => ?_
  refine spec_bind hE (spec_orRollback (S := schema) stable_replayBody hE hE (fun _ _ h => h)
    (spec_replayInTx hvalid rfl)) fun r => spec_and fun hr => ?_
  obtain ⟨response, rfl, houtcome⟩ := hr
  exact spec_bind hE (spec_replayCommit hE) fun _ =>
    spec_pure (stable_outside steady_const) fun _ _ _ => houtcome

end Spec

section Runs

variable {y z : LedgerConfig} {q : Nat} {account : Uuid} {key : String} {record : IdempotencyRecord}
  {body : V1SubmitEventRequest}

/-- The runs in which request `q` is not disturbed. -/
abbrev ReachInTime (q : Nat) (expiresAt : Int) : LedgerConfig → LedgerConfig → Prop :=
  Reach ((system schema).restrict (undisturbed q expiresAt)) fun _ _ _ => True

/-- **While its record is active a request is answered from it**, whatever the others do. -/
theorem replay_reply (db₀ : Db)
    (hy : (Setting.all state requests db₀).Reach (start state requests db₀) y)
    (hq : requests q = .submitV1Event account key body)
    (hnew : y.procs q = ((requests q).run state, none))
    (hfound : RecordFound account key record y.shared)
    (hz : ReachInTime q record.expiresAt y z) {reply : Reply}
    (hreply : (z.procs q).1.result = some reply) :
    reply = .v1 (replayOutcome state record body) := by
  let x := Setting.all state requests db₀
  obtain ⟨hinv, hsafe⟩ := reach_safe (inv_start x) (safe_start x) hy
  have hrun : (x.inTime q record.expiresAt).Triple q (Outside (RecordFound account key record))
      ((requests q).run state) fun reply _ _ => reply = .v1 (replayOutcome state record body) := by
    rw [hq]
    refine triple_bind (spec_replay (x := x)) fun r => ?_
    cases r with
    | ok response =>
      exact triple_ret (stable_outside steady_const) fun _ _ h _ => congrArg Reply.v1 h.symm
    | error err =>
      exact triple_ret (stable_outside steady_const) fun _ _ h _ => congrArg Reply.v1 h.symm
  refine reach_result (F := fun reply _ _ => reply = .v1 (replayOutcome state record body)) hinv
    (fun p => (hsafe p).restrict) ?_ hz hreply
  rw [hnew]
  exact hrun none y.shared hfound hinv

/-- Once nobody else holds a lock, it is answered. -/
theorem replay_answered (expiresAt : Int) (hquiet : Quiet q z.shared) :
    ∃ z', ReachInTime q expiresAt z z' ∧ (z'.procs q).1.result.isSome = true := by
  refine Reach.exists_result (Φ := Quiet q) (fun call g l hg => ⟨trivial, ?_⟩) hquiet
  let ch : Choice := ⟨false, expiresAt - 1, Uuid.nil, none, true⟩
  obtain ⟨r, g', l', he, hg'⟩ := hg.exec (fun _ _ ch _ _ => effect_blocks (c := ch)) ch call l
  refine ⟨ch, r, g', l', ?_, hg'⟩
  change (if undisturbed q expiresAt q ch call g then exec (S := schema) q ch call g l else none) = _
  rw [if_pos ?_, he]
  cases call with
  | begin =>
    have htime : expiresAt - 1 < expiresAt := by omega
    simp [undisturbed, ch, htime]
  | commit | rollback | sql | ask => simp [undisturbed, ch]

end Runs

/-! ## Two bodies under one key -/

/-- Equal in every field, after normalisation. -/
def SameRequest (body body' : V1SubmitEventRequest) : Prop := body.normalized = body'.normalized

instance (body body' : V1SubmitEventRequest) : Decidable (SameRequest body body') :=
  inferInstanceAs (Decidable (body.normalized = body'.normalized))

/-- **What the API promises**: the stored response for the same body, a conflict for any other. -/
def AnswersSame (body body' : V1SubmitEventRequest) (stored : V1Response) (reply : Reply) : Prop :=
  if SameRequest body body' then reply = .v1 (.ok stored) else reply = .v1 (.error .conflict)

/-- The second body is valid, and one of the three fields that are hashed is different. -/
def ToldApart (body body' : V1SubmitEventRequest) : Prop :=
  validateSubmitRequest body' = true ∧ (body'.chainId ≠ body.chainId ∨
    body'.eventType ≠ body.eventType ∨
      normalizedFileHash body'.fileHash ≠ normalizedFileHash body.fileHash)

variable {account : Uuid} {key : String} {record : IdempotencyRecord}
  {body body' : V1SubmitEventRequest}

/-- The bytes of a body, as it is hashed. -/
def hashedText (body : V1SubmitEventRequest) : List UInt8 :=
  Lib.Text.asBytes (requestText body.hashed)

/-- The outcome for a second body, by what the two have in common. -/
theorem replayOutcome_stored (hs : Stored state account key body record db)
    (hsha : ¬ Collision state.sha [hashedText body, hashedText body']) :
    replayOutcome state record body' =
      if validateSubmitRequest body' = true then
        if body'.chainId = body.chainId ∧ body'.eventType = body.eventType ∧
          normalizedFileHash body'.fileHash = normalizedFileHash body.fileHash then
            .ok record.responseJson
        else .error .conflict
      else .error .invalidRequest := by
  have hrecord : record.requestHash = requestHash state body.hashed := hs.record.requestHash
  rw [replayOutcome, hrecord]
  refine if_congr Iff.rfl (if_congr ?_ rfl rfl) rfl
  rw [beq_iff_eq]
  constructor
  · intro hhash
    have hfields := requestHash_inj body.hashed body'.hashed hsha hhash
    simp only [V1SubmitEventRequest.hashed] at hfields
    exact ⟨hfields.1.symm, hfields.2.1.symm, hfields.2.2.symm⟩
  · rintro ⟨hc, ht, hf⟩
    simp only [requestHash, V1SubmitEventRequest.hashed, hc, ht, hf]

/-- **A replay answers only the same request, where the hash tells the bodies apart**: after the first
body is committed, the second is answered as promised if and only if it is the same, or it is valid
and differs in a field that is hashed. And it is answered, unless others hold locks. -/
theorem replay_answers_same_request (state : AppState) (requests : Nat → Request) (db₀ : Db)
    (p q : Nat) (account : Uuid) (key : String) (body body' : V1SubmitEventRequest)
    (hp : requests p = .submitV1Event account key body)
    (hq : requests q = .submitV1Event account key body') (y z : LedgerConfig)
    (hy : Reach (system schema) (fun _ _ _ => True) (start state requests db₀) y)
    (record : IdempotencyRecord) (hcommitted : record ∈ recordsOf (writesOf p y.shared.history))
    (hnew : y.procs q = ((requests q).run state, none))
    (hz : ReachInTime q record.expiresAt y z)
    (hsha : ¬ Collision state.sha [hashedText body, hashedText body']) :
    (∀ reply, (z.procs q).1.result = some reply →
      (AnswersSame body body' record.responseJson reply ↔
        SameRequest body body' ∨ ToldApart body body')) ∧
    (Quiet q z.shared →
      ∃ z', ReachInTime q record.expiresAt z z' ∧ (z'.procs q).1.result.isSome = true) := by
  have hx : (Setting.all state requests db₀).Reach (start state requests db₀) y := hy
  have hs : Stored state account key body record y.shared.db :=
    (ledger_reach hx).1.stored _ hp hcommitted
  refine ⟨fun reply hreply => ?_, replay_answered _⟩
  obtain rfl := replay_reply _ hx hq hnew ⟨hs.found, hs.account⟩ hz hreply
  rw [replayOutcome_stored hs hsha, AnswersSame, ToldApart]
  by_cases hsame : SameRequest body body'
  · -- the same body is valid, and nothing tells it apart
    have hvalid : validateSubmitRequest body' = true :=
      validateSubmitRequest_of_normalized hsame hs.valid
    obtain ⟨hc, hf, ht, -⟩ := V1SubmitEventRequest.mk.inj hsame
    rw [if_pos hsame, if_pos hvalid, if_pos ⟨hc.symm, ht.symm, hf.symm⟩]
    exact ⟨fun _ => Or.inl hsame, fun _ => rfl⟩
  · rw [if_neg hsame]
    split_ifs with hvalid hfields
    · -- valid, and told apart by nothing
      refine ⟨fun h => absurd h (by simp), ?_⟩
      rintro (h | ⟨-, h | h | h⟩)
      · exact absurd h hsame
      · exact absurd hfields.1 h
      · exact absurd hfields.2.1 h
      · exact absurd hfields.2.2 h
    · refine ⟨fun _ => Or.inr ⟨hvalid, ?_⟩, fun _ => rfl⟩
      rwa [not_and_or, not_and_or] at hfields
    · refine ⟨fun h => absurd h (by simp), ?_⟩
      rintro (h | ⟨h, -⟩)
      · exact absurd h hsame
      · exact absurd h hvalid

def sampleBody : V1SubmitEventRequest where
  chainId := Uuid.small 9
  fileHash := String.ofList (List.replicate 64 'a')
  eventType := "submission"
  eventId := none
  identitySignature := none

/-- Two requests under one key, the second with this body. -/
def sampleSecond (body' : V1SubmitEventRequest) (p : Nat) : Request :=
  .submitV1Event (Uuid.small 1) "key" (if p = 0 then sampleBody else body')

/-- The first is committed before the second begins. -/
theorem exists_sampleSecond {γ : Type} (body' : V1SubmitEventRequest) (f : LedgerConfig → γ) {c : γ}
    (hrun : (((start sampleState (sampleSecond body') (Db.empty sampleCapabilities [])).run
      (system schema) (fun _ _ _ => True) (sampleSteps 0 22 20 none)).bind fun y =>
        (y.run ((system schema).restrict (undisturbed 1 (recordExpiry 0))) (fun _ _ _ => True)
          (sampleSteps 1 4 21 none)).map fun z =>
            ((recordsOf (writesOf 0 y.shared.history)).map (·.expiresAt), f z)) =
              some ([recordExpiry 0], c)) :
    ∃ (y z : LedgerConfig) (record : IdempotencyRecord),
      Reach (system schema) (fun _ _ _ => True)
        (start sampleState (sampleSecond body') (Db.empty sampleCapabilities [])) y ∧
      record ∈ recordsOf (writesOf 0 y.shared.history) ∧
      y.procs 1 = ((sampleSecond body' 1).run sampleState, none) ∧
      ReachInTime 1 record.expiresAt y z ∧ f z = c := by
  obtain ⟨y, hy, hrest⟩ := Option.bind_eq_some_iff.mp hrun
  obtain ⟨z, hz, hfacts⟩ := Reach.exists_of_run hrest
  obtain ⟨hrecords, hf⟩ := Prod.mk.inj hfacts
  obtain ⟨record, hmem, hexpires⟩ := List.mem_map.mp (hrecords ▸ List.mem_cons_self :
    recordExpiry 0 ∈ (recordsOf (writesOf 0 y.shared.history)).map (·.expiresAt))
  refine ⟨y, z, record, .of_run hy, hmem, ?_, ?_, hf⟩
  · exact Config.procs_of_run hy (by simp [sampleSteps])
  · rw [hexpires]
    exact hz

/-- For another chain: a conflict. -/
theorem replay_answers_same_request_sampleRun :
    ∃ (z : LedgerConfig) (reply : Reply) (stored : V1Response), (z.procs 1).1.result = some reply ∧
      reply.conflict = true ∧
      (AnswersSame sampleBody { sampleBody with chainId := Uuid.small 10 } stored reply ↔
        SameRequest sampleBody { sampleBody with chainId := Uuid.small 10 } ∨
          ToldApart sampleBody { sampleBody with chainId := Uuid.small 10 }) := by
  obtain ⟨y, z, record, hy, hmem, hnew, hz, hreply⟩ := exists_sampleSecond
    { sampleBody with chainId := Uuid.small 10 } (fun z => (z.procs 1).1.result.map Reply.conflict)
      (c := some true) (by decide +kernel)
  obtain ⟨reply, hreply, hconflict⟩ := Option.map_eq_some_iff.mp hreply
  exact ⟨z, reply, _, hreply, hconflict, (replay_answers_same_request sampleState _ _ 0 1
    (Uuid.small 1) "key" _ _ rfl rfl y z hy record hmem hnew hz (by
      rw [Collision]
      decide +kernel)).1 reply hreply⟩

/-- **With another event id the second request gets the response to the first.** -/
theorem other_event_replayed :
    ∃ (y z : LedgerConfig) (record : IdempotencyRecord) (reply : Reply),
      Reach (system schema) (fun _ _ _ => True) (start sampleState
        (sampleSecond { sampleBody with eventId := some (Uuid.small 77) })
          (Db.empty sampleCapabilities [])) y ∧
      record ∈ recordsOf (writesOf 0 y.shared.history) ∧
      ReachInTime 1 record.expiresAt y z ∧ (z.procs 1).1.result = some reply ∧
      ¬ AnswersSame sampleBody { sampleBody with eventId := some (Uuid.small 77) }
        record.responseJson reply := by
  obtain ⟨y, z, record, hy, hmem, -, hz, hreply⟩ := exists_sampleSecond
    { sampleBody with eventId := some (Uuid.small 77) }
      (fun z => (z.procs 1).1.result.map Reply.conflict) (c := some false) (by decide +kernel)
  obtain ⟨reply, hreply, hconflict⟩ := Option.map_eq_some_iff.mp hreply
  refine ⟨y, z, record, reply, hy, hmem, hz, hreply, ?_⟩
  rw [AnswersSame, if_neg (by decide +kernel)]
  rintro rfl
  exact absurd hconflict (by decide)

end EvidentLedger.Ledger
