import EvidentLedger.Ledger.Verdict

/-!
# A v1 request on its own

The rest of `submit_v1_event` (`src/api/v1/submit_event.rs:141-288`) with the tables to itself: the
insertion of the event (`service/ledger.rs:258-370`), its signature, its idempotency record, and what
stands around the transaction.

* `Metered`, `Appended`: the view with the usage row of the month, and with the event.
* `decides_submitV1InTx`: the transaction ends as `bodyVerdict` says.
* `Concluded`: what a request has done when it ends.
* **`submit_alone`**: the reply is that of `submitVerdict`, and a refused request leaves the tables as
  they are. `answered_alone`: unless others hold locks, there is a reply.
-/

namespace EvidentLedger.Ledger

open Lib.Interleave Lib.Transaction

/-! ## The event

`decides_…` says of a part of the transaction what it ends with, from the tables `db` at its beginning,
and what its view is where it does not fail. Nobody else steps, so the view is `db` with the writes of
the part before. -/

/-- The view once the usage of the month is locked. -/
structure Metered (db : Db) (account c : Uuid) (month : Int) (view : Db) : Prop where
  chain : view.chain? c = some ⟨c, db.head? c, some account⟩
  events : view.events = db.events
  usage : view.usage? account month = some (db.meter account month)
  records : view.idempotencyRecords = db.idempotencyRecords
  capabilities : view.capabilities = db.capabilities

/-- The view with an event of the chain. -/
structure Appended (db : Db) (c : Uuid) (sequence : Int64) (view : Db) : Prop where
  event : ∃ e ∈ view.eventsOf c, e.sequence = sequence
  records : view.idempotencyRecords = db.idempotencyRecords
  capabilities : view.capabilities = db.capabilities

section Insert

variable {p : Nat} {now : Int} {db : Db} {h : History schema} {account c : Uuid}
  {capabilities : AccountCapabilities} {ε : Type} {Pre : Db → Prop}

/-- The usage row is all that the meter writes. -/
theorem Meter.records {row? : Option UsageRow} {month commits stamps : Int} {log : List Write}
    (h : Meter row? account month commits stamps log) :
    (replay (S := schema) log db).idempotencyRecords = db.idempotencyRecords := by
  cases h <;> rfl

/-- A statement that does not fail. -/
theorem decides_total {s : Sql} {f : DbError → ε} {Post : s.Res → Db → Prop}
    (hs : s.onPool = false)
    (hok : ∀ view waits ch a ks ws, Pre view → s.effect waits ch now view = some (.ok (a, ks, ws)) →
      Post a (replay (S := schema) ws view))
    (herr : ∀ view waits ch e, Pre view → s.effect waits ch now view ≠ some (.error e)) :
    Decides p now db h Pre (.ok ()) (statement f s) fun _ => Post :=
  decides_sql hs (fun view waits ch a ks ws hpre he => ⟨(), rfl, hok view waits ch a ks ws hpre he⟩)
    fun view waits ch e hpre he => absurd he (herr view waits ch e hpre)

/-- The month's usage row is inserted where the account has none yet. -/
theorem decides_insertUsage (hcap : db.capabilities account = some capabilities) :
    Decides p now db h (Opened db account c) (.ok ()) (query (.insertUsage account))
      fun _ _ => Metered db account c (monthOf now) := by
  -- the view has the chain's writes of this transaction, none of which is on the usage
  have husage : ∀ view, Opened db account c view →
      view.usage? account (monthOf now) = db.usage? account (monthOf now) := fun view hview => by
    rw [Db.usage?, hview.usage, Db.usage?]
  refine decides_total rfl ?_ ?_
  · intro view waits ch r ks ws hview he
    have hmeter : Meter (view.usage? account (monthOf now)) account (monthOf now)
        (db.usageOf account (monthOf now)).1 (db.usageOf account (monthOf now)).2 ws := by
      rw [husage view hview, Db.usageOf]
      simp only [Sql.effect, husage view hview, hview.capabilities, hcap] at he
      cases hrow : db.usage? account (monthOf now) with
      | some row =>
        simp only [hrow] at he
        obtain ⟨-, -, rfl⟩ := reads_ok he
        exact .row rfl
      | none =>
        simp only [hrow, Option.isNone_some, Bool.false_eq_true, if_false] at he
        obtain ⟨-, -, -, rfl⟩ := locking_ok he
        exact .first rfl
    refine ⟨?_, ?_, hmeter.usage?, ?_, (capabilities_replay ws view).trans hview.capabilities⟩
    · rw [← hview.chain]
      exact (same_of_keys (k := .chain c) (fun w hw => by simp [(hmeter.keys w hw).1]) view).1
    · exact (replay_offEvents (fun w hw => (hmeter.keys w hw).2) view).trans hview.events
    · exact hmeter.records.trans hview.records
  -- the account is one of the table, so the foreign key holds and nothing is left to fail
  · intro view waits ch e hview he
    simp only [Sql.effect, husage view hview, hview.capabilities, hcap, Option.isNone_some,
      Bool.false_eq_true, if_false] at he
    split at he
    · exact absurd he reads_error
    · exact absurd he locking_error

/-- **The usage row** is read and locked: it is what the account has used of the month. -/
theorem decides_selectUsageForUpdate :
    Decides p now db h (Metered db account c (monthOf now)) (.ok ())
      (query (.selectUsageForUpdate account)) fun _ r view =>
        r = db.usageOf account (monthOf now) ∧ Metered db account c (monthOf now) view := by
  refine decides_total rfl ?_ ?_
  · intro view waits ch r ks ws hview he
    obtain ⟨row, hrow, rfl, -, rfl⟩ := selectUsageForUpdate_ok he
    rw [hview.usage] at hrow
    obtain rfl := Option.some.inj hrow
    exact ⟨rfl, hview⟩
  · intro view waits ch e hview he
    simp only [Sql.effect, hview.usage] at he
    exact absurd he locking_error

/-- **The quotas.** -/
theorem decides_reserveUsage (hcap : db.capabilities account = some capabilities) :
    Decides p now db h (Opened db account c)
      (usageVerdict capabilities (db.usageOf account (monthOf now))) (reserveUsage account)
      fun _ _ => Metered db account c (monthOf now) := by
  refine computes_bind (o := .ok ()) (n := fun _ => usageVerdict capabilities _)
    (decides_insertUsage hcap) fun _ _ _ => ?_
  refine computes_bind (o := .ok ()) (n := fun _ => usageVerdict capabilities _)
    decides_selectUsageForUpdate fun _ usage _ => computes_and ?_
  rintro rfl
  refine computes_bind (o := .ok ()) (n := fun _ => usageVerdict capabilities _)
    (decides_selectCapabilities hcap) fun _ r _ => computes_and ?_
  rintro rfl
  -- the commits, the timestamps and the availability of the TSA, in the order of `usageVerdict`
  refine computes_bind decides_require fun _ _ _ => computes_and fun _ => ?_
  refine computes_bind decides_require fun _ _ _ => computes_and fun _ => ?_
  exact computes_post decides_require fun _ _ _ hpost => hpost.2

/-- No event of the chain has the next sequence. -/
theorem nextSequence_new (hleft : db.sequenceLeft c = true) :
    (db.eventsOf c).any (·.sequence == db.nextSequence c) = false := by
  have hmax : maxSequence (db.eventsOf c) + 1 ≤ Int64.maxValue.toInt := of_decide_eq_true hleft
  have hmin := maxSequence_bound (db.eventsOf c)
  have hbound : Int64.maxValue.toInt = 2 ^ 63 - 1 := rfl
  have hnext : (db.nextSequence c).toInt = maxSequence (db.eventsOf c) + 1 :=
    Int64.toInt_ofInt_of_le (by rw [maxSequence]; omega) (by omega)
  refine List.any_eq_false.mpr fun e he heq => ?_
  rw [beq_iff_eq] at heq
  -- an event of the chain is at most at the highest sequence
  have hle : e.sequence.toInt ≤ maxSequence (db.eventsOf c) := by
    have hmem := List.mem_map_of_mem (f := fun e : EventRecord => e.sequence.toInt) he
    cases hm : ((db.eventsOf c).map (·.sequence.toInt)).max? with
    | none => exact absurd hmem (by simp [List.max?_eq_none_iff.mp hm])
    | some m =>
      rw [maxSequence, hm]
      exact (List.max?_eq_some_iff.mp hm).2 _ hmem
  -- an event with the next sequence would stand above the highest one
  rw [heq] at hle
  omega

/-- **The insertion.** -/
theorem decides_insertEvent {e : EventRecord} (hc : e.chainId = c)
    (hsequence : e.sequence = db.nextSequence c) (hleft : db.sequenceLeft c = true) :
    Decides p now db h (Metered db account c (monthOf now))
      (keysVerdict (db.hasEvent e.eventId) (db.hasKey c e.idempotencyKey)) (query (.insertEvent e))
      fun _ _ view => view.usage? account (monthOf now) = some (db.meter account (monthOf now)) ∧
        Appended db c e.sequence view := by
  subst hc
  have htaken : ∀ view, Metered db account e.chainId (monthOf now) view →
      view.hasEvent e.eventId = db.hasEvent e.eventId ∧
        view.eventsOf e.chainId = db.eventsOf e.chainId := fun view hview =>
    ⟨by rw [Db.hasEvent, hview.events, Db.hasEvent], Db.eventsOf_of_events hview.events _⟩
  refine decides_sql rfl ?_ ?_
  · intro view waits ch r ks ws hview he
    obtain ⟨rfl, hid, hkey, -⟩ := insertEvent_ok he
    rw [(htaken view hview).1] at hid
    rw [(htaken view hview).2] at hkey
    have hunused : db.hasKey e.chainId e.idempotencyKey = false := by
      simpa [Db.hasKey] using hkey
    refine ⟨(), by rw [hid, hunused]; rfl, hview.usage, ⟨{ e with createdAt := now }, ?_, rfl⟩,
      hview.records, hview.capabilities⟩
    rw [replay_write, replay_none, eventsOf_insertEvent]
    simp
  · intro view waits ch err hview he
    simp only [Sql.effect, htaken view hview] at he
    obtain ⟨t, hfind, rfl⟩ := claiming_error he
    rw [hsequence, nextSequence_new hleft, ← Db.hasKey] at hfind
    cases hid : db.hasEvent e.eventId with
    -- an id that is taken answers first, then a key of the chain
    | true =>
      obtain rfl : _ = t := by simpa [hid] using hfind
      rfl
    | false =>
      cases hkey : db.hasKey e.chainId e.idempotencyKey with
      | true =>
        obtain rfl : _ = t := by simpa [hid, hkey] using hfind
        rfl
      | false => exact absurd hfind (by simp [hid, hkey])

/-- The chain's head is set, whatever is known of the other tables. -/
theorem decides_updateHead {eventId : Uuid} {Pre : Db → Prop}
    (hPre : ∀ view, Pre view → Pre ((Write.setHead c eventId).apply view)) :
    Decides p now db h Pre (.ok ()) (query (.updateHead eventId c)) fun _ _ => Pre := by
  refine decides_total rfl ?_ ?_
  · intro view waits ch r ks ws hview he
    simp only [Sql.effect] at he
    split at he
    · obtain ⟨-, -, -, rfl⟩ := locking_ok he
      exact hPre view hview
    · obtain ⟨-, -, rfl⟩ := reads_ok he
      exact hview
  · intro view waits ch e hview he
    simp only [Sql.effect] at he
    split at he
    · exact absurd he locking_error
    · exact absurd he reads_error

/-- **The commit is counted**, where the counter has room for it. -/
theorem decides_updateUsage {sequence : Int64} :
    Decides p now db h (fun view => view.usage? account (monthOf now) =
        some (db.meter account (monthOf now)) ∧ Appended db c sequence view)
      (countVerdict (db.usageOf account (monthOf now))) (query (.updateUsage account))
      fun _ _ => Appended db c sequence := by
  refine decides_sql rfl ?_ ?_
  · rintro view waits ch r ks ws ⟨husage, happended⟩ he
    simp only [Sql.effect, husage, Db.meter] at he
    split_ifs at he with hcount
    · obtain ⟨-, -, -, rfl⟩ := locking_ok he
      refine ⟨(), ?_, happended.event, happended.records, happended.capabilities⟩
      rw [countVerdict, ← Bool.decide_and, decide_eq_true hcount]
      rfl
    · exact absurd he (by simp)
  -- the counter would overflow: the statement itself fails
  · rintro view waits ch e ⟨husage, -⟩ he
    simp only [Sql.effect, husage, Db.meter] at he
    split_ifs at he with hcount
    · exact absurd he locking_error
    · obtain rfl := Except.error.inj (Option.some.inj he)
      rw [countVerdict, ← Bool.decide_and, decide_eq_false hcount]
      rfl

/-- **`insert_event_in_tx`.** -/
theorem decides_insertEventInTx (req : SubmitEventRequest) {id : Uuid}
    (hcap : db.capabilities account = some capabilities) (hid : req.eventId = some id)
    (hleft : db.sequenceLeft req.chainId = true) :
    Decides p now db h (Opened db account req.chainId)
      (insertVerdict capabilities (db.hasEvent id) (db.hasKey req.chainId req.idempotencyKey)
        (db.usageOf account (monthOf now))) (insertEventInTx account req)
      fun _ r view => r = (id, db.nextSequence req.chainId) ∧
        Appended db req.chainId (db.nextSequence req.chainId) view := by
  -- the checks in the order of the source: the quotas, the head, the sequence, the insertion, and
  -- the counter last
  have hplan : planVerdict db req.chainId = .ok () := by rw [planVerdict, hleft]; rfl
  refine computes_bind (decides_reserveUsage hcap) fun _ _ _ => ?_
  refine computes_bind (o := .ok ()) (n := fun _ => keysVerdict _ _ >>= fun _ =>
    countVerdict _) (decides_selectHead fun view hview => hview.chain) fun _ head _ =>
      computes_and fun _ => ?_
  refine computes_bind (o := .ok ()) (n := fun _ => keysVerdict _ _ >>= fun _ =>
    countVerdict _) (hplan ▸ decides_selectNextSequence fun _ hview => Metered.events hview)
      fun _ sequence _ => computes_and ?_
  rintro ⟨-, rfl⟩
  refine computes_bind (o := .ok ()) (n := fun _ => keysVerdict _ _ >>= fun _ =>
    countVerdict _) decides_eventIdOrNew fun _ id' _ => computes_and fun hnamed => ?_
  obtain rfl : id' = id := by rwa [hid] at hnamed
  refine computes_bind (decides_insertEvent (e := req.row id' (Option.getD head Uuid.nil)
    (db.nextSequence req.chainId) 0) rfl rfl hleft) fun _ _ _ => ?_
  refine computes_bind (o := .ok ()) (n := fun _ => countVerdict _)
    (decides_updateHead fun view hview => ⟨hview.1, hview.2.event, hview.2.records,
      hview.2.capabilities⟩) fun _ _ _ => ?_
  rw [← bind_pure (countVerdict _)]
  exact computes_bind decides_updateUsage fun _ _ _ => computes_pure fun _ hview => ⟨rfl, hview⟩

end Insert

/-! ## The signature

The event is in the prefix that is signed, so the snapshot has a root and a signature of its own; what
it says of the proof's status is the only thing that the reply takes from it. -/

section Sign

variable {state : AppState} {p : Nat} {now : Int} {db : Db} {h : History schema} {c : Uuid}

/-- Where a signature verifies under its key, the event is anchored. -/
def SignsAnchored (state : AppState) (status : ProofStatus) : Prop :=
  state.ed.Correct → status = .anchored

/-- **`sign_event_in_tx`.** The prefix that is signed ends with the event, so it is not empty. -/
theorem decides_signEvent {id : Uuid} {sequence : Int64} :
    Decides p now db h (Appended db c sequence) (.ok ()) (signEvent state c id sequence)
      fun _ snapshot view => SignsAnchored state (deriveProofStatus snapshot.context) ∧
        view.idempotencyRecords = db.idempotencyRecords ∧ view.capabilities = db.capabilities := by
  refine computes_bind (o := .ok ()) (n := fun _ => .ok ())
    (M := fun _ snapshot view => SignsAnchored state (deriveProofStatus snapshot.context) ∧
      Appended db c sequence view) (computes_bind (o := .ok ()) (n := fun _ => .ok ())
        (M := fun _ events view => events ≠ [] ∧ Appended db c sequence view)
        (decides_total rfl ?_ ?_) fun _ events _ => computes_and fun hne =>
          computes_pure fun view hview =>
            ⟨fun hed => buildProofSnapshot_anchored hed state.signer hne, hview⟩)
    fun _ snapshot _ => computes_and fun hsnapshot => ?_
  -- the event of this sequence is one of the prefix
  · intro view waits ch events ks ws hview he
    obtain ⟨rfl, rfl⟩ := selectEventPrefix_ok he
    obtain ⟨e, hmem, hsequence⟩ := hview.event
    refine ⟨List.ne_nil_of_mem (List.mem_map_of_mem (f := EventRecord.toRow) (a := e) ?_), hview⟩
    rw [orderBySequence, List.mem_insertionSort, List.mem_filter]
    exact ⟨hmem, by simp [hsequence]⟩
  · exact fun view waits ch e _ => reads_error
  · refine computes_bind (o := .ok ()) (n := fun _ => .ok ())
      (M := fun _ _ (view : Db) => view.idempotencyRecords = db.idempotencyRecords ∧
        view.capabilities = db.capabilities) (decides_total rfl ?_ ?_) fun _ _ _ =>
          computes_pure fun view hview => ⟨hsnapshot, hview⟩
    · intro view waits ch r ks ws hview he
      simp only [Sql.effect] at he
      split at he
      · obtain ⟨-, -, -, rfl⟩ := locking_ok he
        exact ⟨hview.records, hview.capabilities⟩
      · obtain ⟨-, -, rfl⟩ := reads_ok he
        exact ⟨hview.records, hview.capabilities⟩
    · intro view waits ch e hview he
      simp only [Sql.effect] at he
      split at he
      · exact absurd he locking_error
      · exact absurd he reads_error

end Sign

/-! ## A v1 request

`Settled` relates the verdict of the transaction to what its program hands on: a stored response with no
write, or the response of an event that was added.

The transaction first looks the idempotency key up. A record that is active decides it, and otherwise
the event is planned, inserted, signed and recorded, each part with its own verdict. -/

/-- The response to a new event. -/
structure Granted (state : AppState) (db : Db) (body : V1SubmitEventRequest) (trustLevel : String)
    (response : V1Response) : Prop where
  named : Named db body.eventId response.eventId
  chainId : response.chainId = body.chainId
  sequence : response.sequence = db.nextSequence body.chainId
  proofStatus : state.ed.Correct → response.proofStatus = ProofStatus.anchored.asStr
  trustLevel : response.trustLevel = trustLevel

/-- The end of the transaction, for its verdict. -/
def Settled (state : AppState) (db : Db) (body : V1SubmitEventRequest) (trustLevel : String) :
    Option V1Response → V1Response ⊕ (Uuid × ProofStatus × V1Response) → Prop
  | some stored, .inl response => response = stored
  | none, .inr (_, _, response) => Granted state db body trustLevel response
  | _, _ => False

section V1

variable {state : AppState} {p : Nat} {now : Int} {db : Db} {h : History schema} {account : Uuid}
  {capabilities : AccountCapabilities} {key : String} {body : V1SubmitEventRequest}

/-- An id that is not named is not taken. -/
theorem Named.idTaken {eventId : Option Uuid} {id : Uuid} (hid : Named db eventId id) :
    db.hasEvent id = db.idTaken eventId := by
  cases eventId with
  | some eventId =>
    obtain rfl : id = eventId := hid
    rfl
  | none => exact hid

/-- A signature is for a named id. -/
theorem identityVerdict_planned (hvalid : validateSubmitRequest body = true) {id : Uuid}
    (hid : Named db body.eventId id) :
    identityVerdict state db account capabilities body.identitySignature
        (plannedHash state db body id) =
      identityVerdict state db account capabilities body.identitySignature
        (plannedHash state db body (body.eventId.getD Uuid.nil)) := by
  -- the hash depends on the id, and only a signature looks at the hash
  cases hsig : body.identitySignature with
  | none => rfl
  | some identity =>
    cases hevent : body.eventId with
    | none => exact absurd hvalid (by simp [validateSubmitRequest, hsig, hevent])
    | some eventId =>
      rw [hevent] at hid
      obtain rfl : id = eventId := hid
      rfl

/-- **The idempotency record.** Only its account and key can be taken: the id is new. -/
theorem decides_insertInTx {record : IdempotencyRecord} (haccount : record.accountId = account)
    (hkey : record.idempotencyKey = key) (hcap : db.capabilities account = some capabilities)
    (hnew : db.idempotencyRecords.any (·.id == record.id) = false) :
    Decides p now db h (fun view => view.idempotencyRecords = db.idempotencyRecords ∧
        view.capabilities = db.capabilities) (recordVerdict db account key) (insertInTx record)
      fun _ _ _ => True := by
  subst haccount hkey
  -- in every view of this transaction the account's record is the one of the tables it began with
  have heffect : ∀ (view : Db) (waits : Key → Bool) (ch : Choice),
      view.idempotencyRecords = db.idempotencyRecords ∧ view.capabilities = db.capabilities →
        (Sql.insertRecord record).effect waits ch now view =
          claiming waits [(.recordId record.id, "idempotency_records_pkey", false),
            (.record record.accountId record.idempotencyKey, "uniq_idempotency_account_key",
              (db.record? record.accountId record.idempotencyKey).isSome)] [] ()
              [.insertRecord record] := by
    rintro view waits ch ⟨hrecords, hcapabilities⟩
    simp only [Sql.effect, hcapabilities, hcap, Db.record?, hrecords, hnew, Option.isNone_some,
      Bool.false_eq_true, if_false]
    rfl
  refine decides_sql rfl ?_ ?_
  · intro view waits ch r ks ws hview he
    rw [heffect view waits ch hview] at he
    obtain ⟨htaken, -⟩ := claiming_ok he
    obtain ⟨-, hnone, -⟩ := htaken _ (List.mem_cons_of_mem _ List.mem_cons_self)
    refine ⟨(), ?_, trivial⟩
    rw [recordVerdict, Option.isNone_iff_eq_none.mpr (by simpa using hnone)]
    rfl
  · intro view waits ch e hview he
    rw [heffect view waits ch hview] at he
    obtain ⟨t, hfind, rfl⟩ := claiming_error he
    cases hrecord : db.record? record.accountId record.idempotencyKey with
    | none => exact absurd hfind (by simp [hrecord])
    | some found =>
      obtain rfl : _ = t := by simpa [hrecord] using hfind
      rw [recordVerdict, hrecord]
      rfl

/-- **A new event.** -/
theorem decides_insertV1InTx (hvalid : validateSubmitRequest body = true)
    (hcap : db.capabilities account = some capabilities) {trustLevel hash : String} :
    Decides p now db h (fun view => view = db)
      (entryVerdict state db now account capabilities key body)
      (insertV1InTx state account key body trustLevel (normalizedFileHash body.fileHash) hash)
      fun _ r _ => Granted state db body trustLevel r.2.2 := by
  refine computes_bind (computes_mapErr (decides_ensureChainAccessInTx hcap)) fun _ _ _ => ?_
  refine computes_bind (computes_mapErr decides_planNextEvent) fun _ plan _ => computes_and ?_
  rintro ⟨hleft, hplan⟩
  have hhash : buildLeaf state.sha plan.sequence plan.eventId plan.parentEventId
      (normalizedFileHash body.fileHash) = plannedHash state db body plan.eventId := by
    rw [hplan.sequence, hplan.parent]
    rfl
  rw [← identityVerdict_planned hvalid hplan.named, ← hhash, ← hplan.named.idTaken]
  refine computes_bind (decides_identityFields hcap) fun _ fields _ => ?_
  have hinsert : Decides p now db h (Opened db account body.chainId) _ _ _ :=
    decides_insertEventInTx ⟨body.chainId, normalizedFileHash body.fileHash, key, none,
      some plan.eventId, fields.map (·.1), fields.map (·.2.1), fields.map (·.2.2)⟩ hcap rfl hleft
  refine computes_bind (computes_mapErr hinsert) fun _ inserted _ => computes_and ?_
  rintro rfl
  refine computes_bind (o := .ok ()) (n := fun _ => recordVerdict db account key)
    (computes_mapErr decides_signEvent) fun _ snapshot _ => computes_and fun hanchored => ?_
  refine computes_bind (o := .ok ()) (n := fun _ => recordVerdict db account key)
    (decides_question (Q := fun _ => True) fun _ _ _ => trivial) fun _ requestId _ =>
      computes_and fun _ => ?_
  refine computes_bind (o := .ok ()) (n := fun _ => recordVerdict db account key)
    (decides_question (Q := fun _ => True) fun _ _ _ => trivial) fun _ time _ =>
      computes_and fun _ => ?_
  refine computes_bind (o := .ok ()) (n := fun _ => recordVerdict db account key)
    (decides_question (a := .newUuid) (Q := fun id => db.idempotencyRecords.any (·.id == id) = false)
      fun ch g hadm => ?_) fun _ id _ => computes_and fun hnew => ?_
  -- the id of the record is drawn: a calm run draws one that no row has
  · simp only [calmly, Db.isNewId, bne_self_eq_false, Bool.false_or, Bool.and_eq_true,
      Bool.not_eq_true'] at hadm
    exact hadm.2.2
  · rw [← bind_pure (recordVerdict db account key)]
    refine computes_bind (decides_insertInTx rfl rfl hcap hnew) fun _ _ _ => computes_pure fun _ _ => ?_
    exact ⟨hplan.named, rfl, rfl, fun hed => congrArg ProofStatus.asStr (hanchored hed), rfl⟩

/-- **The transaction.** -/
theorem decides_submitV1InTx (hvalid : validateSubmitRequest body = true)
    (hcap : db.capabilities account = some capabilities) {trustLevel : String} :
    Decides p now db h (fun view => view = db)
      (bodyVerdict state db now account capabilities key body)
      (submitV1InTx state account key body trustLevel (normalizedFileHash body.fileHash)
        (requestHash state body.hashed))
      fun v r view => Settled state db body trustLevel v r ∧ (v.isSome = true → view = db) := by
  refine computes_bind (o := .ok ())
    (n := fun _ => bodyVerdict state db now account capabilities key body)
    (M := fun _ found view => found = db.activeRecord? account key now ∧ view = db)
    (decides_total rfl ?_ ?_) fun _ found _ => computes_and fun hfound => ?_
  · rintro view waits ch r ks ws rfl he
    rw [Db.activeRecord?]
    simp only [Sql.effect] at he
    cases hrecord : view.record? account key with
    | none =>
      simp only [hrecord] at he
      obtain ⟨rfl, -, rfl⟩ := reads_ok he
      exact ⟨rfl, rfl⟩
    | some record =>
      simp only [hrecord] at he
      split_ifs at he with hactive
      · obtain ⟨-, rfl, -, rfl⟩ := locking_ok he
        exact ⟨by simp [Option.filter, hactive], rfl⟩
      · obtain ⟨rfl, -, rfl⟩ := reads_ok he
        exact ⟨by simp [Option.filter, hactive], rfl⟩
  · rintro view waits ch e rfl he
    simp only [Sql.effect] at he
    split at he
    · split_ifs at he
      · exact absurd he locking_error
      · exact absurd he reads_error
    · exact absurd he reads_error
  · unfold bodyVerdict
    -- a record that is active decides everything: its request hash is compared, and it is answered
    rw [← hfound]
    cases found with
    | some record =>
      exact computes_bind decides_require fun _ _ _ => computes_pure fun _ hpost =>
        ⟨rfl, fun _ => hpost.2⟩
    | none =>
      exact computes_bind (decides_insertV1InTx hvalid hcap) fun _ _ _ =>
        computes_pure fun _ hgranted => ⟨hgranted, fun hsome => absurd hsome (by simp)⟩

/-- **What a request has done** when it ends with this result. -/
def Concluded (state : AppState) (db : Db) (h : History schema) (now : Int) (account : Uuid)
    (key : String) (body : V1SubmitEventRequest) (result : Except ApiError V1Response)
    (g : Shared schema) : Prop :=
  match submitVerdict state db now account key body with
  | .error e => result = .error e ∧ g.db = db ∧ g.history = h
  | .ok (some stored) => result = .ok stored ∧ g.db = db
  | .ok none => ∃ response capabilities, result = .ok response ∧
      db.capabilities account = some capabilities ∧
        Granted state db body (trustLevelFromPlan capabilities.planName) response

/-- A check before the transaction touches nothing. -/
theorem alone_require {b : Bool} {e : ApiError} {Pre : Local schema → Shared schema → Prop} :
    Alone ((system schema).restrict (calmly p now db)) p Pre (require b e : Program schema _ _).run
      fun r l g => r = demand b e ∧ Pre l g := by
  cases b with
  | true => exact alone_ret fun _ _ hpre => ⟨rfl, hpre⟩
  | false => exact alone_ret fun _ _ hpre => ⟨rfl, hpre⟩

/-- The capabilities of an account, or none. -/
def CapabilitiesRead (db : Db) (account : Uuid) : Except ApiError AccountCapabilities → Prop
  | .ok capabilities => db.capabilities account = some capabilities
  | .error e => db.capabilities account = none ∧ e = .internal

/-- The capabilities are read on the pool, before the transaction. -/
theorem alone_capabilities :
    Alone ((system schema).restrict (calmly p now db)) p (Idle db h)
      (queryV1 (.selectCapabilities account)).run
      fun r l g => CapabilitiesRead db account r ∧ Idle db h l g := by
  refine alone_read (S := schema) rfl (fun _ _ hadm => calmly_fails hadm) ?_ ?_
  · intro waits ch r ks ws he
    have he : (Sql.selectCapabilities account).effect waits ch ch.time db = some (.ok (r, ks, ws)) := he
    obtain ⟨hcap, rfl⟩ := selectCapabilities_ok he
    exact ⟨rfl, hcap⟩
  · intro waits ch e he
    have he : (Sql.selectCapabilities account).effect waits ch ch.time db = some (.error e) := he
    simp only [Sql.effect] at he
    split at he
    · exact absurd he reads_error
    · exact ⟨‹_›, rfl⟩

/-- What follows the commit has no part in the result. -/
theorem alone_lift {Q : Prop} {prog : Action Unit} :
    Alone ((system schema).restrict (calmly p now db)) p (fun _ _ => Q)
      (ExceptT.lift prog : Program schema ApiError Unit).run fun r _ _ => r = .ok () ∧ Q :=
  triple_bind alone_any fun _ => alone_ret fun _ _ hq => ⟨rfl, hq⟩

/-- The inside of the transaction, for its verdict. -/
theorem alone_transaction (hvalid : validateSubmitRequest body = true)
    (hcap : db.capabilities account = some capabilities) {trustLevel : String} :
    Alone ((system schema).restrict (calmly p now db)) p (At now db h [])
      (orRollback (submitV1InTx state account key body trustLevel
        (normalizedFileHash body.fileHash) (requestHash state body.hashed))).run
      (Ends now db h (fun r log => ∃ v, bodyVerdict state db now account capabilities key body = .ok v ∧
        Settled state db body trustLevel v r ∧ (v.isSome = true → replay (S := schema) log db = db))
        fun e => bodyVerdict state db now account capabilities key body = .error e) :=
  triple_pre (fun _ _ hat _ => ⟨[], rfl, hat⟩)
    (body_orRollback (decides_submitV1InTx hvalid hcap))

/-- **`submit_v1_event`, with the tables to itself.** -/
theorem alone_submitV1Event :
    Alone ((system schema).restrict (calmly p now db)) p (Idle db h)
      (submitV1Event state account key body).run
      fun r _ g => Concluded state db h now account key body r g := by
  refine alone_then alone_require (fun _ => triple_and fun hvalid => ?_) ?_
  swap
  -- not valid: the error is answered before anything is read
  · rintro e l g ⟨hvalid, hidle⟩
    unfold Concluded submitVerdict
    rw [← hvalid]
    exact ⟨rfl, hidle.db, hidle.history⟩
  replace hvalid := demand_ok hvalid.symm
  refine alone_then alone_capabilities (fun capabilities => triple_and fun hcap => ?_) ?_
  swap
  -- no account with this id: that error, too, is outside the transaction
  · rintro e l g ⟨⟨hnone, rfl⟩, hidle⟩
    unfold Concluded submitVerdict
    rw [hvalid, hnone]
    exact ⟨rfl, hidle.db, hidle.history⟩
  replace hcap : db.capabilities account = some capabilities := hcap
  have hverdict : submitVerdict state db now account key body =
      bodyVerdict state db now account capabilities key body := by
    rw [submitVerdict, hvalid, hcap]
    rfl
  unfold Concluded
  rw [hverdict]
  refine alone_then (alone_begin fun ch g hadm => ?_) (fun _ => triple_and fun _ =>
    alone_then (alone_transaction hvalid hcap) (fun r => ?_) ?_) ?_
  · refine ⟨calmly_fails hadm, ?_⟩
    simp only [calmly, bne_self_eq_false, Bool.false_or, Bool.and_eq_true,
      decide_eq_true_eq] at hadm
    exact hadm.2
  · cases r with
    -- a replay: the commit has nothing to write, and the reply is the stored one
    | inl response =>
      refine triple_pre (P := fun l g => ∃ log, (bodyVerdict state db now account capabilities key
        body = .ok (some response) ∧ replay (S := schema) log db = db) ∧ At now db h log l g) ?_
        (alone_then (alone_commit (P := fun view => bodyVerdict state db now account capabilities
          key body = .ok (some response) ∧ view = db) fun _ _ hadm => calmly_fails hadm)
          (fun _ => alone_ret ?_) ?_)
      · rintro l g ⟨log, ⟨v, hv, hsettled, hsome⟩, hat⟩ -
        cases v with
        | none => exact hsettled.elim
        | some stored =>
          obtain rfl : response = stored := hsettled
          exact ⟨log, ⟨hv, hsome rfl⟩, hat⟩
      · rintro l g ⟨-, hv, hdb⟩
        rw [hv]
        exact ⟨rfl, hdb⟩
      · rintro e l g ⟨hr, -⟩
        exact absurd hr (by simp)
    -- a new event: the commit, and behind it what follows it, which can change neither the reply
    -- nor what was committed
    | inr r =>
      obtain ⟨eventId, status, response⟩ := r
      let Q := bodyVerdict state db now account capabilities key body = .ok none ∧
        Granted state db body (trustLevelFromPlan capabilities.planName) response
      refine triple_pre (P := fun l g => ∃ log, Q ∧ At now db h log l g) ?_
        (alone_then (alone_commit (P := fun _ => Q) fun _ _ hadm => calmly_fails hadm)
          (fun _ => triple_and fun _ => alone_then alone_lift (fun _ => triple_and fun _ =>
            alone_then alone_lift (fun _ => alone_ret ?_) ?_) ?_) ?_)
      · rintro l g ⟨log, ⟨v, hv, hsettled, -⟩, hat⟩ -
        cases v with
        | none => exact ⟨log, ⟨hv, hsettled⟩, hat⟩
        | some stored => exact hsettled.elim
      · rintro l g ⟨-, hv, hgranted⟩
        rw [hv]
        exact ⟨response, capabilities, rfl, hcap, hgranted⟩
      all_goals
        rintro e l g ⟨hr, -⟩
        exact absurd hr (by simp)
  -- the transaction was refused: it is rolled back, and with it everything it wrote
  · rintro e l g ⟨hv, hdb, hhistory⟩
    rw [hv]
    exact ⟨rfl, hdb, hhistory⟩
  · rintro e l g ⟨hr, -⟩
    exact absurd hr (by simp)

end V1

/-- The runs in which only request `p` steps, and begins at this time. -/
def ReachAlone (p : Nat) (now : Int) (y z : LedgerConfig) : Prop :=
  Reach ((system schema).restrict (calmly p now y.shared.db)) (Solo p) y z

section Alone

variable {state : AppState} {p : Nat} {now : Int} {account : Uuid} {key : String}
  {body : V1SubmitEventRequest} {y z : LedgerConfig}

/-- A v1 request that has ended has a v1 reply, and has concluded. -/
theorem reply_alone (hnew : y.procs p = ((Request.submitV1Event account key body).run state, none))
    (hz : ReachAlone p now y z) {reply : Reply} (hreply : (z.procs p).1.result = some reply) :
    ∃ result, reply = .v1 result ∧ Concluded state y.shared.db y.shared.history now account key body
      result z.shared := by
  have hrun : Alone ((system schema).restrict (calmly p now y.shared.db)) p
      (Idle y.shared.db y.shared.history) (y.procs p).1 fun reply _ g => ∃ result,
        reply = .v1 result ∧ Concluded state y.shared.db y.shared.history now account key body
          result g := by
    rw [hnew]
    exact triple_bind alone_submitV1Event fun r =>
      alone_ret fun l g hconcluded => ⟨r, rfl, hconcluded⟩
  exact hrun.reach ⟨by rw [hnew], rfl, rfl⟩ hz hreply

/-- **A v1 request with the tables to itself**, from any configuration. -/
theorem submit_alone (hnew : y.procs p = ((Request.submitV1Event account key body).run state, none))
    (hz : ReachAlone p now y z) {result : Except ApiError V1Response}
    (hresult : (z.procs p).1.result = some (.v1 result)) :
    Concluded state y.shared.db y.shared.history now account key body result z.shared := by
  obtain ⟨result', hreply, hconcluded⟩ := reply_alone hnew hz hresult
  rwa [Reply.v1.inj hreply]

/-- Unless another holds a lock, it is answered. -/
theorem answered_alone (now : Int)
    (hnew : y.procs p = ((Request.submitV1Event account key body).run state, none))
    (hquiet : Quiet p y.shared) {id : Uuid} (hid : Db.isNewId y.shared.db id = true) :
    ∃ z result, ReachAlone p now y z ∧ (z.procs p).1.result = some (.v1 result) := by
  have hrun : ∃ z, ReachAlone p now y z ∧ (z.procs p).1.result.isSome = true := by
    refine Reach.exists_result (Φ := Quiet p) (fun call g l hg => ⟨rfl, ?_⟩) hquiet
    -- a choice with which no call fails and none of them waits
    let ch : Choice := ⟨false, now, id, none, true⟩
    obtain ⟨r, g', l', he, hg'⟩ := hg.exec (fun _ _ ch _ _ => effect_blocks (c := ch)) ch call l
    refine ⟨ch, r, g', l', ?_, hg'⟩
    change (if calmly p now y.shared.db p ch call g then exec (S := schema) p ch call g l
      else none) = _
    rw [if_pos ?_, he]
    cases call with
    | begin | commit | rollback | sql => simp [calmly, ch]
    | ask a =>
      cases a with
      | newUuid => simp [calmly, ch, hid]
      | utcNow | timestamp | onProofAnchored => simp [calmly, ch]
  obtain ⟨z, hz, hsome⟩ := hrun
  obtain ⟨reply, hreply⟩ := Option.isSome_iff_exists.mp hsome
  obtain ⟨result, rfl, -⟩ := reply_alone hnew hz hreply
  exact ⟨z, result, hz, hreply⟩

end Alone

end EvidentLedger.Ledger
