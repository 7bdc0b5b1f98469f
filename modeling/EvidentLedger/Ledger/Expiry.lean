import EvidentLedger.Ledger.Decision

/-!
# Expired idempotency records

The lookup of a record honours its expiry (`src/api/v1/idempotency/postgres.rs:33-58`), the unique
constraints do not: `idempotency_records (account_id, idempotency_key)`
(`migrations/20260628192818_init.sql`) still holds the row when the new one is inserted (`:60-91`),
and `events.uniq_idem` the event. So under an expired key a request is a conflict, or on the chain of
the first event an internal error, after the whole transaction has been worked through.

* `Admissible`: nothing but its key can refuse the request.
* `submitVerdict_expired`: under an expired key every request is refused.
* `submitVerdict_refused`: a request that is refused anyway is refused in the same way under any two
  keys without an active record.
* **`expired_key_like_fresh`**: a request under an expired key has the same outcome as under a fresh
  one if and only if it is refused anyway.
-/

namespace EvidentLedger.Ledger

open Lib.Interleave Lib.Transaction

/-! ## What refuses a request -/

/-- **Nothing but its key can refuse the request**: its body is valid, its chain has a sequence left,
its identity key signs, the plan and the counters of the month have room, its event id is not taken. -/
structure Admissible (state : AppState) (db : Db) (now : Int) (account : Uuid)
    (body : V1SubmitEventRequest) (capabilities : AccountCapabilities) : Prop where
  valid : validateSubmitRequest body = true
  plan : db.capabilities account = some capabilities
  sequence : db.sequenceLeft body.chainId = true
  identity : ∃ fields, identityVerdict state db account capabilities body.identitySignature
    (plannedHash state db body (body.eventId.getD Uuid.nil)) = .ok fields
  commits : capabilities.canCommit (db.usageOf account (monthOf now)).1 = true
  stamps : capabilities.canUseTsa (db.usageOf account (monthOf now)).2 = true
  tsa : capabilities.tsaAvailable = true
  newId : db.idTaken body.eventId = false
  counters : (db.usageOf account (monthOf now)).1 < maxInt32 ∧
    (db.usageOf account (monthOf now)).2 < maxInt32

/-- A key that neither a record of the account nor an event has. -/
def NeverUsed (db : Db) (account : Uuid) (key : String) : Prop :=
  db.record? account key = none ∧ ∀ e ∈ db.events, e.idempotencyKey ≠ key

section Verdicts

variable {state : AppState} {db : Db} {now : Int} {account : Uuid} {key key' : String}
  {body : V1SubmitEventRequest} {capabilities : AccountCapabilities}

theorem NeverUsed.hasKey (h : NeverUsed db account key) (c : Uuid) : db.hasKey c key = false :=
  List.any_eq_false.mpr fun e he heq =>
    h.2 e (List.mem_filter.mp he).1 (by simpa using heq)

theorem NeverUsed.activeRecord? (h : NeverUsed db account key) :
    db.activeRecord? account key now = none := by
  rw [Db.activeRecord?, h.1]
  rfl

theorem activeRecord?_expired {record : IdempotencyRecord}
    (hrecord : db.record? account key = some record) (hexpired : record.expiresAt ≤ now) :
    db.activeRecord? account key now = none := by
  simp [Db.activeRecord?, hrecord, hexpired]

/-- **Under a fresh key an admissible request is granted.** -/
theorem submitVerdict_admissible (h : Admissible state db now account body capabilities)
    (hwrite : db.mayWrite account body.chainId = true) (hfresh : NeverUsed db account key) :
    submitVerdict state db now account key body = .ok none := by
  obtain ⟨fields, hfields⟩ := h.identity
  simp [submitVerdict, bodyVerdict, entryVerdict, accessVerdict, planVerdict, insertVerdict,
    usageVerdict, keysVerdict, countVerdict, recordVerdict, h.valid, h.plan, h.sequence, hfields,
    h.commits, h.stamps, h.tsa, h.newId, h.counters, hwrite, hfresh.activeRecord?, hfresh.hasKey,
    hfresh.1, Except.mapError]

/-- What ends with a refusal is refused. -/
theorem bind_refused {α β : Type} {verdict : Except ApiError α} {next : α → Except ApiError β}
    (h : ∀ a, ∃ e, next a = .error e) : ∃ e, (verdict >>= next) = .error e := by
  cases verdict with
  | ok a => exact h a
  | error e => exact ⟨e, rfl⟩

/-- **Under an expired key every request is refused.** -/
theorem submitVerdict_expired (state : AppState) (body : V1SubmitEventRequest)
    {record : IdempotencyRecord} (hrecord : db.record? account key = some record)
    (hexpired : record.expiresAt ≤ now) :
    ∃ e, submitVerdict state db now account key body = .error e := by
  refine bind_refused fun _ => ?_
  cases db.capabilities account with
  | none => exact ⟨_, rfl⟩
  | some capabilities =>
    have hentry : ∃ e, entryVerdict state db now account capabilities key body = .error e := by
      refine bind_refused fun _ => bind_refused fun _ => bind_refused fun _ => bind_refused fun _ => ?_
      exact ⟨.conflict, by rw [recordVerdict, hrecord]; rfl⟩
    obtain ⟨e, he⟩ := hentry
    refine ⟨e, ?_⟩
    simp only [bodyVerdict, activeRecord?_expired hrecord hexpired, he, error_bind]

theorem usageVerdict_ok {usage : Int × Int} (h : usageVerdict capabilities usage = .ok ()) :
    capabilities.canCommit usage.1 = true ∧ capabilities.canUseTsa usage.2 = true ∧
      capabilities.tsaAvailable = true := by
  unfold usageVerdict at h
  cases hcommits : capabilities.canCommit usage.1 <;>
    cases hstamps : capabilities.canUseTsa usage.2 <;>
    simp only [hcommits, hstamps, demand_true, demand_false, ok_bind, error_bind, reduceCtorEq] at h
  exact ⟨rfl, rfl, demand_ok h⟩

/-- An insertion is refused under every key, or under none but for the key. -/
theorem insertVerdict_refused (capabilities : AccountCapabilities) (idTaken : Bool) (usage : Int × Int)
    (h : ¬ (usageVerdict capabilities usage = .ok () ∧ idTaken = false ∧ usage.1 < maxInt32 ∧
      usage.2 < maxInt32)) :
    ∃ e, ∀ keyTaken, (insertVerdict capabilities idTaken keyTaken usage).mapError mapLedgerError =
      .error e := by
  unfold insertVerdict
  cases husage : usageVerdict capabilities usage with
  | error e => exact ⟨mapLedgerError e, fun _ => rfl⟩
  | ok _ =>
    refine ⟨.internal, fun keyTaken => ?_⟩
    cases idTaken with
    | true => rfl
    | false =>
      have hfull : ¬ (usage.1 < maxInt32 ∧ usage.2 < maxInt32) :=
        fun hroom => h ⟨husage, rfl, hroom⟩
      rw [countVerdict, ← Bool.decide_and, decide_eq_false hfull]
      cases keyTaken <;> rfl

/-- **What is refused for another reason is refused under any key.** -/
theorem submitVerdict_refused (h : ∀ capabilities, ¬ Admissible state db now account body capabilities)
    (hkey : db.activeRecord? account key now = none)
    (hkey' : db.activeRecord? account key' now = none) :
    submitVerdict state db now account key body = submitVerdict state db now account key' body := by
  unfold submitVerdict
  cases hvalid : validateSubmitRequest body with
  | false => rfl
  | true =>
    cases hplan : db.capabilities account with
    | none => rfl
    | some capabilities =>
      simp only [demand_true, ok_bind, bodyVerdict, hkey, hkey', entryVerdict, planVerdict]
      -- the checks that do not read the key, in the order of the source
      cases hsequence : db.sequenceLeft body.chainId with
      | false => rfl
      | true =>
        cases hfields : identityVerdict state db account capabilities body.identitySignature
          (plannedHash state db body (body.eventId.getD Uuid.nil)) with
        | error e => rfl
        | ok fields =>
          have hrefused : ¬ (usageVerdict capabilities (db.usageOf account (monthOf now)) = .ok () ∧
              db.idTaken body.eventId = false ∧ (db.usageOf account (monthOf now)).1 < maxInt32 ∧
              (db.usageOf account (monthOf now)).2 < maxInt32) := by
            rintro ⟨husage, hid, hroom⟩
            obtain ⟨hcommits, hstamps, htsa⟩ := usageVerdict_ok husage
            exact h capabilities ⟨hvalid, hplan, hsequence, ⟨fields, hfields⟩, hcommits, hstamps,
              htsa, hid, hroom⟩
          obtain ⟨e, he⟩ := insertVerdict_refused capabilities _ _ hrefused
          simp only [he]
          rfl

end Verdicts

/-! ## Two runs -/

/-- The status of a reply to `POST /v1/events`. -/
def statusOf : Except ApiError V1Response → Nat
  | .ok _ => 200
  | .error e => e.statusCode

/-- An event row without its key. -/
def EventRecord.withoutKey (e : EventRecord) : EventRecord := { e with idempotencyKey := "" }

/-- **The same outcome**: the status, the events but for their key, and the usage. -/
structure SameOutcome (result result' : Except ApiError V1Response) (db db' : Db) : Prop where
  status : statusOf result = statusOf result'
  events : db.events.map EventRecord.withoutKey = db'.events.map EventRecord.withoutKey
  usage : db.usageMonthly = db'.usageMonthly

instance (db : Db) (account : Uuid) (key : String) : Decidable (NeverUsed db account key) :=
  inferInstanceAs (Decidable (_ ∧ _))

theorem ApiError.statusCode_ne_ok (e : ApiError) : e.statusCode ≠ 200 := by
  cases e <;> decide

/-- **An expired record is not without effect**: in any state, a request under a key whose record has
expired has the same outcome as under a fresh key if and only if it is refused for another reason than
its key. And both are answered, unless others hold locks. -/
theorem expired_key_like_fresh (state : AppState) (p : Nat) (account : Uuid) (key key' : String)
    (body : V1SubmitEventRequest) (now : Int) (y y' : LedgerConfig)
    (hy : y.procs p = ((Request.submitV1Event account key body).run state, none))
    (hy' : y'.procs p = ((Request.submitV1Event account key' body).run state, none))
    (hshared : y'.shared = y.shared) (record : IdempotencyRecord)
    (hrecord : Db.record? y.shared.db account key = some record) (hexpired : record.expiresAt ≤ now)
    (hwrite : Db.mayWrite y.shared.db account body.chainId = true)
    (hfresh : NeverUsed y.shared.db account key') :
    (∀ z z' result result', ReachAlone p now y z → ReachAlone p now y' z' →
      (z.procs p).1.result = some (.v1 result) → (z'.procs p).1.result = some (.v1 result') →
        (SameOutcome result result' z.shared.db z'.shared.db ↔
          ¬ ∃ capabilities, Admissible state y.shared.db now account body capabilities)) ∧
    (Quiet p y.shared → (∃ id, Db.isNewId y.shared.db id = true) →
      (∃ z result, ReachAlone p now y z ∧ (z.procs p).1.result = some (.v1 result)) ∧
        ∃ z' result', ReachAlone p now y' z' ∧ (z'.procs p).1.result = some (.v1 result')) := by
  refine ⟨fun z z' result result' hz hz' hresult hresult' => ?_, fun hquiet ⟨id, hid⟩ =>
    ⟨answered_alone now hy hquiet hid, answered_alone now hy' (hshared ▸ hquiet) (hshared ▸ hid)⟩⟩
  have hstale := submit_alone hy hz hresult
  have hnew := submit_alone hy' hz' hresult'
  obtain ⟨e, he⟩ := submitVerdict_expired state body hrecord hexpired
  rw [hshared] at hnew
  unfold Concluded at hstale hnew
  rw [he] at hstale
  obtain ⟨rfl, hdb, -⟩ := hstale
  constructor
  · rintro hsame ⟨capabilities, hadm⟩
    rw [submitVerdict_admissible hadm hwrite hfresh] at hnew
    obtain ⟨response, -, rfl, -⟩ := hnew
    exact e.statusCode_ne_ok hsame.status
  · intro hrefused
    rw [← submitVerdict_refused (fun capabilities hadm => hrefused ⟨capabilities, hadm⟩)
      (activeRecord?_expired hrecord hexpired) hfresh.activeRecord?, he] at hnew
    obtain ⟨rfl, hdb', -⟩ := hnew
    exact ⟨rfl, by rw [hdb, hdb'], by rw [hdb, hdb']⟩

/-- The first request commits; the second is for another chain, a day later. -/
def sampleStale (key : String) (p : Nat) : Request :=
  if p = 0 then .submitV1Event (Uuid.small 1) "key" sampleBody
  else .submitV1Event (Uuid.small 1) key { sampleBody with chainId := Uuid.small 10 }

/-- Steps of the second request when the record of the first has expired. -/
def sampleDayLater (count : Nat) : List (Nat × Choice) :=
  List.replicate count (1, ⟨false, recordExpiry 0, Uuid.small 21, none, true⟩)

/-- The other request in its place, in the same state. -/
def sampleInstead (y : LedgerConfig) (key : String) : LedgerConfig :=
  ⟨y.shared, fun p => ((sampleStale key p).run sampleState, none)⟩

/-- What the reply to a v1 request reports. -/
def Reply.status : Reply → Option Nat
  | .v1 result => some (statusOf result)
  | _ => none

theorem Reply.exists_of_status {reply : Option Reply} {status : Nat}
    (h : reply.bind Reply.status = some status) :
    ∃ result, reply = some (.v1 result) ∧ statusOf result = status := by
  obtain ⟨reply, rfl, hstatus⟩ := Option.bind_eq_some_iff.mp h
  cases reply with
  | chain | event => exact absurd hstatus (by simp [Reply.status])
  | v1 result => exact ⟨result, rfl, Option.some.inj hstatus⟩

/-- **A day later the key is a conflict, and a fresh key is not.** -/
theorem exists_sampleStale :
    ∃ (y z z' : LedgerConfig) (record : IdempotencyRecord) (result result' : Except ApiError V1Response),
      Reach (system schema) (fun _ _ _ => True)
        (start sampleState (sampleStale "key") (Db.empty sampleCapabilities [])) y ∧
      y.procs 1 = ((sampleStale "key" 1).run sampleState, none) ∧
      Db.record? y.shared.db (Uuid.small 1) "key" = some record ∧
      record.expiresAt ≤ recordExpiry 0 ∧
      Db.mayWrite y.shared.db (Uuid.small 1) (Uuid.small 10) = true ∧
      NeverUsed y.shared.db (Uuid.small 1) "fresh" ∧
      ReachAlone 1 (recordExpiry 0) y z ∧
      ReachAlone 1 (recordExpiry 0) (sampleInstead y "fresh") z' ∧
      (z.procs 1).1.result = some (.v1 result) ∧ (z'.procs 1).1.result = some (.v1 result') ∧
      statusOf result = 409 ∧ statusOf result' = 200 := by
  have hrun : ((start sampleState (sampleStale "key") (Db.empty sampleCapabilities [])).run
      (system schema) (fun _ _ _ => True) (sampleSteps 0 22 20 none)).bind (fun y =>
        (y.run ((system schema).restrict (calmly 1 (recordExpiry 0) y.shared.db)) (Solo 1)
          (sampleDayLater 22)).bind fun z =>
            ((sampleInstead y "fresh").run ((system schema).restrict
              (calmly 1 (recordExpiry 0) y.shared.db)) (Solo 1) (sampleDayLater 25)).map fun z' =>
                ((Db.record? y.shared.db (Uuid.small 1) "key").map (·.expiresAt),
                  Db.mayWrite y.shared.db (Uuid.small 1) (Uuid.small 10),
                  decide (NeverUsed y.shared.db (Uuid.small 1) "fresh"),
                  (z.procs 1).1.result.bind Reply.status, (z'.procs 1).1.result.bind Reply.status)) =
      some (some (recordExpiry 0), true, true, some 409, some 200) := by decide +kernel
  obtain ⟨y, hy, hrest⟩ := Option.bind_eq_some_iff.mp hrun
  obtain ⟨z, hz, hrest⟩ := Option.bind_eq_some_iff.mp hrest
  obtain ⟨z', hz', hfacts⟩ := Reach.exists_of_run hrest
  simp only [Prod.mk.injEq, decide_eq_true_eq] at hfacts
  obtain ⟨hrecord, hwrite, hfresh, hstale, hnew⟩ := hfacts
  obtain ⟨record, hrecord, hexpires⟩ := Option.map_eq_some_iff.mp hrecord
  obtain ⟨result, hresult, hstatus⟩ := Reply.exists_of_status hstale
  obtain ⟨result', hresult', hstatus'⟩ := Reply.exists_of_status hnew
  exact ⟨y, z, z', record, result, result', .of_run hy, Config.procs_of_run hy
    (by simp [sampleSteps]), hrecord, hexpires.le, hwrite, hfresh, .of_run hz, hz', hresult, hresult',
    hstatus, hstatus'⟩

theorem expired_key_like_fresh_sampleRun :
    ∃ (y z z' : LedgerConfig) (result result' : Except ApiError V1Response),
      statusOf result = 409 ∧ statusOf result' = 200 ∧
      (SameOutcome result result' z.shared.db z'.shared.db ↔ ¬ ∃ capabilities,
        Admissible sampleState y.shared.db (recordExpiry 0) (Uuid.small 1)
          { sampleBody with chainId := Uuid.small 10 } capabilities) := by
  obtain ⟨y, z, z', record, result, result', -, hnew, hrecord, hexpired, hwrite, hfresh, hz, hz',
    hresult, hresult', hstatus, hstatus'⟩ := exists_sampleStale
  exact ⟨y, z, z', result, result', hstatus, hstatus', (expired_key_like_fresh sampleState 1
    (Uuid.small 1) "key" "fresh" { sampleBody with chainId := Uuid.small 10 } (recordExpiry 0) y
    (sampleInstead y "fresh") hnew rfl rfl record hrecord hexpired hwrite hfresh).1 z z' result result'
    hz hz' hresult hresult'⟩

/-- **An expired record decides the outcome**: a conflict where a fresh key commits an event. -/
theorem expired_key_conflicts :
    ∃ (y z z' : LedgerConfig) (record : IdempotencyRecord) (result result' : Except ApiError V1Response),
      Reach (system schema) (fun _ _ _ => True)
        (start sampleState (sampleStale "key") (Db.empty sampleCapabilities [])) y ∧
      y.procs 1 = ((sampleStale "key" 1).run sampleState, none) ∧
      Db.record? y.shared.db (Uuid.small 1) "key" = some record ∧
      record.expiresAt ≤ recordExpiry 0 ∧
      Db.mayWrite y.shared.db (Uuid.small 1) (Uuid.small 10) = true ∧
      NeverUsed y.shared.db (Uuid.small 1) "fresh" ∧
      ReachAlone 1 (recordExpiry 0) y z ∧
      ReachAlone 1 (recordExpiry 0) (sampleInstead y "fresh") z' ∧
      (z.procs 1).1.result = some (.v1 result) ∧ (z'.procs 1).1.result = some (.v1 result') ∧
      ¬ SameOutcome result result' z.shared.db z'.shared.db := by
  obtain ⟨y, z, z', record, result, result', hy, hnew, hrecord, hexpired, hwrite, hfresh, hz, hz',
    hresult, hresult', hstatus, hstatus'⟩ := exists_sampleStale
  refine ⟨y, z, z', record, result, result', hy, hnew, hrecord, hexpired, hwrite, hfresh, hz, hz',
    hresult, hresult', fun hsame => ?_⟩
  rw [hsame.status, hstatus'] at hstatus
  exact absurd hstatus (by decide)

end EvidentLedger.Ledger
