import EvidentLedger.Ledger.Replay
import EvidentLedger.Ledger.Subscription

/-!
# The billing gates before a request

`subscription_enforcement_middleware` (`src/middleware/subscription_enforcement.rs`) over
`src/service/subscription_enforcement.rs`: three statements on the pool before every write. The due
transitions of the subscription are applied, a `past_due` account is stopped, and so is one whose
usage has reached the limit of its plan. Only then does `submit_v1_event` look for the record of the
request's key, though a replay should be answered from its record alone (`docs/API.md:161-166`).

* `applyLazyBillingTransitions_ok`: after the due transitions the account has its `effectivePlan`.
* `middleware_ok_iff`: which writes pass.
* **`replay_wins_iff`**: a request with the hash of its active record is answered with the stored
  response if and only if its body is valid and its account passes the gates.
-/

namespace EvidentLedger.Ledger

open Lib.Interleave Lib.Transaction

/-! ## The gates -/

/-- `AccountBillingState`. -/
structure AccountBillingState where
  planName : String
  subscriptionStatus : SubscriptionStatus
  currentPeriodEnd : Option Int
  monthlyCommitsLimit : Option Int
  deriving DecidableEq

/-- `load_billing_state`. -/
def loadBillingState (accountId : Uuid) (b : Billing) : Except DbError AccountBillingState :=
  match b.accounts accountId with
  | some a =>
    match b.plan? a.tariffPlanId with
    | some plan => .ok ⟨plan.name, a.subscriptionStatus, a.currentPeriodEnd, plan.monthlyCommitsLimit⟩
    | none => .error .rowNotFound
  | none => .error .rowNotFound

/-- `write_blocked_by_subscription`. -/
def writeBlockedBySubscription (state : AccountBillingState) : Bool :=
  if state.planName == "free" then false else state.subscriptionStatus == .pastDue

/-- `COALESCE(um.server_commits, 0)` of the current month. -/
def currentUsage (now : Int) (accountId : Uuid) (db : Db) : Int :=
  ((db.usage? accountId (monthOf now)).map (·.serverCommits)).getD 0

/-- `usage_limit_exceeded`. -/
def usageLimitExceeded (now : Int) (accountId : Uuid) (b : Billing) (db : Db) :
    Except DbError Bool :=
  match b.accounts accountId with
  | some a =>
    match b.plan? a.tariffPlanId with
    | some plan => .ok (plan.monthlyCommitsLimit.any fun limit => currentUsage now accountId db ≥ limit)
    | none => .error .rowNotFound
  | none => .error .rowNotFound

/-- `is_read_method`. -/
def isReadMethod (method : String) : Bool := ["GET", "HEAD", "OPTIONS"].contains method

/-- `ApiError`, with the error that only the middleware returns. -/
inductive ServiceError where
  | api (err : ApiError)
  | paymentRequired
  deriving DecidableEq

/-- `subscription_enforcement_middleware` up to `next`: an error, or the tables it leaves. -/
def subscriptionEnforcementMiddleware (method : String) (now : Int) (accountId : Uuid) (db : Db)
    (b : Billing) : Except ServiceError Billing :=
  let isWrite := !isReadMethod method
  match applyLazyBillingTransitions now accountId b with
  | .error _ => .error (.api .internal)
  | .ok b =>
    match loadBillingState accountId b with
    | .error _ => .error (.api .internal)
    | .ok billing =>
      if isWrite && writeBlockedBySubscription billing then .error .paymentRequired
      else if isWrite then
        match usageLimitExceeded now accountId b db with
        | .ok true => .error (.api .usageLimitExceeded)
        | .ok false => .ok b
        | .error _ => .error (.api .internal)
      else .ok b

/-- The response to a request: of the middleware, or of the handler behind it. -/
def respond {α : Type} (gate : Except ServiceError Billing) (reply : Except ApiError α) :
    Except ServiceError α :=
  match gate with
  | .ok _ => reply.mapError .api
  | .error err => .error err

/-! ## Which writes pass -/

/-- **The account may write**: its plan after the due transitions is free, or the account is not past
due, and it has used less than the plan's limit this month. -/
def MayWrite (now : Int) (accountId : Uuid) (db : Db) (b : Billing) : Prop :=
  ∃ a plan, b.accounts accountId = some a ∧ effectivePlan now b a = some plan ∧
    (plan.name = "free" ∨ a.subscriptionStatus ≠ .pastDue) ∧
    ∀ limit, plan.monthlyCommitsLimit = some limit → currentUsage now accountId db < limit

variable {now : Int} {accountId : Uuid} {db : Db} {b : Billing} {a : AccountRow}

/-- **The account after the transitions**: it has the effective plan, and is past due if it was. -/
theorem applyLazyBillingTransitions_ok {b' : Billing} (ha : b.accounts accountId = some a)
    (h : applyLazyBillingTransitions now accountId b = .ok b') :
    ∃ a', b'.accounts accountId = some a' ∧ b'.plan? a'.tariffPlanId = effectivePlan now b a ∧
      (a'.subscriptionStatus = .pastDue ↔ a.subscriptionStatus = .pastDue) := by
  simp only [applyLazyBillingTransitions, ha] at h
  split_ifs at h with hdue
  · cases hplan : nextPlanId now b a with
    | none => rw [hplan] at h; exact absurd h (by simp)
    | some planId =>
      rw [hplan] at h
      obtain rfl := Except.ok.inj h
      refine ⟨_, Function.update_self _ _ _, by rw [effectivePlan, hplan]; rfl, ?_⟩
      simp only [lazyTransition]
      split_ifs with hcancel
      · simp only [AccountRow.cancelDue, Bool.and_eq_true, beq_iff_eq] at hcancel
        simp [hcancel.1]
      · exact Iff.rfl
  · obtain rfl := Except.ok.inj h
    rw [Bool.or_eq_true, not_or] at hdue
    exact ⟨a, ha, by rw [effectivePlan, nextPlanId, if_neg hdue.1, if_neg hdue.2]; rfl, Iff.rfl⟩

/-- They fail only where the plan is missing. -/
theorem applyLazyBillingTransitions_error {err : DbError}
    (h : applyLazyBillingTransitions now accountId b = .error err) :
    ∃ a, b.accounts accountId = some a ∧ effectivePlan now b a = none := by
  unfold applyLazyBillingTransitions at h
  split at h
  · rename_i a ha
    refine ⟨a, ha, ?_⟩
    split_ifs at h
    cases hplan : nextPlanId now b a with
    | none => rw [effectivePlan, hplan]; rfl
    | some planId => rw [hplan] at h; exact absurd h (by simp)
  · exact absurd h (by simp)

/-- The limit is not reached. -/
theorem usageLimitExceeded_eq {plan : TariffPlanRow} (ha : b.accounts accountId = some a)
    (hplan : b.plan? a.tariffPlanId = some plan) :
    usageLimitExceeded now accountId b db = .ok false ↔
      ∀ limit, plan.monthlyCommitsLimit = some limit → currentUsage now accountId db < limit := by
  simp only [usageLimitExceeded, ha, hplan, Except.ok.injEq]
  cases plan.monthlyCommitsLimit with
  | none => simp
  | some limit => simp

/-- The gates of a write, once the transitions are applied. -/
theorem middleware_of_plan {b' : Billing} {plan : TariffPlanRow}
    (happly : applyLazyBillingTransitions now accountId b = .ok b')
    (ha : b'.accounts accountId = some a) (hplan : b'.plan? a.tariffPlanId = some plan) :
    (∃ b'', subscriptionEnforcementMiddleware "POST" now accountId db b = .ok b'') ↔
      (plan.name = "free" ∨ a.subscriptionStatus ≠ .pastDue) ∧
        usageLimitExceeded now accountId b' db = .ok false := by
  have hwrite : isReadMethod "POST" = false := by decide
  simp only [subscriptionEnforcementMiddleware, happly, loadBillingState, ha, hplan, hwrite,
    Bool.not_false, Bool.true_and, if_true, writeBlockedBySubscription]
  by_cases hblocked : plan.name = "free" ∨ a.subscriptionStatus ≠ .pastDue
  · rw [if_neg ?_]
    · cases husage : usageLimitExceeded now accountId b' db with
      | error err => simp
      | ok reached => cases reached <;> simp [hblocked]
    · rcases hblocked with hfree | hstatus
      · simp [hfree]
      · simp [hstatus]
  · rw [not_or, not_not] at hblocked
    rw [if_pos (by simp [hblocked])]
    simp [hblocked]

/-- **A write passes the gates if and only if the account may write.** -/
theorem middleware_ok_iff :
    (∃ b', subscriptionEnforcementMiddleware "POST" now accountId db b = .ok b') ↔
      MayWrite now accountId db b := by
  cases ha : b.accounts accountId with
  | none =>
    simp [MayWrite, ha, subscriptionEnforcementMiddleware, applyLazyBillingTransitions,
      loadBillingState]
  | some a =>
    cases happly : applyLazyBillingTransitions now accountId b with
    | error err =>
      obtain ⟨a', ha', hplan⟩ := applyLazyBillingTransitions_error happly
      obtain rfl := Option.some.inj (ha'.symm.trans ha)
      simp [MayWrite, ha, hplan, subscriptionEnforcementMiddleware, happly]
    | ok b' =>
      obtain ⟨a', ha', hplan, hstatus⟩ := applyLazyBillingTransitions_ok ha happly
      cases heff : effectivePlan now b a with
      | none =>
        rw [heff] at hplan
        simp [MayWrite, ha, heff, subscriptionEnforcementMiddleware, happly, loadBillingState, ha',
          hplan]
      | some plan =>
        rw [heff] at hplan
        rw [middleware_of_plan happly ha' hplan, usageLimitExceeded_eq ha' hplan, Ne, hstatus]
        simp [MayWrite, ha, heff]

/-! ## Replays behind the gates -/

/-- **A replay wins over the billing gates where these let the request pass**: a request with the
hash of its active record is answered with the stored response if and only if its body is valid and
its account may write. And behind the gates it is answered, unless others hold locks. -/
theorem replay_wins_iff (state : AppState) (requests : Nat → Request) (db₀ : Db) (q : Nat)
    (account : Uuid) (key : String) (body : V1SubmitEventRequest)
    (hq : requests q = .submitV1Event account key body) (y z : LedgerConfig)
    (hy : Reach (system schema) (fun _ _ _ => True) (start state requests db₀) y)
    (hnew : y.procs q = ((requests q).run state, none)) (record : IdempotencyRecord)
    (hfound : RecordFound account key record y.shared)
    (hhash : record.requestHash = requestHash state body.hashed) (now : Int) (b : Billing)
    (hz : ReachInTime q record.expiresAt y z) :
    (∀ result, (z.procs q).1.result = some (.v1 result) →
      (respond (subscriptionEnforcementMiddleware "POST" now account y.shared.db b) result =
          .ok record.responseJson ↔
        validateSubmitRequest body = true ∧ MayWrite now account y.shared.db b)) ∧
    (Quiet q z.shared →
      ∃ z', ReachInTime q record.expiresAt z z' ∧ (z'.procs q).1.result.isSome = true) := by
  refine ⟨fun result hreply => ?_, replay_answered _⟩
  have hresult : result = replayOutcome state record body :=
    Reply.v1.inj (replay_reply db₀ hy hq hnew hfound hz hreply)
  rw [hresult, ← middleware_ok_iff, replayOutcome, hhash, beq_self_eq_true, if_pos rfl]
  cases subscriptionEnforcementMiddleware "POST" now account y.shared.db b with
  | error err => simp [respond]
  | ok b' =>
    simp only [respond]
    split_ifs with hvalid
    · simp [Except.mapError, hvalid]
    · simp [Except.mapError, hvalid]

/-- A reply to a v1 request. -/
def Reply.isV1 : Reply → Bool
  | .v1 _ => true
  | _ => false

/-- An account on the free plan, with this limit. -/
def sampleBilling (limit : Int) : Billing where
  accounts _ := some ⟨Uuid.small 100, none, .none, none⟩
  tariffPlans := [⟨Uuid.small 100, "free", some limit⟩]

/-- The same body again, far from the limit. -/
theorem replay_wins_iff_sampleRun :
    ∃ (y z : LedgerConfig) (record : IdempotencyRecord) (result : Except ApiError V1Response),
      (z.procs 1).1.result = some (.v1 result) ∧
      (respond (subscriptionEnforcementMiddleware "POST" 0 (Uuid.small 1) y.shared.db
          (sampleBilling 100)) result = .ok record.responseJson ↔
        validateSubmitRequest sampleBody = true ∧
          MayWrite 0 (Uuid.small 1) y.shared.db (sampleBilling 100)) := by
  obtain ⟨y, z, record, hy, hmem, hnew, hz, hreply⟩ := exists_sampleSecond sampleBody
    (fun z => (z.procs 1).1.result.map Reply.isV1) (c := some true) (by decide +kernel)
  obtain ⟨reply, hreply, hv1⟩ := Option.map_eq_some_iff.mp hreply
  have hx : (Setting.all sampleState (sampleSecond sampleBody) (Db.empty sampleCapabilities [])).Reach
    (start sampleState (sampleSecond sampleBody) (Db.empty sampleCapabilities [])) y := hy
  have hs := (ledger_reach hx).1.stored sampleBody rfl hmem
  cases reply with
  | chain | event => exact absurd hv1 (by simp [Reply.isV1])
  | v1 result =>
    exact ⟨y, z, record, result, hreply, (replay_wins_iff sampleState _ _ 1 (Uuid.small 1) "key"
      sampleBody rfl y z hy hnew record ⟨hs.found, hs.account⟩ hs.record.requestHash 0
        (sampleBilling 100) hz).1 result hreply⟩

/-- **After the last commit that the plan allows, its replay is refused.** -/
theorem replay_blocked :
    ∃ (y : LedgerConfig) (record : IdempotencyRecord), Reach (system schema) (fun _ _ _ => True)
        (start sampleState (sampleSecond sampleBody) (Db.empty sampleCapabilities [])) y ∧
      RecordFound (Uuid.small 1) "key" record y.shared ∧ 0 < record.expiresAt ∧
      record.requestHash = requestHash sampleState sampleBody.hashed ∧
      ∀ result, respond (subscriptionEnforcementMiddleware "POST" 0 (Uuid.small 1) y.shared.db
        (sampleBilling 1)) result ≠ .ok record.responseJson := by
  have hrun : ((start sampleState (sampleSecond sampleBody) (Db.empty sampleCapabilities [])).run
      (system schema) (fun _ _ _ => True) (sampleSteps 0 22 20 none)).map (fun y =>
        ((recordsOf (writesOf 0 y.shared.history)).map (·.expiresAt),
          currentUsage 0 (Uuid.small 1) y.shared.db)) = some ([recordExpiry 0], 1) := by
    decide +kernel
  obtain ⟨y, hy, hfacts⟩ := Reach.exists_of_run hrun
  obtain ⟨hrecords, husage⟩ := Prod.mk.inj hfacts
  obtain ⟨record, hmem, hexpires⟩ := List.mem_map.mp (hrecords ▸ List.mem_cons_self :
    recordExpiry 0 ∈ (recordsOf (writesOf 0 y.shared.history)).map (·.expiresAt))
  have hx : (Setting.all sampleState (sampleSecond sampleBody) (Db.empty sampleCapabilities [])).Reach
    (start sampleState (sampleSecond sampleBody) (Db.empty sampleCapabilities [])) y := hy
  have hs := (ledger_reach hx).1.stored sampleBody rfl hmem
  refine ⟨y, record, hy, ⟨hs.found, hs.account⟩, by rw [hexpires]; decide,
    hs.record.requestHash, fun result hresult => ?_⟩
  have hpass : MayWrite 0 (Uuid.small 1) y.shared.db (sampleBilling 1) := by
    rw [← middleware_ok_iff]
    cases hgate : subscriptionEnforcementMiddleware "POST" 0 (Uuid.small 1) y.shared.db
        (sampleBilling 1) with
    | ok b' => exact ⟨b', rfl⟩
    | error err => rw [hgate] at hresult; exact absurd hresult (by simp [respond])
  obtain ⟨a, plan, ha, hplan, -, hlimit⟩ := hpass
  obtain rfl := Option.some.inj ha
  obtain rfl := Option.some.inj hplan
  have hless := hlimit 1 rfl
  rw [husage] at hless
  exact absurd hless (by decide)

end EvidentLedger.Ledger
