import EvidentLedger.Paddle.Serial

/-!
# The life of a subscription

What becomes of the billing columns of an account in a sequence of events and lazy transitions
(`src/paddle/processor.rs:439-590`, `src/service/subscription_enforcement.rs:17-60`), with any
priorities of the plans and at any times.

* `planAfterPeriod_iff`: an event about a plan leaves the account with this plan after the period, but
  for one of the same priority as the current plan, which leaves what was scheduled.
* **`plan_event_decides_iff`** is the same of every turn of every sequence.
* `Serial.rests`: between two turns that change an account it rests.
* **`cancellation_ends_free_iff`**: a cancellation whose period is over ends on the free plan if and only
  if no plan was scheduled; else the scheduled plan is taken up and stays.
* `applyLazyBillingTransitions_later`: a transition that was looked at earlier is the same later.
  **`lazy_billing_once`**: so nothing depends on when an account is looked at, and no transition is
  carried out twice.
-/

namespace EvidentLedger.Ledger

/-! ## Looking at an account -/

/-- The plan of the account after the current period. -/
def AccountRow.planAfterPeriod (a : AccountRow) : Uuid := a.pendingTariffPlanId.getD a.tariffPlanId

variable {now later : Int} {accountId : Uuid} {b b' : Billing} {a : AccountRow} {planId : Uuid}

/-- A period that is over is over later. -/
theorem periodOver_mono (h : a.periodOver now = true) (hle : now ≤ later) :
    a.periodOver later = true := by
  unfold AccountRow.periodOver at h ⊢
  cases hend : a.currentPeriodEnd with
  | none =>
    rw [hend] at h
    exact absurd h (by simp)
  | some periodEnd =>
    rw [hend] at h
    simp only [decide_eq_true_eq] at h ⊢
    omega

theorem periodOver_of_due (h : (a.pendingDue now || a.cancelDue now) = true) :
    a.periodOver now = true := by
  simp only [AccountRow.pendingDue, AccountRow.cancelDue, Bool.or_eq_true, Bool.and_eq_true] at h
  rcases h with h | h
  · exact h.2
  · exact h.2

/-- What is due depends on the end of the period alone. -/
theorem due_later (h : a.periodOver now = true) (hle : now ≤ later) :
    a.pendingDue later = a.pendingDue now ∧ a.cancelDue later = a.cancelDue now := by
  have hlater := periodOver_mono h hle
  constructor
  · rw [AccountRow.pendingDue, AccountRow.pendingDue, h, hlater]
  · rw [AccountRow.cancelDue, AccountRow.cancelDue, h, hlater]

/-- **After a transition nothing is due**: no plan is scheduled, and no cancellation is left. -/
theorem rests_lazyTransition (h : (a.pendingDue now || a.cancelDue now) = true) :
    (lazyTransition now a planId).pendingTariffPlanId = none ∧
      (lazyTransition now a planId).subscriptionStatus ≠ .canceled := by
  have hover := periodOver_of_due h
  refine ⟨by simp only [lazyTransition, if_pos h], ?_⟩
  simp only [lazyTransition, AccountRow.cancelDue, hover, Bool.and_true, beq_iff_eq]
  by_cases hs : a.subscriptionStatus = .canceled
  · simp [hs]
  · simp [hs]

theorem not_due_of_rests (hp : a.pendingTariffPlanId = none) (hs : a.subscriptionStatus ≠ .canceled) :
    (a.pendingDue now || a.cancelDue now) = false := by
  simp [AccountRow.pendingDue, AccountRow.cancelDue, hp, hs]

/-- **Nothing is due**: the account stays as it is. -/
theorem applyLazyBillingTransitions_rest
    (h : ∀ a, b.accounts accountId = some a → (a.pendingDue now || a.cancelDue now) = false) :
    applyLazyBillingTransitions now accountId b = .ok b := by
  unfold applyLazyBillingTransitions
  cases ha : b.accounts accountId with
  | none => rfl
  | some a => simp only [h a ha, Bool.false_eq_true, if_false]

/-- **A transition that was looked at before** is the same later. -/
theorem applyLazyBillingTransitions_later (hle : now ≤ later)
    (h : applyLazyBillingTransitions now accountId b = .ok b') :
    applyLazyBillingTransitions later accountId b' =
      applyLazyBillingTransitions later accountId b := by
  by_cases hdue : ∃ a, b.accounts accountId = some a ∧ (a.pendingDue now || a.cancelDue now) = true
  · obtain ⟨a, ha, hdue⟩ := hdue
    obtain ⟨hpending, hcancel⟩ := due_later (periodOver_of_due hdue) hle
    have hplan : nextPlanId later b a = nextPlanId now b a := by
      rw [nextPlanId, nextPlanId, hpending, hcancel]
    have hrow : lazyTransition later a = lazyTransition now a := by
      funext planId
      rw [lazyTransition, lazyTransition, hpending, hcancel]
    have hlater : applyLazyBillingTransitions later accountId b = .ok b' := by
      rw [← h]
      simp only [applyLazyBillingTransitions, ha, hpending, hcancel, hplan, hrow]
    rw [hlater]
    refine applyLazyBillingTransitions_rest fun a' ha' => ?_
    simp only [applyLazyBillingTransitions, ha, hdue, if_true] at h
    cases hnext : nextPlanId now b a with
    | none =>
      rw [hnext] at h
      exact absurd h (by simp)
    | some planId =>
      rw [hnext] at h
      obtain rfl := Except.ok.inj h
      have hrow' : Function.update b.accounts accountId (some (lazyTransition now a planId)) accountId =
        some a' := ha'
      rw [Function.update_self] at hrow'
      obtain rfl := Option.some.inj hrow'
      exact (rests_lazyTransition hdue).elim not_due_of_rests
  · have hsame : applyLazyBillingTransitions now accountId b = .ok b := by
      refine applyLazyBillingTransitions_rest fun a ha => ?_
      by_contra hne
      exact hdue ⟨a, ha, eq_true_of_ne_false hne⟩
    obtain rfl := Except.ok.inj (hsame.symm.trans h)
    rfl

end EvidentLedger.Ledger

namespace EvidentLedger.Paddle

open Lib.Interleave Lib.Transaction
open Ledger

variable {state : State} {turn : Turn} {turns : List Turn} {db db₀ : Tables}
  {event : PaddleWebhookEvent} {account : Account} {a : Uuid} {change : SubscriptionChange}

/-! ## Events about a plan -/

/-- The event is about a plan. -/
def PaddleWebhookEvent.Names (event : PaddleWebhookEvent) (db : Tables) (plan : Paddle.TariffPlanRow) :
    Prop :=
  (event.handledEventType = some .subscriptionCreated ∨
    event.handledEventType = some .subscriptionUpdated) ∧
  event.priceId.bind db.planByPrice? = some plan

/-- **The plan after the period**, by the branches of the two events. -/
theorem planAfterPeriod_iff {plan : Paddle.TariffPlanRow} {current : Option Paddle.TariffPlanRow}
    {row : AccountRow} (htype : event.handledEventType = some .subscriptionCreated ∨
      event.handledEventType = some .subscriptionUpdated)
    (hchange : event.change? (some plan) current = some change) :
    (change.apply row).planAfterPeriod = plan.planId ↔
      event.handledEventType = some .subscriptionCreated ∨
        (∃ old, current = some old ∧ old.priority ≠ plan.priority) ∨
          row.planAfterPeriod = plan.planId := by
  unfold PaddleWebhookEvent.change? at hchange
  rcases htype with htype | htype
  · rw [htype] at hchange
    obtain ⟨_, hnew, hchange⟩ := Option.bind_eq_some_iff.mp hchange
    obtain rfl := Option.some.inj hnew
    obtain ⟨periodEnd, -, hchange⟩ := Option.bind_eq_some_iff.mp hchange
    obtain rfl := Option.some.inj hchange
    exact ⟨fun _ => Or.inl htype, fun _ => rfl⟩
  · rw [htype] at hchange
    have hnot : event.handledEventType ≠ some .subscriptionCreated := by simp [htype]
    obtain ⟨_, hnew, hchange⟩ := Option.bind_eq_some_iff.mp hchange
    obtain rfl := Option.some.inj hnew
    obtain ⟨old, hold, hdecided⟩ := Option.bind_eq_some_iff.mp hchange
    obtain ⟨periodEnd, -, hbranch⟩ := Option.bind_eq_some_iff.mp hdecided
    obtain rfl := Option.some.inj hbranch
    by_cases hup : isUpgrade old plan = true
    · have hlt : old.priority < plan.priority := by simpa [isUpgrade] using hup
      rw [if_pos hup]
      exact ⟨fun _ => Or.inr (Or.inl ⟨old, hold, hlt.ne⟩), fun _ => rfl⟩
    · by_cases hdown : isDowngrade old plan = true
      · have hlt : plan.priority < old.priority := by simpa [isDowngrade] using hdown
        rw [if_neg hup, if_pos hdown]
        exact ⟨fun _ => Or.inr (Or.inl ⟨old, hold, hlt.ne'⟩), fun _ => rfl⟩
      · have hsame : old.priority = plan.priority := by
          simp only [isUpgrade, isDowngrade, decide_eq_true_eq, not_lt] at hup hdown
          omega
        rw [if_neg hup, if_neg hdown]
        constructor
        · exact fun h => Or.inr (Or.inr h)
        · rintro (h | ⟨old', hold', hne⟩ | h)
          · exact absurd h hnot
          · obtain rfl := Option.some.inj (hold.symm.trans hold')
            exact absurd hsame hne
          · exact h

/-- **The newest event about a plan decides it** if and only if it creates the subscription, or the plan
has another priority than the current one, or it was decided already. -/
theorem plan_event_decides_iff (state : State) (db₀ : Tables) (empty : db₀.webhookEvents = [])
    (turns : List Turn) (db : Tables) (h : Serial state db₀ turns db) (turn : Turn)
    (hturn : turn ∈ turns) (event : PaddleWebhookEvent) (account : Account)
    (happ : turn.Applies state event account) (plan : Paddle.TariffPlanRow)
    (hplan : event.Names turn.before plan) :
    (∃ row, turn.after.account? account.accountId = some row ∧ row.planAfterPeriod = plan.planId) ↔
      event.handledEventType = some .subscriptionCreated ∨
        (∃ current, turn.before.plan? account.tariffPlanId = some current ∧
          current.priority ≠ plan.priority) ∨
          account.planAfterPeriod = plan.planId := by
  obtain ⟨hruns, hok⟩ := h.runs empty turn hturn
  obtain ⟨change, hchange, hafter⟩ := hruns.applied hok happ
  rw [hplan.2] at hchange
  rw [← @planAfterPeriod_iff event change plan _ account.toAccountRow hplan.1 hchange, hafter]
  constructor
  · rintro ⟨row, hrow, heq⟩
    obtain rfl := Option.some.inj hrow
    exact heq
  · exact fun heq => ⟨_, rfl, heq⟩

/-- Upgraded, downgraded at the end of the period, and back. -/
def sampleChanges : List PaddleWebhookEvent :=
  [sampleEvent "evt_0" "subscription.updated" 10 "pro" 100,
    sampleEvent "evt_1" "subscription.updated" 20 "basic" 100,
    sampleEvent "evt_2" "subscription.updated" 30 "pro" 100]

/-- The steps of such an event, on its own. -/
def sampleTurn (n : Nat) (uuid : UInt8) : Request × Int × List (Nat × Choice) :=
  (sampleDelivery n, 0, sampleSteps 0 11 uuid 0)

/-- An account on the plan `pro`. -/
def samplePaid (pending : Option Uuid) (version : Nat) : Account :=
  ⟨⟨Uuid.small 12, pending, .active, some 100⟩, Uuid.small 1, version⟩

def samplePlan (id : UInt8) (name : String) (priority : Int) : Paddle.TariffPlanRow :=
  ⟨⟨Uuid.small id, name, none⟩, priority, some name⟩

/-- What is decided about the downgrade is decided by its priority. -/
theorem plan_event_decides_iff_sampleRun : ∃ turn : Turn,
    (∃ row, turn.after.account? (Uuid.small 1) = some row ∧ row.planAfterPeriod = Uuid.small 11) ↔
      PaddleWebhookEvent.handledEventType (sampleEvent "evt_1" "subscription.updated" 20 "basic" 100) =
          some .subscriptionCreated ∨
        (∃ current, turn.before.plan? (Uuid.small 12) = some current ∧ current.priority ≠ 1) ∨
          (samplePaid none 1).planAfterPeriod = Uuid.small 11 := by
  have hrun : (runTurns (sampleState sampleChanges) [sampleTurn 0 20, sampleTurn 1 21] []
      (sampleTables [("ctm", Uuid.small 1)])).map (fun r => r.1.getLast?.map fun turn =>
        (turn.delivers 1 20 (samplePaid none 1) (samplePaid (some (Uuid.small 11)) 2),
          turn.before.planByPrice? "basic")) = some (some (true, some (samplePlan 11 "basic" 1))) := by
    decide +kernel
  obtain ⟨turns, db, h, hlast⟩ := exists_serial hrun
  obtain ⟨turn, hturn, hfacts⟩ := Option.map_eq_some_iff.mp hlast
  obtain ⟨hdelivers, hplan⟩ := Prod.mk.inj hfacts
  have happ := (@applies_of_delivers _ (sampleEvent "evt_1" "subscription.updated" 20 "basic" 100) _
    sampleChanges _ _ rfl rfl hdelivers).1
  exact ⟨turn, plan_event_decides_iff _ _ rfl turns db h turn (List.mem_of_getLast? hturn) _ _ happ _
    ⟨Or.inr (by decide), hplan⟩⟩

/-- **The scheduled downgrade survives** the newest event, which is about the current plan. -/
theorem scheduled_plan_survives : ∃ turns db, Serial (sampleState sampleChanges)
      (sampleTables [("ctm", Uuid.small 1)]) turns db ∧
    ∃ turn ∈ turns, turn.Applies (sampleState sampleChanges)
        (sampleEvent "evt_2" "subscription.updated" 30 "pro" 100)
        (samplePaid (some (Uuid.small 11)) 2) ∧
      PaddleWebhookEvent.Names (sampleEvent "evt_2" "subscription.updated" 30 "pro" 100) turn.before
        (samplePlan 12 "pro" 2) ∧
      ¬ ∃ row, turn.after.account? (Uuid.small 1) = some row ∧
        row.planAfterPeriod = (samplePlan 12 "pro" 2).planId := by
  have hrun : (runTurns (sampleState sampleChanges) [sampleTurn 0 20, sampleTurn 1 21, sampleTurn 2 22]
      [] (sampleTables [("ctm", Uuid.small 1)])).map (fun r => r.1.getLast?.map fun turn =>
        (turn.delivers 2 30 (samplePaid (some (Uuid.small 11)) 2)
          (samplePaid (some (Uuid.small 11)) 3), turn.before.planByPrice? "pro")) =
      some (some (true, some (samplePlan 12 "pro" 2))) := by decide +kernel
  obtain ⟨turns, db, h, hlast⟩ := exists_serial hrun
  obtain ⟨turn, hturn, hfacts⟩ := Option.map_eq_some_iff.mp hlast
  obtain ⟨hdelivers, hplan⟩ := Prod.mk.inj hfacts
  obtain ⟨happ, hafter⟩ := @applies_of_delivers _
    (sampleEvent "evt_2" "subscription.updated" 30 "pro" 100) _ sampleChanges _ _ rfl rfl hdelivers
  refine ⟨turns, db, h, turn, List.mem_of_getLast? hturn, happ, ⟨Or.inr (by decide), hplan⟩, ?_⟩
  rintro ⟨row, hrow, heq⟩
  obtain rfl := Option.some.inj (hafter.symm.trans hrow)
  exact absurd heq (by decide)

/-! ## Sequences -/

theorem Serial.concat_inv (h : Serial state db₀ (turns ++ [turn]) db) :
    Serial state db₀ turns turn.before ∧ turn.Runs state ∧ db = turn.after := by
  generalize hall : turns ++ [turn] = all at h
  cases h with
  | nil => exact absurd hall (by simp)
  | concat last hturns hruns =>
    obtain ⟨rfl, hlast⟩ := List.append_inj' hall rfl
    obtain rfl := (List.cons.inj hlast).1
    exact ⟨hturns, hruns, rfl⟩

/-- The names and ids of the plans stay. -/
theorem tariffPlans_replay (log : List Write) (db : Tables) :
    (Tables.billing (replay (S := schema) log db)).tariffPlans = db.billing.tariffPlans := by
  induction log generalizing db with
  | nil => rfl
  | cons w log ih =>
    rw [replay_cons]
    refine (ih _).trans ?_
    cases w with
    | setPrice name price =>
      change (db.tariffPlans.map (·.offer name price)).map (·.toTariffPlanRow) =
        db.tariffPlans.map (·.toTariffPlanRow)
      rw [List.map_map]
      refine List.map_congr_left fun plan _ => ?_
      simp only [Function.comp, Paddle.TariffPlanRow.offer]
      split_ifs <;> rfl
    | insertWebhook | setStatus | insertPendingLink | setBilling | setSubscription | linkCustomer => rfl

theorem tariffPlans_tables (db₀ : Tables) (h : History schema) :
    (tables db₀ h).billing.tariffPlans = db₀.billing.tariffPlans := by
  induction h using List.reverseRecOn with
  | nil => rfl
  | append_singleton h entry ih =>
    obtain ⟨p, log⟩ := entry
    rw [tables_concat]
    exact (tariffPlans_replay log _).trans ih

theorem Serial.tariffPlans (empty : db₀.webhookEvents = []) (h : Serial state db₀ turns db) :
    db.billing.tariffPlans = db₀.billing.tariffPlans := by
  induction h with
  | nil => rfl
  | concat turn hturns hruns ih =>
    obtain ⟨h, hinv, -⟩ := hruns.reach (hturns.webhooks empty)
    have hafter : turn.after = tables turn.before h := hinv.replayed
    rw [hafter]
    exact (tariffPlans_tables turn.before h).trans ih

/-- The turn applies no event to the account, and looks at it before the end of its period. -/
def Turn.Spares (state : State) (turn : Turn) (accountId : Uuid) (periodEnd : Int) : Prop :=
  (∀ event account, turn.Applies state event account → account.accountId ≠ accountId) ∧
    (turn.Transits accountId → turn.now ≤ periodEnd)

/-- **An account rests** while no event is applied to it and its period is not over. -/
theorem Serial.rests {between : List Turn} {row : Account} {periodEnd : Int}
    (empty : db₀.webhookEvents = []) (h : Serial state db₀ (turns ++ [turn] ++ between) db)
    (hrow : turn.after.account? a = some row) (hend : row.currentPeriodEnd = some periodEnd)
    (hbetween : ∀ t ∈ between, t.Spares state a periodEnd) : db.account? a = some row := by
  induction between using List.reverseRecOn generalizing db with
  | nil =>
    rw [List.append_nil] at h
    obtain ⟨-, -, rfl⟩ := h.concat_inv
    exact hrow
  | append_singleton between t ih =>
    rw [← List.append_assoc] at h
    obtain ⟨hturns, hruns, rfl⟩ := h.concat_inv
    have hbefore := ih hturns fun t' ht' => hbetween t' (List.mem_append_left _ ht')
    obtain ⟨happ, htransit⟩ := hbetween t (by simp)
    rw [hruns.unaffected (hturns.webhooks empty) happ fun ht row' hrow' => ?_]
    · exact hbefore
    · obtain rfl := Option.some.inj (hbefore.symm.trans hrow')
      have hle := htransit ht
      have hover : row.periodOver t.now = false := by
        rw [AccountRow.periodOver, hend]
        simpa using hle
      rw [AccountRow.pendingDue, AccountRow.cancelDue, hover]
      simp

/-! ## Cancellations -/

/-- The account as a cancellation leaves it. -/
theorem change?_canceled {newPlan current : Option Paddle.TariffPlanRow} {periodEnd : Int}
    (htype : event.handledEventType = some .subscriptionCanceled)
    (hend : event.periodEnd = some periodEnd) (hchange : event.change? newPlan current = some change) :
    change = .cancel periodEnd := by
  rw [PaddleWebhookEvent.change?, htype, hend] at hchange
  exact (Option.some.inj hchange).symm

/-- The transition of an account that was canceled. -/
theorem lazyTransition_canceled_iff {row : AccountRow} {periodEnd now : Int} {planId : Uuid}
    {b : Billing} {free : Ledger.TariffPlanRow} (hfree : b.freePlan? = some free)
    (hover : periodEnd < now)
    (hplan : nextPlanId now b ((SubscriptionChange.cancel periodEnd).apply row) = some planId) :
    lazyTransition now ((SubscriptionChange.cancel periodEnd).apply row) planId =
        ⟨free.planId, none, .none, none⟩ ↔ row.pendingTariffPlanId = none := by
  have hperiod : AccountRow.periodOver now ((SubscriptionChange.cancel periodEnd).apply row) = true := by
    simpa [AccountRow.periodOver, SubscriptionChange.apply] using hover
  have hcancel : AccountRow.cancelDue now ((SubscriptionChange.cancel periodEnd).apply row) = true := by
    rw [AccountRow.cancelDue, hperiod]
    rfl
  have hpending : AccountRow.pendingDue now ((SubscriptionChange.cancel periodEnd).apply row) =
      row.pendingTariffPlanId.isSome := by
    rw [AccountRow.pendingDue, hperiod, Bool.and_true]
    rfl
  cases hp : row.pendingTariffPlanId with
  | none =>
    rw [hp] at hpending
    simp only [nextPlanId, hpending, hcancel, hfree, Option.isSome_none, Bool.false_eq_true, if_false,
      if_true, Option.map_some, Option.some.injEq] at hplan
    simp [lazyTransition, hpending, hcancel, hplan]
  | some scheduled =>
    rw [hp] at hpending
    simp only [Option.isSome_some] at hpending
    have hend : (lazyTransition now ((SubscriptionChange.cancel periodEnd).apply row)
        planId).currentPeriodEnd = some (addMonth periodEnd) := by
      simp only [lazyTransition, hpending, if_true]
      rfl
    constructor
    · intro heq
      rw [heq] at hend
      exact absurd hend (by simp)
    · exact fun h => absurd h (by simp)

/-- **A cancellation ends on the free plan** if and only if no other plan was scheduled: for every
sequence of requests in which the event is applied, no other follows, and the account is looked at when
the period is over. -/
theorem cancellation_ends_free_iff (state : State) (db₀ : Tables) (empty : db₀.webhookEvents = [])
    (free : Ledger.TariffPlanRow) (hfree : db₀.billing.freePlan? = some free)
    (turns between : List Turn) (cancel look : Turn) (db : Tables)
    (h : Serial state db₀ (turns ++ [cancel] ++ between ++ [look]) db) (event : PaddleWebhookEvent)
    (account : Account) (happ : cancel.Applies state event account)
    (htype : event.handledEventType = some .subscriptionCanceled) (periodEnd : Int)
    (hend : event.periodEnd = some periodEnd)
    (hbetween : ∀ turn ∈ between, turn.Spares state account.accountId periodEnd)
    (hlook : look.Transits account.accountId) (hover : periodEnd < look.now) :
    (∃ row, db.account? account.accountId = some row ∧
        row.toAccountRow = ⟨free.planId, none, .none, none⟩) ↔
      account.pendingTariffPlanId = none := by
  obtain ⟨hturns, hruns, rfl⟩ := h.concat_inv
  obtain ⟨hcancel, hcok⟩ := hturns.runs empty cancel (by simp)
  obtain ⟨change, hchange, hafter⟩ := hcancel.applied hcok happ
  obtain rfl := change?_canceled htype hend hchange
  have hbefore := hturns.rests empty hafter rfl hbetween
  have hplans : look.before.billing.freePlan? = some free := by
    rw [← hfree, Billing.freePlan?, hturns.tariffPlans empty]
    rfl
  obtain ⟨e, hreply, -⟩ | ⟨-, ⟨-, hrest⟩ | ⟨row, planId, hrow, -, hplan, hlast⟩⟩ :=
    hruns.transited hlook.1
  · rw [hlook.2] at hreply
    exact absurd hreply (by simp)
  · have hdue := hrest _ hbefore
    have hperiod : AccountRow.periodOver look.now
        ((SubscriptionChange.cancel periodEnd).apply account.toAccountRow) = true := by
      simpa [AccountRow.periodOver, SubscriptionChange.apply] using hover
    rw [AccountRow.cancelDue, hperiod] at hdue
    exact absurd hdue (by simp [SubscriptionChange.apply])
  · obtain rfl := Option.some.inj (hbefore.symm.trans hrow)
    rw [← lazyTransition_canceled_iff hplans hover hplan, hlast, account?_setBilling_self hrow]
    constructor
    · rintro ⟨row, hrow, heq⟩
      obtain rfl := Option.some.inj hrow
      exact heq
    · exact fun heq => ⟨_, rfl, heq⟩

/-- Upgraded, downgraded at the end of the period, and canceled. -/
def sampleCancellation : List PaddleWebhookEvent :=
  [sampleEvent "evt_0" "subscription.updated" 10 "pro" 100,
    sampleEvent "evt_1" "subscription.updated" 20 "basic" 100,
    sampleEvent "evt_2" "subscription.canceled" 30 "pro" 200]

/-- The cancellation, and a request after the period. -/
def sampleLast : List (Request × Int × List (Nat × Choice)) :=
  [(sampleDelivery 2, 0, sampleSteps 0 9 22 0),
    (.lazyTransitions (Uuid.small 1), 300, sampleSteps 0 1 0 300)]

/-- A turn that looks at the account, until `now`. -/
def Turn.looks (turn : Turn) (now : Int) : Bool :=
  turn.request == .lazyTransitions (Uuid.small 1) && turn.reply == .done (.ok ()) && turn.now ≤ now

theorem transits_of_looks {now : Int} (h : turn.looks now = true) :
    turn.Transits (Uuid.small 1) ∧ turn.now ≤ now := by
  simp only [Turn.looks, Bool.and_eq_true, beq_iff_eq, decide_eq_true_eq] at h
  exact ⟨h.1, h.2⟩

/-- A sequence that ends with the cancellation and such a request. -/
theorem exists_sampleCancellation {account after : Account}
    {todo : List (Request × Int × List (Nat × Choice))} {last : Option AccountRow}
    (hrun : (runTurns (sampleState sampleCancellation) (todo ++ sampleLast) []
      (sampleTables [("ctm", Uuid.small 1)])).map (fun r => ((r.1.reverse.map fun turn =>
        (turn.delivers 2 30 account after, turn.looks turn.now, turn.now)).take 2,
          (r.2.account? (Uuid.small 1)).map (·.toAccountRow))) =
      some ([(false, true, 300), (true, false, 0)], last)) :
    ∃ turns cancel look db, Serial (sampleState sampleCancellation)
        (sampleTables [("ctm", Uuid.small 1)]) (turns ++ [cancel] ++ [] ++ [look]) db ∧
      cancel.Applies (sampleState sampleCancellation)
        (sampleEvent "evt_2" "subscription.canceled" 30 "pro" 200) account ∧
      look.Transits (Uuid.small 1) ∧ look.now = 300 ∧
      (db.account? (Uuid.small 1)).map (·.toAccountRow) = last := by
  obtain ⟨turns, db, h, hfacts⟩ := exists_serial hrun
  obtain ⟨hturns, hlast⟩ := Prod.mk.inj hfacts
  rw [← List.map_take] at hturns
  obtain ⟨look, rest, htake, hlook, hrest⟩ := List.map_eq_cons_iff.mp hturns
  obtain ⟨cancel, rest, rfl, hcancel, -⟩ := List.map_eq_cons_iff.mp hrest
  have hreverse : turns.reverse = look :: cancel :: (rest ++ turns.reverse.drop 2) := by
    have hall := List.take_append_drop 2 turns.reverse
    rw [htake] at hall
    exact hall.symm
  generalize rest ++ turns.reverse.drop 2 = tail at hreverse
  have hsplit : turns = tail.reverse ++ [cancel] ++ [] ++ [look] := by
    simpa using congrArg List.reverse hreverse
  obtain ⟨-, hlooks, hnow⟩ := Prod.mk.inj hlook |>.imp_right Prod.mk.inj
  rw [hsplit] at h
  exact ⟨_, cancel, look, db, h, (@applies_of_delivers _
    (sampleEvent "evt_2" "subscription.canceled" 30 "pro" 200) _ sampleCancellation _ _ rfl rfl
      (Prod.mk.inj hcancel).1).1, (transits_of_looks hlooks).1, hnow, hlast⟩

/-- Without the downgrade the account is free in the end. -/
theorem cancellation_ends_free_iff_sampleRun : ∃ db : Tables,
    (∃ row, db.account? (Uuid.small 1) = some row ∧
        row.toAccountRow = ⟨Uuid.small 10, none, .none, none⟩) ↔
      (samplePaid none 1).pendingTariffPlanId = none := by
  obtain ⟨turns, cancel, look, db, h, happ, hlook, hnow, -⟩ := @exists_sampleCancellation
    (samplePaid none 1) ⟨⟨Uuid.small 12, none, .canceled, some 200⟩, Uuid.small 1, 2⟩
    [sampleTurn 0 20] (some ⟨Uuid.small 10, none, .none, none⟩) (by decide +kernel)
  exact ⟨db, cancellation_ends_free_iff _ _ rfl ⟨Uuid.small 10, "free", none⟩ rfl turns [] cancel look
    db h _ _ happ (by decide) 200 rfl (by simp) hlook (by rw [hnow]; decide)⟩

/-- **With it, the account has the cheaper plan for good**, without a subscription. -/
theorem canceled_account_keeps_plan : ∃ turns cancel look db,
    Serial (sampleState sampleCancellation) (sampleTables [("ctm", Uuid.small 1)])
        (turns ++ [cancel] ++ [] ++ [look]) db ∧
      cancel.Applies (sampleState sampleCancellation)
        (sampleEvent "evt_2" "subscription.canceled" 30 "pro" 200)
        (samplePaid (some (Uuid.small 11)) 2) ∧
      look.Transits (Uuid.small 1) ∧ 200 < look.now ∧
      (db.account? (Uuid.small 1)).map (·.toAccountRow) =
        some ⟨Uuid.small 11, none, .none, some (addMonth 200)⟩ := by
  obtain ⟨turns, cancel, look, db, h, happ, hlook, hnow, hlast⟩ := @exists_sampleCancellation
    (samplePaid (some (Uuid.small 11)) 2)
    ⟨⟨Uuid.small 12, some (Uuid.small 11), .canceled, some 200⟩, Uuid.small 1, 3⟩
    [sampleTurn 0 20, sampleTurn 1 21] (some ⟨Uuid.small 11, none, .none, some (addMonth 200)⟩)
    (by decide +kernel)
  exact ⟨turns, cancel, look, db, h, happ, hlook, by rw [hnow]; decide, hlast⟩

/-! ## Transitions -/

/-- The statement does to the billing columns what `apply_lazy_billing_transitions` does. -/
theorem billing_setBilling {row : Account} {new : AccountRow} (hrow : db.account? a = some row) :
    ((Write.setBilling a new).apply db).billing =
      { db.billing with accounts := Function.update db.billing.accounts a (some new) } := by
  have haccounts : ((Write.setBilling a new).apply db).billing.accounts =
      Function.update db.billing.accounts a (some new) := by
    funext b
    by_cases hb : b = a
    · subst hb
      rw [Function.update_self]
      change (Tables.account? ((Write.setBilling b new).apply db) b).map _ = _
      rw [account?_setBilling_self hrow]
      rfl
    · rw [Function.update_of_ne hb]
      have hleaves : ∀ w ∈ [Write.setBilling a new], w.Leaves b := by
        intro w hw
        rw [List.mem_singleton.mp hw]
        exact fun heq => hb heq.symm
      exact congrArg (Option.map _) (@account?_of_leaves db _ _ hleaves)
  unfold Tables.billing at haccounts ⊢
  simp only at haccounts
  rw [haccounts]
  rfl

theorem Turn.Runs.billing (hruns : turn.Runs state) (ht : turn.Transits a) :
    applyLazyBillingTransitions turn.now a turn.before.billing = .ok turn.after.billing := by
  obtain ⟨e, hreply, -⟩ | ⟨-, ⟨hafter, hrest⟩ | ⟨row, planId, hrow, hdue, hplan, hafter⟩⟩ :=
    hruns.transited ht.1
  · rw [ht.2] at hreply
    exact absurd hreply (by simp)
  · rw [hafter]
    refine applyLazyBillingTransitions_rest fun b hb => ?_
    obtain ⟨row, hrow, rfl⟩ := Option.map_eq_some_iff.mp hb
    exact hrest row hrow
  · have hb : turn.before.billing.accounts a = some row.toAccountRow := by
      change (turn.before.account? a).map _ = _
      rw [hrow]
      rfl
    rw [hafter, billing_setBilling hrow]
    simp only [applyLazyBillingTransitions, hb, hdue, if_true, hplan]

/-- **At any times**: as once, at the last of them. -/
theorem Serial.transitions {last : Turn} (h : Serial state db₀ (turns ++ [last]) db)
    (ht : ∀ turn ∈ turns ++ [last], turn.Transits a ∧ turn.now ≤ last.now) :
    applyLazyBillingTransitions last.now a db₀.billing = .ok db.billing := by
  obtain ⟨hturns, hruns, rfl⟩ := h.concat_inv
  rw [← hruns.billing (ht last (by simp)).1]
  have hall : ∀ turn ∈ turns, turn.Transits a ∧ turn.now ≤ last.now := fun turn hturn =>
    ht turn (List.mem_append_left _ hturn)
  clear h hruns ht
  generalize last.before = db at hturns
  induction hturns with
  | nil => rfl
  | concat turn _ hruns ih =>
    obtain ⟨htransits, hle⟩ := hall turn (by simp)
    rw [ih fun t ht => hall t (List.mem_append_left _ ht)]
    exact (applyLazyBillingTransitions_later hle (hruns.billing htransits)).symm

/-- Nothing is left to be carried out. -/
def Rests (db : Tables) (accountId : Uuid) : Prop :=
  ∀ row, db.account? accountId = some row →
    row.pendingTariffPlanId = none ∧ row.subscriptionStatus ≠ .canceled

section Races

variable {x : Setting} {h h' : History schema} {p q : Nat} {log : List Write}

/-- The commit of a transition. -/
theorem Commit.transition (hc : Commit x h p log) (hreq : x.requests p = .lazyTransitions a) :
    ∃ row planId now, (tables x.db₀ h).account? a = some row ∧
      (row.pendingDue now || row.cancelDue now) = true ∧
        log = [.setBilling a (lazyTransition now row.toAccountRow planId)] := by
  cases hc with
  | webhook hreq' | price hreq' => exact Request.noConfusion (hreq.symm.trans hreq')
  | link hreq' =>
    rcases hreq' with hreq' | ⟨_, hreq'⟩
    · exact Request.noConfusion (hreq.symm.trans hreq')
    · exact Request.noConfusion (hreq.symm.trans hreq')
  | lazy hreq' hrow hdue =>
    obtain rfl := Request.lazyTransitions.inj (hreq.symm.trans hreq')
    exact ⟨_, _, _, hrow, hdue, rfl⟩

/-- An account that rests is left alone, but for a delivery. -/
theorem Commit.keepsRest (hc : Commit x h p log) (hrests : Rests (tables x.db₀ h) a)
    (hother : (∃ body, x.requests p = .webhook body) → ∀ row, Write.setBilling a row ∉ log) :
    Rests (replay (S := schema) log (tables x.db₀ h)) a := by
  have hleaves : ∀ w ∈ log, w.Leaves a := by
    intro w hw
    cases w with
    | setBilling b row =>
      rintro rfl
      by_cases hlazy : x.requests p = .lazyTransitions b
      · obtain ⟨row', planId, now, hrow', hdue, -⟩ := hc.transition hlazy
        obtain ⟨hp, hs⟩ := hrests row' hrow'
        exact absurd ((not_due_of_rests hp hs).symm.trans hdue) (by simp)
      · cases hc with
        | webhook hreq => exact hother ⟨_, hreq⟩ row hw
        | link => exact absurd hw (by simp)
        | price => exact absurd hw (by simp)
        | lazy hreq =>
          obtain ⟨rfl, -⟩ := Write.setBilling.inj (List.mem_singleton.mp hw)
          exact hlazy hreq
    | insertWebhook | setStatus | insertPendingLink | setSubscription | linkCustomer | setPrice =>
      exact trivial
  intro row hrow
  rw [account?_of_leaves hleaves] at hrow
  exact hrests row hrow

/-- **After a transition the account rests** until a delivery writes to it. -/
theorem rests_after {between : History schema} (hl : x.Inv db (h ++ [(p, log)] ++ between))
    (hreq : x.requests p = .lazyTransitions a)
    (hbetween : ∀ entry ∈ between, (∃ body, x.requests entry.1 = .webhook body) →
      ∀ row, Write.setBilling a row ∉ entry.2) :
    Rests (tables x.db₀ (h ++ [(p, log)] ++ between)) a := by
  induction between using List.reverseRecOn generalizing db with
  | nil =>
    rw [List.append_nil] at hl ⊢
    obtain ⟨row, planId, now, hrow, hdue, rfl⟩ :=
      (hl.commits _ _ _ (List.prefix_refl _)).transition hreq
    intro row' hrow'
    rw [tables_concat] at hrow'
    obtain rfl := Option.some.inj ((account?_setBilling_self hrow).symm.trans hrow')
    exact rests_lazyTransition hdue
  | append_singleton between entry ih =>
    obtain ⟨q, log'⟩ := entry
    rw [← List.append_assoc] at hl ⊢
    have hbefore := ih (hl.of_prefix (List.prefix_append _ _)) fun entry hentry =>
      hbetween entry (List.mem_append_left _ hentry)
    rw [tables_concat]
    exact (hl.commits _ _ _ (List.prefix_refl _)).keepsRest hbefore (hbetween (q, log') (by simp))

/-- **Between two transitions of an account** a delivery has written to it. -/
theorem delivery_between {between : History schema} {log' : List Write} (hl : x.Inv db h)
    (hp : h' ++ [(p, log)] ++ between ++ [(q, log')] <+: h)
    (hreq : x.requests p = .lazyTransitions a) (hreq' : x.requests q = .lazyTransitions a) :
    ∃ entry ∈ between, (∃ body, x.requests entry.1 = .webhook body) ∧
      ∃ row, Write.setBilling a row ∈ entry.2 := by
  by_contra hnone
  have hrests := rests_after (hl.of_prefix ((List.prefix_append _ [(q, log')]).trans hp)) hreq
    fun entry hentry hbody row hrow => hnone ⟨entry, hentry, hbody, row, hrow⟩
  obtain ⟨row, planId, now, hrow, hdue, -⟩ := (hl.commits _ _ _ hp).transition hreq'
  obtain ⟨hpending, hstatus⟩ := hrests row hrow
  exact absurd ((not_due_of_rests hpending hstatus).symm.trans hdue) (by simp)

end Races

/-- **Lazy billing does not depend on when it is looked at**: any number of times is as once, at the
last of them; again is as once; where nothing is due nothing changes; and of any concurrent requests, two
carry out a transition of an account only if an event was applied to it in between. -/
theorem lazy_billing_once (state : State) (requests : Nat → Request) (db₀ : Tables)
    (empty : db₀.webhookEvents = []) :
    (∀ (a : Uuid) (db db' : Tables) (turns : List Turn) (last : Turn),
      Serial state db (turns ++ [last]) db' →
      (∀ turn ∈ turns ++ [last], turn.Transits a ∧ turn.now ≤ last.now) →
        applyLazyBillingTransitions last.now a db.billing = .ok db'.billing) ∧
    (∀ (a : Uuid) (now : Int) (b b' : Billing), applyLazyBillingTransitions now a b = .ok b' →
      applyLazyBillingTransitions now a b' = .ok b') ∧
    (∀ (a : Uuid) (now : Int) (b : Billing), (∀ row, b.accounts a = some row →
      (row.pendingDue now || row.cancelDue now) = false) →
        applyLazyBillingTransitions now a b = .ok b) ∧
    ∀ (y : PaddleConfig), (Setting.all state requests db₀ empty).Reach (start state requests db₀) y →
      ∀ (a : Uuid) (before between : History schema) (p q : Nat) (log log' : List Write),
        before ++ [(p, log)] ++ between ++ [(q, log')] <+: y.shared.history →
        requests p = .lazyTransitions a → requests q = .lazyTransitions a →
          ∃ entry ∈ between, (∃ body, requests entry.1 = .webhook body) ∧
            ∃ row, Write.setBilling a row ∈ entry.2 := by
  refine ⟨fun a db db' turns last h ht => h.transitions ht, fun a now b b' h => ?_,
    fun a now b h => applyLazyBillingTransitions_rest h, fun y hy => ?_⟩
  · rw [applyLazyBillingTransitions_later (le_refl now) h, h]
  · obtain ⟨hinv, -⟩ := paddle_reach hy
    intro a before between p q log log' hp hreq hreq'
    exact delivery_between hinv hp hreq hreq'

/-- An account with a downgrade at the end of the period. -/
def sampleScheduled : Tables :=
  { sampleTables [] with accounts := [samplePaid (some (Uuid.small 11)) 0] }

/-- The downgrade is looked at too early, in time, and again. -/
theorem lazy_billing_once_sampleRun : ∃ db : Tables,
    (db.account? (Uuid.small 1)).map (·.tariffPlanId) = some (Uuid.small 11) ∧
      applyLazyBillingTransitions 300 (Uuid.small 1) sampleScheduled.billing = .ok db.billing := by
  have hrun : (runTurns (sampleState []) ([50, 200, 300].map fun now =>
      (.lazyTransitions (Uuid.small 1), now, sampleSteps 0 1 0 now)) [] sampleScheduled).map (fun r =>
        ((r.1.all (·.looks 300), r.1.getLast?.map (·.now)),
          (r.2.account? (Uuid.small 1)).map (·.tariffPlanId))) =
      some ((true, some 300), some (Uuid.small 11)) := by decide +kernel
  obtain ⟨turns, db, h, hfacts⟩ := exists_serial hrun
  obtain ⟨hturns, hplan⟩ := Prod.mk.inj hfacts
  obtain ⟨hlooks, htime⟩ := Prod.mk.inj hturns
  obtain ⟨last, hlast, hnow⟩ := Option.map_eq_some_iff.mp htime
  obtain ⟨first, rfl⟩ := List.getLast?_eq_some_iff.mp hlast
  refine ⟨db, hplan, ?_⟩
  rw [← hnow]
  refine (lazy_billing_once (sampleState []) (fun _ => sampleDelivery 0) (sampleTables []) rfl).1 _ _ _
    first last h fun turn hturn => ?_
  rw [hnow]
  exact transits_of_looks (List.all_eq_true.mp hlooks turn hturn)

end EvidentLedger.Paddle
