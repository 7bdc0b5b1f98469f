import EvidentLedger.Ledger.Statement

/-!
# Subscriptions and their lazy transitions

The billing columns of an account, and `apply_lazy_billing_transitions`
(`src/service/subscription_enforcement.rs:17-60`): one `UPDATE` that carries out what has become due
at the end of a period, a scheduled downgrade or a cancellation.

* `AccountRow.pendingDue` and `AccountRow.cancelDue` are the two conditions of its `WHERE`.
* `nextPlanId` is the first of its four `CASE`s, `lazyTransition` the row with all four.
-/

namespace EvidentLedger.Ledger

open Lib.Transaction

/-! ## Accounts and plans -/

/-- `subscription_status`, by its `CHECK`. -/
inductive SubscriptionStatus where
  | none
  | active
  | pastDue
  | canceled
  deriving DecidableEq

/-- A row of `tariff_plans`. -/
structure TariffPlanRow where
  planId : Uuid
  name : String
  monthlyCommitsLimit : Option Int
  deriving DecidableEq

/-- The billing columns of a row of `accounts`. -/
structure AccountRow where
  tariffPlanId : Uuid
  pendingTariffPlanId : Option Uuid
  subscriptionStatus : SubscriptionStatus
  currentPeriodEnd : Option Int
  deriving DecidableEq

/-- The tables of billing: `accounts` by its primary key. -/
structure Billing where
  accounts : Uuid → Option AccountRow
  tariffPlans : List TariffPlanRow

namespace Billing

variable (b : Billing)

def plan? (planId : Uuid) : Option TariffPlanRow := b.tariffPlans.find? (·.planId == planId)

/-- `SELECT … FROM tariff_plans WHERE name = 'free'`. -/
def freePlan? : Option TariffPlanRow := b.tariffPlans.find? (·.name == "free")

end Billing

/-! ## Lazy transitions -/

/-- The first day of a month, in days since 1970, for months numbered as in `monthOf`. -/
def firstDayOf (month : Int) : Int :=
  let m := (month - 1) % 12 + 1
  let y := (month - 1) / 12 - if m ≤ 2 then 1 else 0
  let era := y / 400
  let yoe := y - era * 400
  let doy := (153 * (if m > 2 then m - 3 else m + 9) + 2) / 5
  era * 146097 + (yoe * 365 + yoe / 4 - yoe / 100 + doy) - 719468

/-- `+ interval '1 month'`: the same day of the next month, or its last. -/
def addMonth (time : Int) : Int :=
  let month := monthOf time
  let day := time / 86400000000 - firstDayOf month
  let length := firstDayOf (month + 2) - firstDayOf (month + 1)
  (firstDayOf (month + 1) + min day (length - 1)) * 86400000000 + time % 86400000000

namespace AccountRow

variable (now : Int) (a : AccountRow)

/-- `current_period_end < now()`; not of a missing end. -/
def periodOver : Bool :=
  match a.currentPeriodEnd with
  | some periodEnd => periodEnd < now
  | none => false

/-- The scheduled downgrade is due. -/
def pendingDue : Bool := a.pendingTariffPlanId.isSome && a.periodOver now

/-- The cancellation is due. -/
def cancelDue : Bool := a.subscriptionStatus == .canceled && a.periodOver now

end AccountRow

/-- The new `tariff_plan_id`; no value where it would be `NULL`. -/
def nextPlanId (now : Int) (b : Billing) (a : AccountRow) : Option Uuid :=
  if a.pendingDue now then a.pendingTariffPlanId
  else if a.cancelDue now then b.freePlan?.map (·.planId)
  else some a.tariffPlanId

/-- The plan after the due transitions. -/
def effectivePlan (now : Int) (b : Billing) (a : AccountRow) : Option TariffPlanRow :=
  (nextPlanId now b a).bind b.plan?

/-- The row as `apply_lazy_billing_transitions` sets it. -/
def lazyTransition (now : Int) (a : AccountRow) (tariffPlanId : Uuid) : AccountRow where
  tariffPlanId
  pendingTariffPlanId :=
    if a.pendingDue now || a.cancelDue now then none else a.pendingTariffPlanId
  subscriptionStatus := if a.cancelDue now then .none else a.subscriptionStatus
  currentPeriodEnd :=
    if a.pendingDue now then a.currentPeriodEnd.map addMonth
    else if a.cancelDue now then none
    else a.currentPeriodEnd

/-- `apply_lazy_billing_transitions`: one `UPDATE`. -/
def applyLazyBillingTransitions (now : Int) (accountId : Uuid) (b : Billing) :
    Except DbError Billing :=
  match b.accounts accountId with
  | some a =>
    if a.pendingDue now || a.cancelDue now then
      match nextPlanId now b a with
      | some tariffPlanId =>
        .ok
          { b with
            accounts :=
              Function.update b.accounts accountId (some (lazyTransition now a tariffPlanId)) }
      | none => .error (.database none)
    else .ok b
  | none => .ok b

end EvidentLedger.Ledger
