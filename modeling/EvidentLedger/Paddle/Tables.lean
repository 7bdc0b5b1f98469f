import EvidentLedger.Ledger.Subscription
import EvidentLedger.Lib.Outcome

/-!
# Payment events and the tables of billing

The payload of a Paddle webhook (`src/paddle/models.rs`), and the tables it works on: `accounts`,
`tariff_plans`, `paddle_webhook_events` and `paddle_pending_links` (`migrations/20260716000000`,
`20260718120000`, `20260718140000` to `20260718142000`, `20260718160000`).

* Columns that no function reads are left out: the texts and times kept for an audit, and the e-mail of
  an account.
* `accounts.paddle_customer_id` and `accounts.paddle_subscription_id` are kept as the pairs of their
  unique indexes. A missing pair is a `NULL`.
* `Account.version` counts the writes to the billing columns of a row. PostgreSQL keeps such a version
  of every row; no function looks at it.
* `Write` is what a transaction leaves, `Key` a row or a unique key, and `Key.same` the part of the
  tables under it.
-/

namespace EvidentLedger.Paddle

open Lib.Transaction
open Ledger (AccountRow Billing SubscriptionStatus)

/-! ## The payload -/

structure PaddleCustomerRef where
  id : Option String
  email : Option String
  deriving DecidableEq

structure PaddleBillingPeriod where
  endsAt : Int
  deriving DecidableEq

structure PaddlePriceRef where
  id : String
  deriving DecidableEq

structure PaddleSubscriptionItem where
  price : Option PaddlePriceRef
  deriving DecidableEq

structure PaddleEventData where
  id : Option String
  customerId : Option String
  customer : Option PaddleCustomerRef
  currentBillingPeriod : Option PaddleBillingPeriod
  items : Option (List PaddleSubscriptionItem)
  deriving DecidableEq

structure PaddleWebhookEvent where
  eventId : String
  eventType : String
  occurredAt : Int
  data : PaddleEventData
  deriving DecidableEq

/-- The event types that `is_handled_event_type` knows. -/
inductive HandledEventType where
  | subscriptionCreated
  | subscriptionUpdated
  | subscriptionPastDue
  | subscriptionCanceled
  deriving DecidableEq

namespace PaddleWebhookEvent

variable (event : PaddleWebhookEvent)

/-- `normalized_event_type`. Among the letters of the known types, lower case is that of ASCII. -/
def normalizedEventType : String :=
  String.ofList (event.eventType.toList.map fun c => if c = '.' then '_' else c.toLower)

/-- `is_handled_event_type`, with the type that it finds. -/
def handledEventType : Option HandledEventType :=
  if event.normalizedEventType = "subscription_created" then some .subscriptionCreated
  else if event.normalizedEventType = "subscription_updated" then some .subscriptionUpdated
  else if event.normalizedEventType = "subscription_past_due" then some .subscriptionPastDue
  else if event.normalizedEventType = "subscription_canceled" then some .subscriptionCanceled
  else none

def customerId : Option String := event.data.customerId.or (event.data.customer.bind (·.id))

def customerEmail : Option String := event.data.customer.bind (·.email)

def subscriptionId : Option String := event.data.id

def priceId : Option String :=
  (event.data.items.bind (·.head?)).bind fun item => item.price.map (·.id)

def periodEnd : Option Int := event.data.currentBillingPeriod.map (·.endsAt)

end PaddleWebhookEvent

/-! ## Rows -/

/-- A row of `tariff_plans`. -/
structure TariffPlanRow extends Ledger.TariffPlanRow where
  priority : Int
  paddlePriceId : Option String
  deriving DecidableEq

/-- `is_upgrade`. -/
def isUpgrade (oldPlan newPlan : TariffPlanRow) : Bool := newPlan.priority > oldPlan.priority

/-- `is_downgrade`. -/
def isDowngrade (oldPlan newPlan : TariffPlanRow) : Bool := newPlan.priority < oldPlan.priority

/-- A row of `accounts`. -/
structure Account extends AccountRow where
  accountId : Uuid
  version : Nat
  deriving DecidableEq

/-- `paddle_webhook_events.status`, by its `CHECK`. -/
inductive WebhookStatus where
  | received
  | processing
  | processed
  | failed
  | waitingForAccountLink
  deriving DecidableEq

/-- A row of `paddle_webhook_events`. -/
structure WebhookEventRow where
  id : Uuid
  paddleEventId : String
  payloadHash : String
  accountId : Option Uuid
  eventOccurredAt : Int
  status : WebhookStatus
  deriving DecidableEq

/-- A row of `paddle_pending_links`. -/
structure PendingLink where
  paddleCustomerId : String
  paddleEmail : String
  deriving DecidableEq

/-- The tables. -/
structure Tables where
  accounts : List Account
  /-- `paddle_customer_id`, with the account that has it. -/
  customers : List (String × Uuid)
  /-- `paddle_subscription_id`, with the account that has it. -/
  subscriptions : List (String × Uuid)
  tariffPlans : List TariffPlanRow
  webhookEvents : List WebhookEventRow
  pendingLinks : List PendingLink

namespace Tables

variable (db : Tables)

def account? (accountId : Uuid) : Option Account := db.accounts.find? (·.accountId == accountId)

/-- The account with a customer id. -/
def owner? (customerId : String) : Option Uuid :=
  (db.customers.find? (·.1 == customerId)).map (·.2)

/-- `paddle_customer_id` of an account. -/
def customer? (accountId : Uuid) : Option String :=
  (db.customers.find? (·.2 == accountId)).map (·.1)

/-- `paddle_subscription_id` of an account. -/
def subscription? (accountId : Uuid) : Option String :=
  (db.subscriptions.find? (·.2 == accountId)).map (·.1)

def webhook? (paddleEventId : String) : Option WebhookEventRow :=
  db.webhookEvents.find? (·.paddleEventId == paddleEventId)

def webhookById? (id : Uuid) : Option WebhookEventRow := db.webhookEvents.find? (·.id == id)

def plan? (planId : Uuid) : Option TariffPlanRow := db.tariffPlans.find? (·.planId == planId)

def planByPrice? (priceId : String) : Option TariffPlanRow :=
  db.tariffPlans.find? (·.paddlePriceId == some priceId)

/-- The tables that `apply_lazy_billing_transitions` looks at. -/
def billing : Billing where
  accounts accountId := (db.account? accountId).map (·.toAccountRow)
  tariffPlans := db.tariffPlans.map (·.toTariffPlanRow)

end Tables

/-! ## Writes -/

/-- What a transaction leaves in the tables. -/
inductive Write where
  | insertWebhook (row : WebhookEventRow)
  | setStatus (paddleEventId : String) (id : Uuid) (status : WebhookStatus)
  | insertPendingLink (row : PendingLink)
  | setBilling (accountId : Uuid) (row : AccountRow)
  | setSubscription (accountId : Uuid) (old : Option String) (subscriptionId : String)
  | linkCustomer (customerId : String) (accountId : Uuid)
  | setPrice (planName priceId : String)
  deriving DecidableEq

/-- The row with another status. -/
def WebhookEventRow.mark (paddleEventId : String) (id : Uuid) (status : WebhookStatus)
    (row : WebhookEventRow) : WebhookEventRow :=
  if row.paddleEventId == paddleEventId && row.id == id then { row with status } else row

/-- The row with other billing columns. -/
def Account.assign (accountId : Uuid) (row : AccountRow) (a : Account) : Account :=
  if a.accountId == accountId then ⟨row, a.accountId, a.version + 1⟩ else a

/-- The row with another price. -/
def TariffPlanRow.offer (planName priceId : String) (plan : TariffPlanRow) : TariffPlanRow :=
  if plan.name == planName then { plan with paddlePriceId := some priceId } else plan

def Write.apply : Write → Tables → Tables
  | insertWebhook row, db => { db with webhookEvents := db.webhookEvents ++ [row] }
  | setStatus paddleEventId id status, db =>
    { db with webhookEvents := db.webhookEvents.map (·.mark paddleEventId id status) }
  | insertPendingLink row, db => { db with pendingLinks := db.pendingLinks ++ [row] }
  | setBilling accountId row, db =>
    { db with accounts := db.accounts.map (·.assign accountId row) }
  | setSubscription accountId old subscriptionId, db =>
    { db with
      subscriptions := (db.subscriptions.filter fun pair =>
        !(some pair.1 == old && pair.2 == accountId)) ++ [(subscriptionId, accountId)] }
  | linkCustomer customerId accountId, db =>
    { db with customers := db.customers ++ [(customerId, accountId)] }
  | setPrice planName priceId, db =>
    { db with tariffPlans := db.tariffPlans.map (·.offer planName priceId) }

/-- A row, or a unique key. -/
inductive Key where
  | webhook (id : Uuid)
  | paddleEvent (paddleEventId : String)
  | account (accountId : Uuid)
  | customer (customerId : String)
  | subscription (subscriptionId : String)
  | plan (name : String)
  deriving DecidableEq

def Write.keys : Write → List Key
  | insertWebhook row => [.webhook row.id, .paddleEvent row.paddleEventId]
  | setStatus paddleEventId id _ => [.webhook id, .paddleEvent paddleEventId]
  | insertPendingLink _ => []
  | setBilling accountId _ => [.account accountId]
  | setSubscription accountId old subscriptionId =>
    .account accountId :: .subscription subscriptionId :: old.toList.map .subscription
  | linkCustomer customerId accountId => [.account accountId, .customer customerId]
  | setPrice planName _ => [.plan planName]

/-- The part of the tables under a key is the same. -/
def Key.same : Key → Tables → Tables → Prop
  | webhook id, db, db' => db'.webhookEvents.filter (·.id == id) = db.webhookEvents.filter (·.id == id)
  | paddleEvent e, db, db' =>
    db'.webhookEvents.filter (·.paddleEventId == e) = db.webhookEvents.filter (·.paddleEventId == e)
  | account a, db, db' =>
    db'.accounts.filter (·.accountId == a) = db.accounts.filter (·.accountId == a) ∧
      db'.customers.filter (·.2 == a) = db.customers.filter (·.2 == a) ∧
      db'.subscriptions.filter (·.2 == a) = db.subscriptions.filter (·.2 == a)
  | customer c, db, db' => db'.customers.filter (·.1 == c) = db.customers.filter (·.1 == c)
  | subscription s, db, db' =>
    db'.subscriptions.filter (·.1 == s) = db.subscriptions.filter (·.1 == s)
  | plan name, db, db' =>
    db'.tariffPlans.filter (·.name == name) = db.tariffPlans.filter (·.name == name)

theorem Key.same_refl (k : Key) (db : Tables) : k.same db db := by
  cases k with
  | account => exact ⟨rfl, rfl, rfl⟩
  | webhook | paddleEvent | customer | subscription | plan => exact rfl

theorem Key.same_trans {k : Key} {db₁ db₂ db₃ : Tables} (h : k.same db₁ db₂)
    (h' : k.same db₂ db₃) : k.same db₁ db₃ := by
  cases k with
  | account => exact ⟨h'.1.trans h.1, h'.2.1.trans h.2.1, h'.2.2.trans h.2.2⟩
  | webhook | paddleEvent | customer | subscription | plan => exact Eq.trans h' h

/-! ### What an update spares -/

section Spares

variable {e e' : String} {id id' a a' : Uuid} {status : WebhookStatus} {row : AccountRow}

@[simp] theorem mark_id (r : WebhookEventRow) : (r.mark e id status).id = r.id := by
  unfold WebhookEventRow.mark
  split_ifs <;> rfl

@[simp] theorem mark_paddleEventId (r : WebhookEventRow) :
    (r.mark e id status).paddleEventId = r.paddleEventId := by
  unfold WebhookEventRow.mark
  split_ifs <;> rfl

@[simp] theorem mark_payloadHash (r : WebhookEventRow) :
    (r.mark e id status).payloadHash = r.payloadHash := by
  unfold WebhookEventRow.mark
  split_ifs <;> rfl

@[simp] theorem mark_accountId (r : WebhookEventRow) :
    (r.mark e id status).accountId = r.accountId := by
  unfold WebhookEventRow.mark
  split_ifs <;> rfl

@[simp] theorem mark_eventOccurredAt (r : WebhookEventRow) :
    (r.mark e id status).eventOccurredAt = r.eventOccurredAt := by
  unfold WebhookEventRow.mark
  split_ifs <;> rfl

theorem mark_of_event_ne {r : WebhookEventRow} (h : r.paddleEventId ≠ e) :
    r.mark e id status = r := by
  simp [WebhookEventRow.mark, h]

theorem mark_of_id_ne {r : WebhookEventRow} (h : r.id ≠ id) : r.mark e id status = r := by
  simp [WebhookEventRow.mark, h]

@[simp] theorem assign_accountId (x : Account) : (x.assign a row).accountId = x.accountId := by
  unfold Account.assign
  split_ifs <;> rfl

theorem assign_of_ne {x : Account} (h : x.accountId ≠ a) : x.assign a row = x := by
  simp [Account.assign, h]

@[simp] theorem offer_name {name price : String} (plan : TariffPlanRow) :
    (plan.offer name price).name = plan.name := by
  unfold TariffPlanRow.offer
  split_ifs <;> rfl

theorem offer_of_ne {name price : String} {plan : TariffPlanRow} (h : plan.name ≠ name) :
    plan.offer name price = plan := by
  simp [TariffPlanRow.offer, h]

/-- **A write without the key** leaves what is under it. -/
theorem same_apply {k : Key} {w : Write} {db : Tables} (h : k ∉ w.keys) :
    k.same db (w.apply db) := by
  cases w with
  | insertWebhook row =>
    cases k with
    | webhook id =>
      have hid : row.id ≠ id := fun heq => h (by simp [Write.keys, heq])
      simp [Key.same, Write.apply, hid]
    | paddleEvent e =>
      have he : row.paddleEventId ≠ e := fun heq => h (by simp [Write.keys, heq])
      simp [Key.same, Write.apply, he]
    | account => exact ⟨rfl, rfl, rfl⟩
    | customer | subscription | plan => exact rfl
  | setStatus e id status =>
    cases k with
    | webhook id' =>
      have hid : id' ≠ id := fun heq => h (by simp [Write.keys, heq])
      refine filter_map_of_self (fun r => by simp) (fun r hr => mark_of_id_ne ?_) _
      rw [beq_iff_eq.mp hr]
      exact hid
    | paddleEvent e' =>
      have he : e' ≠ e := fun heq => h (by simp [Write.keys, heq])
      refine filter_map_of_self (fun r => by simp) (fun r hr => mark_of_event_ne ?_) _
      rw [beq_iff_eq.mp hr]
      exact he
    | account => exact ⟨rfl, rfl, rfl⟩
    | customer | subscription | plan => exact rfl
  | insertPendingLink row =>
    cases k with
    | account => exact ⟨rfl, rfl, rfl⟩
    | webhook | paddleEvent | customer | subscription | plan => exact rfl
  | setBilling a row =>
    cases k with
    | account a' =>
      have ha : a' ≠ a := fun heq => h (by simp [Write.keys, heq])
      refine ⟨filter_map_of_self (fun x => by simp) (fun x hx => assign_of_ne ?_) _, rfl, rfl⟩
      rw [beq_iff_eq.mp hx]
      exact ha
    | webhook | paddleEvent | customer | subscription | plan => exact rfl
  | setSubscription a old s =>
    cases k with
    | account a' =>
      have ha : a' ≠ a := fun heq => h (by simp [Write.keys, heq])
      refine ⟨rfl, rfl, ?_⟩
      simp only [Write.apply, List.filter_append, List.filter_filter]
      have hlast : [(s, a)].filter (fun pair => pair.2 == a') = [] := by simp [ha.symm]
      rw [hlast, List.append_nil]
      refine List.filter_congr fun pair _ => ?_
      by_cases hp : pair.2 = a'
      · simp [hp, ha]
      · simp [hp]
    | subscription s' =>
      have hs : s' ≠ s := fun heq => h (by simp [Write.keys, heq])
      have hold : old ≠ some s' := fun heq => h (by simp [Write.keys, heq])
      simp only [Key.same, Write.apply, List.filter_append, List.filter_filter]
      have hlast : [(s, a)].filter (fun pair => pair.1 == s') = [] := by simp [hs.symm]
      rw [hlast, List.append_nil]
      refine List.filter_congr fun pair _ => ?_
      by_cases hp : pair.1 = s'
      · simp [hp, hold.symm]
      · simp [hp]
    | webhook | paddleEvent | customer | plan => exact rfl
  | linkCustomer c a =>
    cases k with
    | account a' =>
      have ha : a' ≠ a := fun heq => h (by simp [Write.keys, heq])
      exact ⟨rfl, by simp [Write.apply, ha.symm], rfl⟩
    | customer c' =>
      have hc : c' ≠ c := fun heq => h (by simp [Write.keys, heq])
      simp [Key.same, Write.apply, hc.symm]
    | webhook | paddleEvent | subscription | plan => exact rfl
  | setPrice name price =>
    cases k with
    | plan name' =>
      have hn : name' ≠ name := fun heq => h (by simp [Write.keys, heq])
      refine filter_map_of_self (fun plan => by simp) (fun plan hplan => offer_of_ne ?_) _
      rw [beq_iff_eq.mp hplan]
      exact hn
    | account => exact ⟨rfl, rfl, rfl⟩
    | webhook | paddleEvent | customer | subscription => exact rfl

/-- **What a write does under a key** depends on what is there. -/
theorem same_congr {k : Key} {w : Write} {db db' : Tables} (h : k.same db db') :
    k.same (w.apply db) (w.apply db') := by
  cases w with
  | insertWebhook row =>
    cases k with
    | webhook | paddleEvent =>
      simp only [Key.same, Write.apply, List.filter_append] at h ⊢
      rw [h]
    | account | customer | subscription | plan => exact h
  | setStatus e id status =>
    cases k with
    | webhook id' =>
      have hcomm := filter_map_comm (q := fun r : WebhookEventRow => r.id == id')
        (f := WebhookEventRow.mark e id status) fun r => by simp
      simp only [Key.same, Write.apply] at h ⊢
      rw [hcomm, hcomm, h]
    | paddleEvent e' =>
      have hcomm := filter_map_comm (q := fun r : WebhookEventRow => r.paddleEventId == e')
        (f := WebhookEventRow.mark e id status) fun r => by simp
      simp only [Key.same, Write.apply] at h ⊢
      rw [hcomm, hcomm, h]
    | account | customer | subscription | plan => exact h
  | insertPendingLink row =>
    cases k with
    | webhook | paddleEvent | account | customer | subscription | plan => exact h
  | setBilling a row =>
    cases k with
    | account a' =>
      have hcomm := filter_map_comm (q := fun x : Account => x.accountId == a')
        (f := Account.assign a row) fun x => by simp
      simp only [Key.same, Write.apply] at h ⊢
      rw [hcomm, hcomm, h.1]
      exact ⟨rfl, h.2⟩
    | webhook | paddleEvent | customer | subscription | plan => exact h
  | setSubscription a old s =>
    have hswap : ∀ (q : String × Uuid → Bool) (l : List (String × Uuid)),
        (l.filter fun pair => !(some pair.1 == old && pair.2 == a)).filter q =
          (l.filter q).filter fun pair => !(some pair.1 == old && pair.2 == a) := by
      intro q l
      rw [List.filter_filter, List.filter_filter]
      exact List.filter_congr fun _ _ => Bool.and_comm _ _
    cases k with
    | account a' =>
      refine ⟨h.1, h.2.1, ?_⟩
      simp only [Write.apply, List.filter_append, hswap]
      rw [h.2.2]
    | subscription s' =>
      simp only [Key.same, Write.apply, List.filter_append, hswap] at h ⊢
      rw [h]
    | webhook | paddleEvent | customer | plan => exact h
  | linkCustomer c a =>
    cases k with
    | account a' =>
      refine ⟨h.1, ?_, h.2.2⟩
      simp only [Write.apply, List.filter_append]
      rw [h.2.1]
    | customer c' =>
      simp only [Key.same, Write.apply, List.filter_append] at h ⊢
      rw [h]
    | webhook | paddleEvent | subscription | plan => exact h
  | setPrice name price =>
    cases k with
    | plan name' =>
      have hcomm := filter_map_comm (q := fun plan : TariffPlanRow => plan.name == name')
        (f := TariffPlanRow.offer name price) fun plan => by simp
      simp only [Key.same, Write.apply] at h ⊢
      rw [hcomm, hcomm, h]
    | webhook | paddleEvent | account | customer | subscription => exact h

end Spares

end EvidentLedger.Paddle
