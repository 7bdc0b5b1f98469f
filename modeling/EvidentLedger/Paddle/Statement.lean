import EvidentLedger.Paddle.Tables
import EvidentLedger.Lib.Session

/-!
# The statements of billing

Each SQL statement of `src/paddle/processor.rs`, `src/paddle/webhook_store.rs`, `src/paddle/linking.rs`,
`ensure_paddle_customer` (`src/service/billing.rs:78-105`) and `apply_lazy_billing_transitions`, as an
effect on the tables it sees; and the one by which an operator prices a plan (`docs/DEPLOYMENT.md:133`).

* An `UPDATE` looks for its row, waits for the holder of the row, and works on the row as it is then. A
  new value of a unique column waits for the holder of that value, too, and fails if it is taken.
* The six `UPDATE accounts` of the processor are one statement with a `SubscriptionChange`.
* Nobody deletes an account or a plan. The foreign keys take no locks here.

`schema` puts the tables and the statements together.
-/

namespace EvidentLedger.Paddle

open Lib.Transaction
open Ledger (AccountRow SubscriptionStatus nextPlanId lazyTransition)

/-! ## Changes of a subscription -/

/-- The `SET` clauses of the processor. -/
inductive SubscriptionChange where
  /-- Of `subscription_created`, and of an upgrade. -/
  | activate (planId : Uuid) (periodEnd : Int) (subscriptionId : Option String)
  /-- Of a downgrade. -/
  | schedule (planId : Uuid)
  /-- Of `subscription_updated` with neither. -/
  | renew (periodEnd : Int) (subscriptionId : Option String)
  /-- Of `subscription_past_due`. -/
  | pastDue
  /-- Of `subscription_canceled`. -/
  | cancel (periodEnd : Int)
  deriving DecidableEq

namespace SubscriptionChange

def apply : SubscriptionChange → AccountRow → AccountRow
  | activate planId periodEnd _, _ => ⟨planId, none, .active, some periodEnd⟩
  | schedule planId, a => { a with pendingTariffPlanId := some planId }
  | renew periodEnd _, a =>
    { a with subscriptionStatus := .active, currentPeriodEnd := some periodEnd }
  | pastDue, a => { a with subscriptionStatus := .pastDue }
  | cancel periodEnd, a =>
    { a with subscriptionStatus := .canceled, currentPeriodEnd := some periodEnd }

/-- `COALESCE($4, paddle_subscription_id)`: the new value, if there is one. -/
def subscriptionId : SubscriptionChange → Option String
  | activate _ _ subscriptionId => subscriptionId
  | renew _ subscriptionId => subscriptionId
  | _ => none

end SubscriptionChange

/-! ## Statements -/

inductive Sql where
  /-- On the pool: `SELECT … FROM paddle_webhook_events WHERE paddle_event_id = $1`. -/
  | selectWebhook (paddleEventId : String)
  /-- On the pool: `SELECT … FROM accounts WHERE paddle_customer_id = $1`. -/
  | selectAccountByCustomer (customerId : String)
  /-- `INSERT INTO paddle_webhook_events (…) VALUES (…, 'received') RETURNING id`. -/
  | insertReceived (paddleEventId payloadHash : String) (accountId : Option Uuid)
      (eventOccurredAt : Int)
  /-- `UPDATE … SET status = 'processing' … WHERE id = $1 AND status IN ('received', 'failed')`. -/
  | markProcessing (id : Uuid)
  /-- `SELECT MAX(event_occurred_at) … WHERE account_id = $1 AND status = 'processed'`. -/
  | selectLastProcessed (accountId : Uuid)
  /-- `SELECT … FROM tariff_plans WHERE paddle_price_id = $1`. -/
  | selectPlanByPrice (priceId : String)
  /-- `SELECT … FROM tariff_plans WHERE plan_id = $1`. -/
  | selectPlanById (planId : Uuid)
  /-- `UPDATE accounts SET … WHERE account_id = $1`, for a delivery that has read `account`. -/
  | updateAccount (account : Account) (change : SubscriptionChange)
  /-- `UPDATE paddle_webhook_events SET status = … WHERE id = $1 AND status = 'processing'`. -/
  | finish (id : Uuid) (status : WebhookStatus)
  /-- `INSERT INTO paddle_pending_links (paddle_customer_id, paddle_email) VALUES ($1, $2)`. -/
  | insertPendingLink (paddleCustomerId paddleEmail : String)
  /-- `SELECT account_id FROM accounts WHERE paddle_customer_id = $1`. -/
  | selectOwner (pool : Bool) (customerId : String)
  /-- `SELECT email, paddle_customer_id FROM accounts WHERE account_id = $1 FOR UPDATE`. -/
  | selectAccountForUpdate (accountId : Uuid)
  /-- `UPDATE accounts SET paddle_customer_id = $1 WHERE account_id = $2 AND (paddle_customer_id IS NULL
  OR paddle_customer_id = $1) RETURNING account_id`. -/
  | linkCustomer (pool : Bool) (customerId : String) (accountId : Uuid)
  /-- `SELECT paddle_customer_id FROM accounts WHERE account_id = $1`. -/
  | selectCustomer (pool : Bool) (accountId : Uuid)
  /-- On the pool: the `UPDATE` of `apply_lazy_billing_transitions`. -/
  | applyLazyBillingTransitions (accountId : Uuid)
  /-- On the pool: `UPDATE tariff_plans SET paddle_price_id = $1 WHERE name = $2`. -/
  | updatePrice (priceId planName : String)

/-- Their answers. -/
def Sql.Res : Sql → Type
  | selectWebhook _ => Option WebhookEventRow
  | selectAccountByCustomer _ => Option Account
  | insertReceived _ _ _ _ => Uuid
  | markProcessing _ => Bool
  | selectLastProcessed _ => Option Int
  | selectPlanByPrice _ => Option TariffPlanRow
  | selectPlanById _ => TariffPlanRow
  | selectOwner _ _ => Option Uuid
  | selectAccountForUpdate _ => Option (Option String)
  | linkCustomer _ _ _ => Bool
  | selectCustomer _ _ => Option String
  | _ => Unit

/-- The statements given the pool. -/
def Sql.onPool : Sql → Bool
  | selectWebhook _ => true
  | selectAccountByCustomer _ => true
  | selectOwner pool _ => pool
  | linkCustomer pool _ _ => pool
  | selectCustomer pool _ => pool
  | applyLazyBillingTransitions _ => true
  | updatePrice _ _ => true
  | _ => false

inductive PaddleClientError where
  | timeout
  | networkError
  | apiError (status : Nat)
  | invalidResponse
  deriving DecidableEq

/-- `PaddleClient::create_customer`. -/
inductive Ask where
  | createCustomer (email : String)

def Ask.Ans : Ask → Type
  | createCustomer _ => Except PaddleClientError String

/-- The answers and failures of one step. -/
structure Choice where
  fails : Bool
  time : Int
  uuid : Uuid
  customer : Except PaddleClientError String

def Choice.answer (c : Choice) : (a : Ask) → a.Ans
  | .createCustomer _ => c.customer

/-- `last_processed_occurred_at`. -/
def Tables.lastProcessed (db : Tables) (accountId : Uuid) : Option Int :=
  ((db.webhookEvents.filter fun row =>
    row.accountId == some accountId && row.status == .processed).map (·.eventOccurredAt)).max?

/-- An `UPDATE` of an account with the write `w` that also assigns its subscription, if it is given. -/
def assignSubscription (waits : Key → Bool) (db : Tables) (accountId : Uuid) (w : Write) :
    Option String → Outcome Key Write Unit
  | none => takes waits [.account accountId] () [w]
  | some s =>
    if db.subscription? accountId = some s then takes waits [.account accountId] () [w]
    else unlessHeld waits (.subscription s) <|
      if db.subscriptions.any (·.1 == s) then breaks "idx_accounts_paddle_subscription_id"
      else
        takes waits
          (.account accountId :: .subscription s ::
            (db.subscription? accountId).toList.map .subscription)
          () [w, .setSubscription accountId (db.subscription? accountId) s]

/-- What a statement does to the tables `db` it sees, at `now`. -/
def Sql.effect (s : Sql) (waits : Key → Bool) (c : Choice) (now : Int) (db : Tables) :
    Outcome Key Write s.Res :=
  match s with
  | selectWebhook paddleEventId => answers (db.webhook? paddleEventId)
  | selectAccountByCustomer customerId => answers ((db.owner? customerId).bind db.account?)
  | insertReceived paddleEventId payloadHash accountId eventOccurredAt =>
    unlessHeld waits (.webhook c.uuid) <|
      if (db.webhookById? c.uuid).isSome then breaks "paddle_webhook_events_pkey"
      else unlessHeld waits (.paddleEvent paddleEventId) <|
        if (db.webhook? paddleEventId).isSome then
          breaks "paddle_webhook_events_paddle_event_id_key"
        else if accountId.any fun a => (db.account? a).isNone then
          breaks "paddle_webhook_events_account_id_fkey"
        else takes waits [.webhook c.uuid, .paddleEvent paddleEventId] c.uuid
          [.insertWebhook ⟨c.uuid, paddleEventId, payloadHash, accountId, eventOccurredAt, .received⟩]
  | markProcessing id =>
    match db.webhookById? id with
    | some row =>
      if row.status = .received ∨ row.status = .failed then
        takes waits [.webhook id, .paddleEvent row.paddleEventId] true
          [.setStatus row.paddleEventId id .processing]
      else answers false
    | none => answers false
  | selectLastProcessed accountId => answers (db.lastProcessed accountId)
  | selectPlanByPrice priceId => answers (db.planByPrice? priceId)
  | selectPlanById planId =>
    match db.plan? planId with
    | some plan => answers plan
    | none => refuses .rowNotFound
  | updateAccount account change =>
    match db.account? account.accountId with
    | some row =>
      unlessHeld waits (.account account.accountId) <|
        assignSubscription waits db account.accountId
          (.setBilling account.accountId (change.apply row.toAccountRow)) change.subscriptionId
    | none => answers ()
  | finish id status =>
    match db.webhookById? id with
    | some row =>
      if row.status = .processing then
        takes waits [.webhook id, .paddleEvent row.paddleEventId] ()
          [.setStatus row.paddleEventId id status]
      else answers ()
    | none => answers ()
  | insertPendingLink paddleCustomerId paddleEmail =>
    takes waits [] () [.insertPendingLink ⟨paddleCustomerId, paddleEmail⟩]
  | selectOwner _ customerId => answers (db.owner? customerId)
  | selectAccountForUpdate accountId =>
    match db.account? accountId with
    | some _ => takes waits [.account accountId] (some (db.customer? accountId)) []
    | none => answers none
  | linkCustomer _ customerId accountId =>
    match db.account? accountId, db.customer? accountId with
    | some _, none =>
      unlessHeld waits (.account accountId) <| unlessHeld waits (.customer customerId) <|
        if (db.owner? customerId).isSome then breaks "accounts_paddle_customer_id_key"
        else takes waits [.account accountId, .customer customerId] true
          [.linkCustomer customerId accountId]
    | some _, some current =>
      if current = customerId then takes waits [.account accountId] true [] else answers false
    | none, _ => answers false
  | selectCustomer _ accountId => answers (db.customer? accountId)
  | applyLazyBillingTransitions accountId =>
    match db.account? accountId with
    | some row =>
      if row.pendingDue now || row.cancelDue now then
        match nextPlanId now db.billing row.toAccountRow with
        | some planId =>
          takes waits [.account accountId] ()
            [.setBilling accountId (lazyTransition now row.toAccountRow planId)]
        | none => unlessHeld waits (.account accountId) (refuses (.database none))
      else answers ()
    | none => answers ()
  | updatePrice priceId planName =>
    if db.tariffPlans.any (·.name == planName) then
      takes waits [.plan planName] () [.setPrice planName priceId]
    else answers ()

/-! ## The schema -/

variable {waits : Key → Bool} {c : Choice} {now : Int} {db : Tables} {ks : List Key}
  {ws : List Write}

theorem fair_assignSubscription (accountId : Uuid) (w : Write) (s : Option String) :
    Fair waits (assignSubscription waits db accountId w s) := by
  cases s with
  | none => exact fair_takes
  | some s =>
    by_cases h : db.subscription? accountId = some s
    · simp only [assignSubscription, if_pos h]
      exact fair_takes
    · simp only [assignSubscription, if_neg h]
      refine fair_unlessHeld ?_
      split
      · exact fair_refuses
      · exact fair_takes

/-- Every branch of every statement is fair. -/
theorem fair_effect (s : Sql) (waits : Key → Bool) (c : Choice) (now : Int) (db : Tables) :
    Fair waits (s.effect waits c now db) := by
  cases s <;> simp only [Sql.effect]
  all_goals
    repeat' first
    | exact fair_answers
    | exact fair_refuses
    | exact fair_takes
    | exact fair_assignSubscription _ _ _
    | refine fair_unlessHeld ?_
    | split

theorem covered_assignSubscription (accountId : Uuid) (row : AccountRow) (s : Option String) :
    Covered Write.keys (assignSubscription waits db accountId (.setBilling accountId row) s) := by
  cases s with
  | none => exact covered_takes (by simp [Write.keys])
  | some s =>
    by_cases h : db.subscription? accountId = some s
    · simp only [assignSubscription, if_pos h]
      exact covered_takes (by simp [Write.keys])
    · simp only [assignSubscription, if_neg h]
      refine covered_unlessHeld ?_
      split
      · exact covered_refuses
      · exact covered_takes (by simp [Write.keys])

/-- A statement locks what it writes. -/
theorem covered_effect (s : Sql) (waits : Key → Bool) (c : Choice) (now : Int) (db : Tables) :
    Covered Write.keys (s.effect waits c now db) := by
  cases s <;> simp only [Sql.effect]
  all_goals
    repeat' first
    | exact covered_answers
    | exact covered_refuses
    | exact covered_takes (by simp [Write.keys])
    | exact covered_assignSubscription _ _ _
    | refine covered_unlessHeld ?_
    | split

/-- The tables of billing under their statements. -/
abbrev schema : Schema where
  Db := Tables
  Key := Key
  Write := Write
  Sql := Sql
  Res := Sql.Res
  Ask := Ask
  Ans := Ask.Ans
  Choice := Choice
  decKey := inferInstance
  apply := Write.apply
  keys := Write.keys
  onPool := Sql.onPool
  effect := Sql.effect
  answer := Choice.answer
  fails := Choice.fails
  time := Choice.time
  same := Key.same
  same_refl := Key.same_refl
  same_trans := Key.same_trans
  same_apply := same_apply
  same_congr := same_congr
  effect_waits h := fair_effect _ _ _ _ _ _ _ _ h
  effect_pool _ h := waits_of_covered (fair_effect _ _ _ _ _) (covered_effect _ _ _ _ _) h

/-! ## What an answer says -/

section Answers

variable {e hash customerId priceId planName : String} {id accountId planId : Uuid} {occurredAt : Int}
  {b : Bool}

theorem selectWebhook_ok {row : Option WebhookEventRow}
    (h : (Sql.selectWebhook e).effect waits c now db = some (.ok (row, ks, ws))) :
    row = db.webhook? e ∧ ws = [] := by
  obtain ⟨rfl, -, rfl⟩ := answers_ok.mp h
  exact ⟨rfl, rfl⟩

theorem selectAccountByCustomer_ok {account : Option Account}
    (h : (Sql.selectAccountByCustomer customerId).effect waits c now db = some (.ok (account, ks, ws))) :
    account = (db.owner? customerId).bind db.account? ∧ ws = [] := by
  obtain ⟨rfl, -, rfl⟩ := answers_ok.mp h
  exact ⟨rfl, rfl⟩

theorem insertReceived_ok {account : Option Uuid}
    (h : (Sql.insertReceived e hash account occurredAt).effect waits c now db =
      some (.ok (id, ks, ws))) :
    db.webhookById? id = none ∧ db.webhook? e = none ∧ ks = [.webhook id, .paddleEvent e] ∧
      ws = [.insertWebhook ⟨id, e, hash, account, occurredAt, .received⟩] := by
  simp only [Sql.effect] at h
  obtain ⟨-, h⟩ := unlessHeld_some h
  by_cases hid : (db.webhookById? c.uuid).isSome = true
  · rw [if_pos hid] at h
    exact absurd h refuses_ok
  rw [if_neg hid] at h
  obtain ⟨-, h⟩ := unlessHeld_some h
  by_cases he : (db.webhook? e).isSome = true
  · rw [if_pos he] at h
    exact absurd h refuses_ok
  rw [if_neg he] at h
  by_cases ha : account.any (fun a => (db.account? a).isNone) = true
  · rw [if_pos ha] at h
    exact absurd h refuses_ok
  rw [if_neg ha] at h
  obtain ⟨-, rfl, rfl, rfl⟩ := takes_ok.mp h
  exact ⟨by simpa using hid, by simpa using he, rfl, rfl⟩

/-- Claimed, or not to be had. -/
theorem markProcessing_ok
    (h : (Sql.markProcessing id).effect waits c now db = some (.ok (b, ks, ws))) :
    b = false ∧ ws = [] ∨ b = true ∧ ∃ row, db.webhookById? id = some row ∧
      (row.status = .received ∨ row.status = .failed) ∧
        ks = [.webhook id, .paddleEvent row.paddleEventId] ∧
          ws = [.setStatus row.paddleEventId id .processing] := by
  simp only [Sql.effect] at h
  cases hrow : db.webhookById? id with
  | none =>
    rw [hrow] at h
    obtain ⟨rfl, -, rfl⟩ := answers_ok.mp h
    exact Or.inl ⟨rfl, rfl⟩
  | some row =>
    rw [hrow] at h
    by_cases hstatus : row.status = .received ∨ row.status = .failed
    · simp only [if_pos hstatus] at h
      obtain ⟨-, rfl, rfl, rfl⟩ := takes_ok.mp h
      exact Or.inr ⟨rfl, row, rfl, hstatus, rfl, rfl⟩
    · simp only [if_neg hstatus] at h
      obtain ⟨rfl, -, rfl⟩ := answers_ok.mp h
      exact Or.inl ⟨rfl, rfl⟩

theorem selectLastProcessed_ok {last : Option Int}
    (h : (Sql.selectLastProcessed accountId).effect waits c now db = some (.ok (last, ks, ws))) :
    last = db.lastProcessed accountId ∧ ws = [] := by
  obtain ⟨rfl, -, rfl⟩ := answers_ok.mp h
  exact ⟨rfl, rfl⟩

theorem selectPlanByPrice_ok {plan : Option TariffPlanRow}
    (h : (Sql.selectPlanByPrice priceId).effect waits c now db = some (.ok (plan, ks, ws))) :
    plan = db.planByPrice? priceId ∧ ws = [] := by
  obtain ⟨rfl, -, rfl⟩ := answers_ok.mp h
  exact ⟨rfl, rfl⟩

theorem selectPlanById_ok {plan : TariffPlanRow}
    (h : (Sql.selectPlanById planId).effect waits c now db = some (.ok (plan, ks, ws))) :
    db.plan? planId = some plan ∧ ws = [] := by
  simp only [Sql.effect] at h
  cases hplan : db.plan? planId with
  | none =>
    rw [hplan] at h
    exact absurd h refuses_ok
  | some row =>
    rw [hplan] at h
    obtain ⟨rfl, -, rfl⟩ := answers_ok.mp h
    exact ⟨rfl, rfl⟩

/-- Only the subscription of the account. -/
def Write.OfSubscription (accountId : Uuid) (w : Write) : Prop :=
  ∃ old s, w = .setSubscription accountId old s

theorem assignSubscription_ok {w : Write} {s : Option String} {u : Unit}
    (h : assignSubscription waits db accountId w s = some (.ok (u, ks, ws))) :
    Key.account accountId ∈ ks ∧ ∃ rest, ws = w :: rest ∧ ∀ w' ∈ rest, w'.OfSubscription accountId := by
  cases s with
  | none =>
    obtain ⟨-, -, rfl, rfl⟩ := takes_ok.mp h
    exact ⟨by simp, [], rfl, by simp⟩
  | some s =>
    by_cases hsame : db.subscription? accountId = some s
    · simp only [assignSubscription, if_pos hsame] at h
      obtain ⟨-, -, rfl, rfl⟩ := takes_ok.mp h
      exact ⟨by simp, [], rfl, by simp⟩
    · simp only [assignSubscription, if_neg hsame] at h
      obtain ⟨-, h⟩ := unlessHeld_some h
      by_cases htaken : db.subscriptions.any (·.1 == s) = true
      · rw [if_pos htaken] at h
        exact absurd h refuses_ok
      · rw [if_neg htaken] at h
        obtain ⟨-, -, rfl, rfl⟩ := takes_ok.mp h
        refine ⟨by simp, _, rfl, fun w' hw => ?_⟩
        obtain rfl := List.mem_singleton.mp hw
        exact ⟨_, s, rfl⟩

/-- The row that is there changes. -/
theorem updateAccount_ok {account : Account} {change : SubscriptionChange} {u : Unit}
    (h : (Sql.updateAccount account change).effect waits c now db = some (.ok (u, ks, ws))) :
    db.account? account.accountId = none ∧ ws = [] ∨
      ∃ row rest, db.account? account.accountId = some row ∧ Key.account account.accountId ∈ ks ∧
        ws = .setBilling account.accountId (change.apply row.toAccountRow) :: rest ∧
          ∀ w ∈ rest, w.OfSubscription account.accountId := by
  simp only [Sql.effect] at h
  cases hrow : db.account? account.accountId with
  | none =>
    rw [hrow] at h
    obtain ⟨-, -, rfl⟩ := answers_ok.mp h
    exact Or.inl ⟨rfl, rfl⟩
  | some row =>
    rw [hrow] at h
    obtain ⟨-, h⟩ := unlessHeld_some h
    obtain ⟨hk, rest, rfl, hrest⟩ := assignSubscription_ok h
    exact Or.inr ⟨row, rest, rfl, hk, rfl, hrest⟩

/-- A row that is being processed gets its last status. -/
theorem finish_ok {status : WebhookStatus} {u : Unit} {row : WebhookEventRow}
    (hrow : db.webhookById? id = some row) (hstatus : row.status = .processing)
    (h : (Sql.finish id status).effect waits c now db = some (.ok (u, ks, ws))) :
    ws = [.setStatus row.paddleEventId id status] := by
  simp only [Sql.effect, hrow, if_pos hstatus] at h
  obtain ⟨-, -, -, rfl⟩ := takes_ok.mp h
  rfl

theorem insertPendingLink_ok {email : String} {u : Unit}
    (h : (Sql.insertPendingLink customerId email).effect waits c now db = some (.ok (u, ks, ws))) :
    ws = [.insertPendingLink ⟨customerId, email⟩] := by
  obtain ⟨-, -, -, rfl⟩ := takes_ok.mp h
  rfl

/-- A new pair of a customer and an account without one, or nothing. -/
theorem linkCustomer_ok {pool : Bool}
    (h : (Sql.linkCustomer pool customerId accountId).effect waits c now db =
      some (.ok (b, ks, ws))) :
    (ws = [] ∧ (b = true → db.customer? accountId = some customerId)) ∨
      db.customer? accountId = none ∧ db.owner? customerId = none ∧ b = true ∧
        ks = [.account accountId, .customer customerId] ∧
          ws = [.linkCustomer customerId accountId] := by
  simp only [Sql.effect] at h
  cases hrow : db.account? accountId with
  | none =>
    rw [hrow] at h
    obtain ⟨rfl, -, rfl⟩ := answers_ok.mp h
    exact Or.inl ⟨rfl, fun h => absurd h (by simp)⟩
  | some row =>
    cases hcustomer : db.customer? accountId with
    | none =>
      rw [hrow, hcustomer] at h
      obtain ⟨-, h⟩ := unlessHeld_some h
      obtain ⟨-, h⟩ := unlessHeld_some h
      by_cases howner : (db.owner? customerId).isSome = true
      · rw [if_pos howner] at h
        exact absurd h refuses_ok
      · rw [if_neg howner] at h
        obtain ⟨-, hb, rfl, rfl⟩ := takes_ok.mp h
        exact Or.inr ⟨rfl, by simpa using howner, hb, rfl, rfl⟩
    | some current =>
      rw [hrow, hcustomer] at h
      by_cases hsame : current = customerId
      · simp only [if_pos hsame] at h
        obtain ⟨-, -, -, rfl⟩ := takes_ok.mp h
        exact Or.inl ⟨rfl, fun _ => congrArg some hsame⟩
      · simp only [if_neg hsame] at h
        obtain ⟨rfl, -, rfl⟩ := answers_ok.mp h
        exact Or.inl ⟨rfl, fun h => absurd h (by simp)⟩

theorem selectAccountForUpdate_ok {current : Option (Option String)}
    (h : (Sql.selectAccountForUpdate accountId).effect waits c now db = some (.ok (current, ks, ws))) :
    ws = [] ∧ (current = none ∨ current = some (db.customer? accountId)) := by
  simp only [Sql.effect] at h
  cases hrow : db.account? accountId with
  | none =>
    rw [hrow] at h
    obtain ⟨rfl, -, rfl⟩ := answers_ok.mp h
    exact ⟨rfl, Or.inl rfl⟩
  | some row =>
    rw [hrow] at h
    obtain ⟨-, rfl, -, rfl⟩ := takes_ok.mp h
    exact ⟨rfl, Or.inr rfl⟩

/-- Nothing is due, or the transition is carried out. -/
theorem applyLazyBillingTransitions_ok {u : Unit}
    (h : (Sql.applyLazyBillingTransitions accountId).effect waits c now db =
      some (.ok (u, ks, ws))) :
    (ws = [] ∧ ∀ row, db.account? accountId = some row →
        (row.pendingDue now || row.cancelDue now) = false) ∨
      ∃ row planId, db.account? accountId = some row ∧
        (row.pendingDue now || row.cancelDue now) = true ∧
          nextPlanId now db.billing row.toAccountRow = some planId ∧
            ws = [.setBilling accountId (lazyTransition now row.toAccountRow planId)] := by
  simp only [Sql.effect] at h
  cases hrow : db.account? accountId with
  | none =>
    rw [hrow] at h
    obtain ⟨-, -, rfl⟩ := answers_ok.mp h
    exact Or.inl ⟨rfl, by simp⟩
  | some row =>
    rw [hrow] at h
    by_cases hdue : (row.pendingDue now || row.cancelDue now) = true
    · simp only [if_pos hdue] at h
      cases hplan : nextPlanId now db.billing row.toAccountRow with
      | none =>
        rw [hplan] at h
        exact absurd (unlessHeld_some h).2 refuses_ok
      | some planId =>
        rw [hplan] at h
        obtain ⟨-, -, -, rfl⟩ := takes_ok.mp h
        exact Or.inr ⟨row, planId, rfl, hdue, hplan, rfl⟩
    · simp only [if_neg hdue] at h
      obtain ⟨-, -, rfl⟩ := answers_ok.mp h
      refine Or.inl ⟨rfl, fun r hr => ?_⟩
      rw [← Option.some.inj hr]
      simpa using hdue

theorem updatePrice_ok {u : Unit}
    (h : (Sql.updatePrice priceId planName).effect waits c now db = some (.ok (u, ks, ws))) :
    ws = [] ∨ ws = [.setPrice planName priceId] := by
  simp only [Sql.effect] at h
  by_cases hplan : db.tariffPlans.any (·.name == planName) = true
  · rw [if_pos hplan] at h
    obtain ⟨-, -, -, rfl⟩ := takes_ok.mp h
    exact Or.inr rfl
  · rw [if_neg hplan] at h
    obtain ⟨-, -, rfl⟩ := answers_ok.mp h
    exact Or.inl rfl

end Answers

end EvidentLedger.Paddle
