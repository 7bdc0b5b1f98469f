import EvidentLedger.Paddle.Processor

/-!
# What the requests of billing commit

The commits of the requests, as predicates of the history before them.

* `Claims`: the row of a delivery, inserted by it or found in a state in which it may be claimed.
  `Ending`: what the delivery does between the two updates of its status, with what it has read and
  when. `Delivers` is the whole transaction, `Commit` the transaction of any request.
* `Grows` relates the tables of two moments: nothing is deleted, the columns of an event but its status
  stay, a customer stays with its account, and an account of the same version is the same.
* **`Setting.webhooks`**: in the tables of every history, an event and an id have one row each, and its
  status is final.
-/

namespace EvidentLedger.Paddle

open Lib.Interleave Lib.Transaction
open Ledger (AccountRow SubscriptionStatus nextPlanId lazyTransition)

/-! ## Growing tables -/

/-- The columns of an event but its status. -/
def WebhookEventRow.SameEvent (row row' : WebhookEventRow) : Prop :=
  row'.id = row.id ∧ row'.paddleEventId = row.paddleEventId ∧ row'.payloadHash = row.payloadHash ∧
    row'.accountId = row.accountId ∧ row'.eventOccurredAt = row.eventOccurredAt

/-- A row of the same version is the same. -/
def Account.Follows (a a' : Account) : Prop :=
  a'.accountId = a.accountId ∧ a.version ≤ a'.version ∧ (a'.version = a.version → a' = a)

/-- An account that follows another is followed in turn. -/
theorem Account.Follows.trans {a b c : Account} (h : a.Follows b) (h' : b.Follows c) :
    a.Follows c := by
  refine ⟨h'.1.trans h.1, h.2.1.trans h'.2.1, fun heq => ?_⟩
  have hb : b.version = a.version := by
    have := h.2.1
    have := h'.2.1
    omega
  rw [h'.2.2 (by omega), h.2.2 hb]

/-- The tables of a later moment. -/
structure Grows (db db' : Tables) : Prop where
  accounts : ∀ a row, db.account? a = some row → ∃ row', db'.account? a = some row' ∧ row.Follows row'
  webhooks : ∀ id row, db.webhookById? id = some row →
    ∃ row', db'.webhookById? id = some row' ∧ row.SameEvent row'
  owners : ∀ c a, db.owner? c = some a → db'.owner? c = some a
  plans : ∀ planId plan, db.plan? planId = some plan → ∃ plan', db'.plan? planId = some plan' ∧
    plan'.priority = plan.priority

/-- No write, no growth. -/
theorem grows_refl (db : Tables) : Grows db db :=
  ⟨fun _ row h => ⟨row, h, rfl, Nat.le_refl _, fun _ => rfl⟩,
    fun _ row h => ⟨row, h, rfl, rfl, rfl, rfl, rfl⟩, fun _ _ h => h, fun _ plan h => ⟨plan, h, rfl⟩⟩

/-- Growth upon growth: rows are kept, and customers stay linked. -/
theorem Grows.trans {db₁ db₂ db₃ : Tables} (h : Grows db₁ db₂) (h' : Grows db₂ db₃) :
    Grows db₁ db₃ := by
  constructor
  · intro a row hrow
    obtain ⟨row', hrow', hf⟩ := h.accounts a row hrow
    obtain ⟨row'', hrow'', hf'⟩ := h'.accounts a row' hrow'
    exact ⟨row'', hrow'', hf.trans hf'⟩
  · intro id row hrow
    obtain ⟨row', hrow', h1, h2, h3, h4, h5⟩ := h.webhooks id row hrow
    obtain ⟨row'', hrow'', h1', h2', h3', h4', h5'⟩ := h'.webhooks id row' hrow'
    exact ⟨row'', hrow'', h1'.trans h1, h2'.trans h2, h3'.trans h3, h4'.trans h4, h5'.trans h5⟩
  · exact fun c a hc => h'.owners c a (h.owners c a hc)
  · intro planId plan hplan
    obtain ⟨plan', hplan', hp⟩ := h.plans planId plan hplan
    obtain ⟨plan'', hplan'', hp'⟩ := h'.plans planId plan' hplan'
    exact ⟨plan'', hplan'', hp'.trans hp⟩

section Lookups

variable {db : Tables} {e : String} {id id' a a' : Uuid} {status : WebhookStatus}

@[simp] theorem webhookById?_setStatus :
    ((Write.setStatus e id status).apply db).webhookById? id' =
      (db.webhookById? id').map (·.mark e id status) := by
  unfold Tables.webhookById?
  simp only [Write.apply, List.find?_map]
  congr 2
  funext r
  simp

@[simp] theorem webhook?_setStatus {e' : String} :
    ((Write.setStatus e id status).apply db).webhook? e' =
      (db.webhook? e').map (·.mark e id status) := by
  unfold Tables.webhook?
  simp only [Write.apply, List.find?_map]
  congr 2
  funext r
  simp

/-- A row that is inserted is found by its id. -/
theorem webhookById?_insertWebhook {row : WebhookEventRow} (h : db.webhookById? row.id = none) :
    ((Write.insertWebhook row).apply db).webhookById? row.id = some row := by
  unfold Tables.webhookById? at h ⊢
  simp [Write.apply, List.find?_append, h]

@[simp] theorem account?_setBilling {row : AccountRow} :
    ((Write.setBilling a row).apply db).account? a' = (db.account? a').map (·.assign a row) := by
  unfold Tables.account?
  simp only [Write.apply, List.find?_map]
  congr 2
  funext r
  simp

/-- A status is all that marking changes. -/
theorem sameEvent_mark (row : WebhookEventRow) : row.SameEvent (row.mark e id status) := by
  simp [WebhookEventRow.SameEvent]

/-- An assignment is to the account's own row. -/
theorem follows_assign (account : Account) (row : AccountRow) :
    account.Follows (account.assign a row) := by
  unfold Account.assign
  by_cases h : (account.accountId == a) = true
  · rw [if_pos h]
    exact ⟨rfl, Nat.le_succ _, fun heq => absurd heq (Nat.succ_ne_self _)⟩
  · rw [if_neg h]
    exact ⟨rfl, Nat.le_refl _, fun _ => rfl⟩

end Lookups

/-- **Every write lets the tables grow.** -/
theorem grows_apply (w : Write) (db : Tables) : Grows db (w.apply db) := by
  have hrefl := grows_refl db
  cases w with
  | insertWebhook row =>
    refine ⟨hrefl.accounts, fun id r hr => ⟨r, ?_, rfl, rfl, rfl, rfl, rfl⟩, hrefl.owners, hrefl.plans⟩
    unfold Tables.webhookById? at hr ⊢
    simp only [Write.apply, List.find?_append, hr]
    rfl
  | setStatus e id status =>
    refine ⟨hrefl.accounts, fun id' r hr => ?_, hrefl.owners, hrefl.plans⟩
    exact ⟨r.mark e id status, by simp [hr], sameEvent_mark r⟩
  | insertPendingLink row => exact ⟨hrefl.accounts, hrefl.webhooks, hrefl.owners, hrefl.plans⟩
  | setBilling a row =>
    refine ⟨fun a' r hr => ?_, hrefl.webhooks, hrefl.owners, hrefl.plans⟩
    exact ⟨r.assign a row, by simp [hr], follows_assign r row⟩
  | setSubscription a old s => exact ⟨hrefl.accounts, hrefl.webhooks, hrefl.owners, hrefl.plans⟩
  | linkCustomer c a =>
    refine ⟨hrefl.accounts, hrefl.webhooks, fun c' a' ho => ?_, hrefl.plans⟩
    unfold Tables.owner? at ho ⊢
    obtain ⟨pair, hpair, rfl⟩ := Option.map_eq_some_iff.mp ho
    simp only [Write.apply, List.find?_append, hpair]
    rfl
  | setPrice name price =>
    refine ⟨hrefl.accounts, hrefl.webhooks, hrefl.owners, fun planId plan hplan => ?_⟩
    refine ⟨plan.offer name price, ?_, ?_⟩
    · unfold Tables.plan? at hplan ⊢
      simp only [Write.apply, List.find?_map]
      have hcomp : (fun plan : TariffPlanRow => plan.planId == planId) ∘
          TariffPlanRow.offer name price = fun plan => plan.planId == planId := by
        funext plan
        simp only [Function.comp, TariffPlanRow.offer]
        split_ifs
        · rfl
        · rfl
      rw [hcomp, hplan]
      rfl
    · unfold TariffPlanRow.offer
      split_ifs
      · rfl
      · rfl

/-- The writes of a transaction grow the tables, one after another. -/
theorem grows_replay (log : List Write) (db : Tables) : Grows db (replay (S := schema) log db) := by
  induction log generalizing db with
  | nil => exact grows_refl db
  | cons w log ih => exact (grows_apply w db).trans (ih _)

/-- The tables after a history. -/
abbrev tables (db₀ : Tables) (h : History schema) : Tables := tablesAfter (S := schema) db₀ h

/-- The tables after one more commit. -/
theorem tables_concat (db₀ : Tables) (h : History schema) (p : Nat) (log : List Write) :
    tables db₀ (h ++ [(p, log)]) = replay (S := schema) log (tables db₀ h) :=
  tablesAfter_concat (S := schema) db₀ h p log

/-- **The tables grow along the history.** -/
theorem grows_tables {db₀ : Tables} {h h' : History schema} (hp : h <+: h') :
    Grows (tables db₀ h) (tables db₀ h') := by
  obtain ⟨rest, rfl⟩ := hp
  induction rest using List.reverseRecOn with
  | nil =>
    rw [List.append_nil]
    exact grows_refl _
  | append_singleton rest entry ih =>
    rw [← List.append_assoc]
    refine ih.trans ?_
    obtain ⟨p, log⟩ := entry
    rw [tables_concat]
    exact grows_replay _ _

/-! ## Commits -/

/-- **An event and an id have one row each, and its status is final.** -/
structure WebhooksOk (db : Tables) : Prop where
  events : (db.webhookEvents.map (·.paddleEventId)).Nodup
  ids : (db.webhookEvents.map (·.id)).Nodup
  final : ∀ row ∈ db.webhookEvents,
    row.status = .processed ∨ row.status = .failed ∨ row.status = .waitingForAccountLink

/-- No events, nothing to violate. -/
theorem webhooksOk_of_empty {db : Tables} (empty : db.webhookEvents = []) : WebhooksOk db := by
  constructor <;> simp [empty]

/-- The requests over some tables, with the choices and the steps that are considered. -/
structure Setting where
  state : State
  requests : Nat → Request
  admits : Nat → Choice → Call schema → Shared schema → Bool
  ok : Nat → Call schema → Shared schema → Prop
  db₀ : Tables
  initial : WebhooksOk db₀

/-- `resolve_account_by_paddle_customer`, on some tables. -/
def Tables.resolve (db : Tables) (customerId : String) : Option Account :=
  (db.owner? customerId).bind db.account?

/-- The change of `apply_event`, if it finds the plans and the fields that it needs. -/
def PaddleWebhookEvent.change? (event : PaddleWebhookEvent)
    (newPlan? currentPlan? : Option TariffPlanRow) : Option SubscriptionChange :=
  match event.handledEventType with
  | some .subscriptionCreated => do
    let plan ← newPlan?
    let periodEnd ← event.periodEnd
    some (.activate plan.planId periodEnd event.subscriptionId)
  | some .subscriptionUpdated => do
    let newPlan ← newPlan?
    let currentPlan ← currentPlan?
    let periodEnd ← event.periodEnd
    some (if isUpgrade currentPlan newPlan then
        .activate newPlan.planId periodEnd event.subscriptionId
      else if isDowngrade currentPlan newPlan then .schedule newPlan.planId
      else .renew periodEnd event.subscriptionId)
  | some .subscriptionPastDue => some .pastDue
  | some .subscriptionCanceled => event.periodEnd.map .cancel
  | none => none

/-- The row that a delivery claims, and its writes before: it inserts the row, or finds it. -/
inductive Claims (event : PaddleWebhookEvent) (hash : String) (accountId : Option Uuid) (db : Tables)
    (row : WebhookEventRow) : List Write → Prop
  | inserted (hid : db.webhookById? row.id = none) (hevent : db.webhook? event.eventId = none)
      (hrow : row = ⟨row.id, event.eventId, hash, accountId, event.occurredAt, .received⟩) :
      Claims event hash accountId db row [.insertWebhook row]
  | found (hid : db.webhookById? row.id = some row) (hevent : row.paddleEventId = event.eventId)
      (hhash : row.payloadHash = hash) (hstatus : row.status = .received ∨ row.status = .failed) :
      Claims event hash accountId db row []

section Commits

variable (x : Setting) (p : Nat) (event : PaddleWebhookEvent)

/-- An account read before the last processed event of it was looked up, both in the past. -/
def Read (customerId : String) (account : Account) (last : Option Int) (h : History schema) : Prop :=
  ∃ hr hm, hr <+: hm ∧ hm <+: h ∧ (tables x.db₀ hr).resolve customerId = some account ∧
    (tables x.db₀ hm).lastProcessed account.accountId = last

/-- The change for an account with this plan, by the plans as they were. -/
def Decided (tariffPlanId : Uuid) (change : SubscriptionChange) (h : History schema) : Prop :=
  ∃ hp hc, hp <+: h ∧ hc <+: h ∧
    event.change? (event.priceId.bind (tables x.db₀ hp).planByPrice?)
      ((tables x.db₀ hc).plan? tariffPlanId) = some change

/-- What a delivery writes between the two updates of its status, and the last status. -/
inductive Ending (h : History schema) : Option Uuid → List Write → WebhookStatus → Prop
  | waiting (customerId email : String) (hcustomer : event.customerId = some customerId) :
      Ending h none [.insertPendingLink ⟨customerId, email⟩] .waitingForAccountLink
  | failed (customerId : String) (account : Account) (last : Option Int)
      (hcustomer : event.customerId = some customerId) (hread : Read x customerId account last h) :
      Ending h (some account.accountId) [] .failed
  | skipped (customerId : String) (account : Account) (ts : Int)
      (hcustomer : event.customerId = some customerId)
      (hread : Read x customerId account (some ts) h) (hlate : event.occurredAt < ts) :
      Ending h (some account.accountId) [] .processed
  | applied (customerId : String) (account row : Account) (last : Option Int)
      (change : SubscriptionChange) (rest : List Write)
      (hcustomer : event.customerId = some customerId) (hread : Read x customerId account last h)
      (htimely : ∀ ts, last = some ts → ts ≤ event.occurredAt)
      (hdecided : Decided x event account.tariffPlanId change h)
      (hrow : (tables x.db₀ h).account? account.accountId = some row)
      (hok : ∃ g : Shared schema, x.ok p (.sql (.updateAccount account change)) g ∧
        Tables.account? g.db account.accountId = some row)
      (hrest : ∀ w ∈ rest, w.OfSubscription account.accountId) :
      Ending h (some account.accountId)
        (.setBilling account.accountId (change.apply row.toAccountRow) :: rest) .processed

/-- The transaction of a delivery. -/
inductive Delivers (hash : String) (h : History schema) : List Write → Prop
  | mk (accountId : Option Uuid) (row : WebhookEventRow) (opening middle : List Write)
      (status : WebhookStatus) (hclaims : Claims event hash accountId (tables x.db₀ h) row opening)
      (hending : Ending x p event h accountId middle status) :
      Delivers hash h (opening ++ [.setStatus event.eventId row.id .processing] ++ middle ++
        [.setStatus event.eventId row.id status])

end Commits

/-- The transaction of a request. -/
inductive Commit (x : Setting) (h : History schema) (p : Nat) : List Write → Prop
  | webhook {body : List UInt8} {event : PaddleWebhookEvent} {log : List Write}
      (hreq : x.requests p = .webhook body) (hparse : x.state.parse body = some event)
      (hhandled : event.handledEventType.isSome = true) (hfresh : writesOf p h = [])
      (hdelivers : Delivers x p event (payloadHash x.state body) h log) : Commit x h p log
  | link {accountId : Uuid} {customerId : String}
      (hreq : x.requests p = .link accountId customerId ∨
        ∃ email, x.requests p = .ensureCustomer accountId email)
      (hcustomer : (tables x.db₀ h).customer? accountId = none)
      (howner : (tables x.db₀ h).owner? customerId = none) :
      Commit x h p [.linkCustomer customerId accountId]
  | lazy {accountId planId : Uuid} {now : Int} {row : Account}
      (hreq : x.requests p = .lazyTransitions accountId)
      (hrow : (tables x.db₀ h).account? accountId = some row)
      (hdue : (row.pendingDue now || row.cancelDue now) = true)
      (hplan : nextPlanId now (tables x.db₀ h).billing row.toAccountRow = some planId) :
      Commit x h p [.setBilling accountId (lazyTransition now row.toAccountRow planId)]
  | price {planName priceId : String} (hreq : x.requests p = .setPrice planName priceId) :
      Commit x h p [.setPrice planName priceId]

/-- What holds of the committed tables and their history. -/
abbrev Setting.Inv (x : Setting) : Tables → History schema → Prop :=
  Logged (S := schema) (Commit x) x.db₀

/-! ## Events in the tables -/

/-- The writes to `paddle_webhook_events`. -/
def Write.onWebhooks : Write → Bool
  | insertWebhook _ | setStatus _ _ _ => true
  | _ => false

/-- Writes that are not on the events leave them. -/
theorem webhookEvents_replay {log : List Write} {db : Tables}
    (h : ∀ w ∈ log, w.onWebhooks = false) :
    Tables.webhookEvents (replay (S := schema) log db) = db.webhookEvents := by
  induction log generalizing db with
  | nil => rfl
  | cons w log ih =>
    rw [replay_cons]
    refine (ih fun w' hw' => h w' (List.mem_cons_of_mem w hw')).trans ?_
    have hw := h w List.mem_cons_self
    cases w with
    | insertWebhook | setStatus => exact absurd hw (by simp [Write.onWebhooks])
    | insertPendingLink | setBilling | setSubscription | linkCustomer | setPrice => rfl

/-- Everything else stays where only events are written. -/
theorem replay_onWebhooks {log : List Write} {db : Tables} (h : ∀ w ∈ log, w.onWebhooks = true) :
    replay (S := schema) log db =
      { db with webhookEvents := Tables.webhookEvents (replay (S := schema) log db) } := by
  induction log generalizing db with
  | nil => rfl
  | cons w log ih =>
    rw [replay_cons]
    refine (ih fun w' hw' => h w' (List.mem_cons_of_mem w hw')).trans ?_
    have hw := h w List.mem_cons_self
    cases w with
    | insertWebhook | setStatus => rfl
    | insertPendingLink | setBilling | setSubscription | linkCustomer | setPrice =>
      exact absurd hw (by simp [Write.onWebhooks])

/-- The middle of a delivery leaves the events alone. -/
theorem Ending.offWebhooks {x : Setting} {p : Nat} {event : PaddleWebhookEvent}
    {h : History schema} {accountId : Option Uuid} {middle : List Write} {status : WebhookStatus}
    (he : Ending x p event h accountId middle status) : ∀ w ∈ middle, w.onWebhooks = false := by
  cases he with
  | waiting => simp [Write.onWebhooks]
  | failed | skipped => simp
  | applied _ _ _ _ _ rest _ _ _ _ _ _ hrest =>
    intro w hw
    rcases List.mem_cons.mp hw with rfl | hw
    · rfl
    · obtain ⟨old, s, rfl⟩ := hrest w hw
      rfl

/-- The last status of a delivery is one of three. -/
theorem Ending.final {x : Setting} {p : Nat} {event : PaddleWebhookEvent}
    {h : History schema} {accountId : Option Uuid} {middle : List Write} {status : WebhookStatus}
    (he : Ending x p event h accountId middle status) :
    status = .processed ∨ status = .failed ∨ status = .waitingForAccountLink := by
  cases he with
  | waiting => exact Or.inr (Or.inr rfl)
  | failed => exact Or.inr (Or.inl rfl)
  | skipped | applied => exact Or.inl rfl

/-- The last mark counts. -/
theorem mark_mark {e : String} {id : Uuid} {status status' : WebhookStatus} (r : WebhookEventRow) :
    (r.mark e id status).mark e id status' = r.mark e id status' := by
  by_cases h : (r.paddleEventId == e && r.id == id) = true
  · simp only [WebhookEventRow.mark, if_pos h]
  · simp only [WebhookEventRow.mark, if_neg h]

/-- The row that a delivery inserts. -/
def insertedRows : List Write → List WebhookEventRow
  | [.insertWebhook row] => [row]
  | _ => []

section Delivered

variable {x : Setting} {p : Nat} {event : PaddleWebhookEvent} {hash : String} {h : History schema}
  {log : List Write}

/-- **The events after a delivery**: one more, perhaps, and the claimed one with its last status. -/
theorem Delivers.webhookEvents (hd : Delivers x p event hash h log) :
    ∃ accountId row opening middle status, Claims event hash accountId (tables x.db₀ h) row opening ∧
      Ending x p event h accountId middle status ∧
      log = opening ++ [.setStatus event.eventId row.id .processing] ++ middle ++
        [.setStatus event.eventId row.id status] ∧
      Tables.webhookEvents (replay (S := schema) log (tables x.db₀ h)) =
        ((tables x.db₀ h).webhookEvents ++ insertedRows opening).map
          (·.mark event.eventId row.id status) := by
  obtain ⟨accountId, row, opening, middle, status, hclaims, hending⟩ := hd
  refine ⟨accountId, row, opening, middle, status, hclaims, hending, rfl, ?_⟩
  rw [replay_append, replay_append, replay_append]
  generalize hdb : replay (S := schema) [Write.setStatus event.eventId row.id .processing]
    (replay (S := schema) opening (tables x.db₀ h)) = db
  have hopen : Tables.webhookEvents db = ((tables x.db₀ h).webhookEvents ++ insertedRows opening).map
      (·.mark event.eventId row.id .processing) := by
    rw [← hdb]
    cases hclaims with
    | inserted => rfl
    | found =>
      simp only [insertedRows, List.append_nil]
      rfl
  change (Tables.webhookEvents (replay (S := schema) middle db)).map _ = _
  rw [webhookEvents_replay hending.offWebhooks, hopen, List.map_map]
  exact List.map_congr_left fun r _ => mark_mark r

end Delivered

section Webhooks

variable {db : Tables} {x : Setting}

/-- An event that is not found is that of no row. -/
theorem webhook?_none {e : String} (h : db.webhook? e = none) :
    ∀ row ∈ db.webhookEvents, row.paddleEventId ≠ e := by
  intro row hrow heq
  exact absurd heq (by simpa using List.find?_eq_none.mp h row hrow)

/-- An id that is not found is that of no row. -/
theorem webhookById?_none {id : Uuid} (h : db.webhookById? id = none) :
    ∀ row ∈ db.webhookEvents, row.id ≠ id := by
  intro row hrow heq
  exact absurd heq (by simpa using List.find?_eq_none.mp h row hrow)

/-- A row that is found is in the table, under its id. -/
theorem mem_of_webhookById? {id : Uuid} {row : WebhookEventRow} (h : db.webhookById? id = some row) :
    row ∈ db.webhookEvents ∧ row.id = id :=
  ⟨List.mem_of_find?_eq_some h, by simpa using List.find?_some h⟩

/-- A row that is found is in the table, with its event. -/
theorem mem_of_webhook? {e : String} {row : WebhookEventRow} (h : db.webhook? e = some row) :
    row ∈ db.webhookEvents ∧ row.paddleEventId = e :=
  ⟨List.mem_of_find?_eq_some h, by simpa using List.find?_some h⟩

/-- A row of the table is found by its event: there is only one. -/
theorem WebhooksOk.webhook? (hok : WebhooksOk db) {row : WebhookEventRow}
    (hrow : row ∈ db.webhookEvents) : db.webhook? row.paddleEventId = some row := by
  cases hfind : db.webhook? row.paddleEventId with
  | none => exact absurd rfl (webhook?_none hfind row hrow)
  | some row' =>
    obtain ⟨hmem, he⟩ := mem_of_webhook? hfind
    rw [List.inj_on_of_nodup_map hok.events hmem hrow he]

/-- And by its id. -/
theorem WebhooksOk.webhookById? (hok : WebhooksOk db) {row : WebhookEventRow}
    (hrow : row ∈ db.webhookEvents) : db.webhookById? row.id = some row := by
  cases hfind : db.webhookById? row.id with
  | none => exact absurd rfl (webhookById?_none hfind row hrow)
  | some row' =>
    obtain ⟨hmem, he⟩ := mem_of_webhookById? hfind
    rw [List.inj_on_of_nodup_map hok.ids hmem hrow he]

/-- The row that is claimed, as it is among the rows. -/
theorem Claims.mem {event : PaddleWebhookEvent} {hash : String} {accountId : Option Uuid}
    {row : WebhookEventRow} {opening : List Write} (hc : Claims event hash accountId db row opening) :
    row ∈ db.webhookEvents ++ insertedRows opening ∧ row.paddleEventId = event.eventId ∧
      row.payloadHash = hash := by
  cases hc with
  | inserted hid hevent hrow => exact ⟨by simp [insertedRows], by rw [hrow], by rw [hrow]⟩
  | found hid hevent hhash =>
    exact ⟨List.mem_append_left _ (mem_of_webhookById? hid).1, hevent, hhash⟩

/-- With the row that is inserted they are still one each. -/
theorem Claims.nodup {event : PaddleWebhookEvent} {hash : String} {accountId : Option Uuid}
    {row : WebhookEventRow} {opening : List Write} (hc : Claims event hash accountId db row opening)
    (hok : WebhooksOk db) :
    ((db.webhookEvents ++ insertedRows opening).map (·.paddleEventId)).Nodup ∧
      ((db.webhookEvents ++ insertedRows opening).map (·.id)).Nodup := by
  cases hc with
  | inserted hid hevent hrow =>
    have he : row.paddleEventId = event.eventId := by rw [hrow]
    simp only [insertedRows, List.map_append, List.map_cons, List.map_nil]
    refine ⟨List.nodup_append.mpr ⟨hok.events, by simp, ?_⟩,
      List.nodup_append.mpr ⟨hok.ids, by simp, ?_⟩⟩
    · rintro a ha b hb rfl
      obtain ⟨r, hr, rfl⟩ := List.mem_map.mp ha
      exact webhook?_none hevent r hr ((List.mem_singleton.mp hb).trans he)
    · rintro a ha b hb rfl
      obtain ⟨r, hr, rfl⟩ := List.mem_map.mp ha
      exact webhookById?_none hid r hr (List.mem_singleton.mp hb)
  | found =>
    simp only [insertedRows, List.append_nil]
    exact ⟨hok.events, hok.ids⟩

/-- **A delivery keeps the events in order.** -/
theorem webhooksOk_delivers {p : Nat} {event : PaddleWebhookEvent} {hash : String}
    {h : History schema} {log : List Write} (hok : WebhooksOk (tables x.db₀ h))
    (hd : Delivers x p event hash h log) :
    WebhooksOk (replay (S := schema) log (tables x.db₀ h)) := by
  obtain ⟨accountId, row, opening, middle, status, hclaims, hending, -, hrows⟩ := hd.webhookEvents
  obtain ⟨hevents, hids⟩ := hclaims.nodup hok
  obtain ⟨hrow, he, -⟩ := hclaims.mem
  constructor
  · rw [hrows, List.map_map]
    simpa [Function.comp_def] using hevents
  · rw [hrows, List.map_map]
    simpa [Function.comp_def] using hids
  · intro r' hr'
    rw [hrows] at hr'
    obtain ⟨r, hr, rfl⟩ := List.mem_map.mp hr'
    by_cases hm : (r.paddleEventId == event.eventId && r.id == row.id) = true
    · simp only [WebhookEventRow.mark, if_pos hm]
      exact hending.final
    · simp only [WebhookEventRow.mark, if_neg hm]
      rcases List.mem_append.mp hr with hr | hr
      · exact hok.final r hr
      · refine absurd ?_ hm
        cases hclaims with
        | inserted hid hevent hrow' =>
          obtain rfl := List.mem_singleton.mp hr
          simp [he]
        | found => exact absurd hr (by simp [insertedRows])

/-- A commit that writes no event leaves them. -/
theorem Commit.cases_webhooks {h : History schema} {p : Nat} {log : List Write}
    (hc : Commit x h p log) :
    (∃ body event, x.requests p = .webhook body ∧ x.state.parse body = some event ∧
      event.handledEventType.isSome = true ∧ writesOf p h = [] ∧
        Delivers x p event (payloadHash x.state body) h log) ∨ ∀ w ∈ log, w.onWebhooks = false := by
  cases hc with
  | webhook hreq hparse hhandled hfresh hdelivers =>
    exact Or.inl ⟨_, _, hreq, hparse, hhandled, hfresh, hdelivers⟩
  | link | lazy | price => exact Or.inr (by simp [Write.onWebhooks])

/-- **The events of every history are in order.** -/
theorem Setting.webhooks {h : History schema} (hl : x.Inv db h) : WebhooksOk db := by
  rw [hl.replayed]
  refine Logged.induction (motive := fun h => WebhooksOk (tables x.db₀ h)) hl ?_ ?_
  · exact x.initial
  · intro h p log _ hc ih
    rw [tables_concat]
    rcases hc.cases_webhooks with ⟨body, event, -, -, -, -, hd⟩ | hoff
    · exact webhooksOk_delivers ih hd
    · have hrows := @webhookEvents_replay _ (tables x.db₀ h) hoff
      exact ⟨by rw [hrows]; exact ih.events, by rw [hrows]; exact ih.ids,
        by rw [hrows]; exact ih.final⟩

end Webhooks

end EvidentLedger.Paddle
