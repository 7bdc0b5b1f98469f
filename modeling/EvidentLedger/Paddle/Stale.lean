import EvidentLedger.Paddle.Once

/-!
# Payment events out of order

`should_skip_out_of_order` (`src/paddle/processor.rs:399-406`) looks for a newer event of the account
that is processed, and `subscription_updated` compares the new plan with that of the account. Both rely
on what was read before: the account on the pool, before the transaction, and the newest event before
the `UPDATE`. Neither holds a lock, so another delivery may write to the account in between.

* `undisturbed`: an `UPDATE` finds the account in the version that its delivery has read.
* `ofDelivery`: where a stored row comes from, and whose account it names.
* `version_lt_replay`: a write to an account is a new version of it. So what was written before an
  undisturbed `UPDATE` was written before the account was read (`prefix_of_read`), and counts among the
  processed events (`le_lastProcessed`).
* **`events_in_order`**: where every `UPDATE` is undisturbed, an older event writes nothing after a newer
  one, and each change is decided by the plan that the account has (`Ordered`).
* `older_event_overwrites` is a run of two deliveries without.
-/

namespace EvidentLedger.Paddle

open Lib.Interleave Lib.Transaction

/-! ## Applications in order -/

/-- The request delivers the event. -/
def Request.Delivers (state : State) (request : Request) (event : PaddleWebhookEvent) : Prop :=
  ∃ body, request = .webhook body ∧ state.parse body = some event

/-- The account that a write is to. -/
def Write.accountId? : Write → Option Uuid
  | setBilling accountId _ | setSubscription accountId _ _ | linkCustomer _ accountId => some accountId
  | _ => none

/-- A commit that writes to the account. -/
def WritesTo (accountId : Uuid) (log : List Write) : Prop := ∃ w ∈ log, w.accountId? = some accountId

/-- **Stale events overwrite nothing**, in a history. -/
structure Ordered (state : State) (requests : Nat → Request) (db₀ : Tables) (h : History schema) :
    Prop where
  /-- After a newer event of the account, an older one writes nothing to it. -/
  order : h.Pairwise fun earlier later => ∀ accountId newer older,
    (requests earlier.1).Delivers state newer → WritesTo accountId earlier.2 →
      (requests later.1).Delivers state older → older.occurredAt < newer.occurredAt →
        ¬ WritesTo accountId later.2
  /-- A change is decided by the plan of the account at the `UPDATE`. -/
  plan : ∀ h' p log event accountId, h' ++ [(p, log)] <+: h → (requests p).Delivers state event →
    WritesTo accountId log → ∃ row change, (tables db₀ h').account? accountId = some row ∧
      (∃ hp, hp <+: h' ∧ event.change? (event.priceId.bind (tables db₀ hp).planByPrice?)
        ((tables db₀ h').plan? row.tariffPlanId) = some change) ∧
        Write.setBilling accountId (change.apply row.toAccountRow) ∈ log

/-- Two payloads of an event with one hash are one event. -/
def NoCollision (state : State) (requests : Nat → Request) : Prop :=
  ∀ p q body body' event event', requests p = .webhook body → requests q = .webhook body' →
    state.parse body = some event → state.parse body' = some event' →
      event.eventId = event'.eventId → payloadHash state body = payloadHash state body' →
        event = event'

/-- The account is in the version that the delivery has read. -/
def undisturbed : Call schema → Shared schema → Bool
  | .sql (.updateAccount account _), g =>
    (Tables.account? g.db account.accountId).all (·.version == account.version)
  | _, _ => true

/-- The runs in which every `UPDATE` of a delivery is undisturbed. -/
def Setting.undisturbed (state : State) (requests : Nat → Request) (db₀ : Tables)
    (empty : db₀.webhookEvents = []) : Setting where
  state
  requests
  admits _ _ _ _ := true
  ok _ q g := Paddle.undisturbed q g = true
  db₀
  initial := webhooksOk_of_empty empty

variable {x : Setting} {db : Tables} {h h' hr : History schema} {p q : Nat} {log : List Write}
  {event : PaddleWebhookEvent} {customerId hash : String} {account row : Account}
  {last : Option Int} {change : SubscriptionChange} {a : Uuid}

/-! ## Rows of deliveries -/

/-- The row is of the event; and of the account of its customer, unless it waits for one. -/
structure OfDelivery (x : Setting) (db : Tables) (r : WebhookEventRow) (body : List UInt8)
    (event : PaddleWebhookEvent) : Prop where
  parsed : x.state.parse body = some event
  eventId : r.paddleEventId = event.eventId
  payloadHash : r.payloadHash = payloadHash x.state body
  occurredAt : r.eventOccurredAt = event.occurredAt
  account : r.status ≠ .waitingForAccountLink → ∃ customerId accountId,
    event.customerId = some customerId ∧ db.owner? customerId = some accountId ∧
      r.accountId = some accountId

/-- A customer keeps its account. -/
theorem OfDelivery.grows {db' : Tables} {r : WebhookEventRow} {body : List UInt8}
    (ho : OfDelivery x db r body event) (hg : Grows db db') : OfDelivery x db' r body event := by
  refine ⟨ho.parsed, ho.eventId, ho.payloadHash, ho.occurredAt, fun hs => ?_⟩
  obtain ⟨customerId, accountId, hcustomer, howner, haccount⟩ := ho.account hs
  exact ⟨customerId, accountId, hcustomer, hg.owners _ _ howner, haccount⟩

/-- The account that was read is that of the customer. -/
theorem Read.owner (hread : Read x customerId account last h) :
    (tables x.db₀ h).owner? customerId = some account.accountId := by
  obtain ⟨hr, hm, hp, hp', hresolve, -⟩ := hread
  obtain ⟨a, howner, ha⟩ := Option.bind_eq_some_iff.mp hresolve
  have hid : account.accountId = a := by simpa using List.find?_some ha
  rw [hid]
  exact (grows_tables (hp.trans hp')).owners _ _ howner

/-- The row that a delivery inserts, with its last status. -/
theorem ofDelivery_inserted {accountId : Option Uuid} {middle : List Write} {status : WebhookStatus}
    {body : List UInt8} (id : Uuid) (hparse : x.state.parse body = some event)
    (hending : Ending x p event h accountId middle status) :
    OfDelivery x (tables x.db₀ h) ⟨id, event.eventId, payloadHash x.state body, accountId,
      event.occurredAt, status⟩ body event := by
  refine ⟨hparse, rfl, rfl, rfl, fun hs => ?_⟩
  cases hending with
  | waiting => exact absurd rfl hs
  | failed customerId account last hcustomer hread =>
    exact ⟨customerId, account.accountId, hcustomer, hread.owner, rfl⟩
  | skipped customerId account ts hcustomer hread =>
    exact ⟨customerId, account.accountId, hcustomer, hread.owner, rfl⟩
  | applied customerId account row last change rest hcustomer hread =>
    exact ⟨customerId, account.accountId, hcustomer, hread.owner, rfl⟩

/-- **Every stored row is of an event that was delivered.** -/
theorem ofDelivery (empty : x.db₀.webhookEvents = []) (hl : x.Inv db h) : ∀ r ∈ db.webhookEvents,
    ∃ p body event, x.requests p = .webhook body ∧ OfDelivery x db r body event := by
  rw [hl.replayed]
  refine Logged.induction (motive := fun h => ∀ r ∈ (tables x.db₀ h).webhookEvents,
    ∃ p body event, x.requests p = .webhook body ∧ OfDelivery x (tables x.db₀ h) r body event)
    hl ?_ ?_
  · intro r hr
    rw [show (tables x.db₀ []).webhookEvents = [] from empty] at hr
    exact absurd hr (by simp)
  · intro h p log hl' hc ih r' hr'
    rw [tables_concat] at hr' ⊢
    have hgrows := grows_replay log (tables x.db₀ h)
    rcases hc.cases_webhooks with ⟨body, event, hreq, hparse, -, -, hd⟩ | hoff
    · obtain ⟨accountId, row, opening, middle, status, hclaims, hending, -, hrows⟩ := hd.webhookEvents
      rw [hrows] at hr'
      obtain ⟨r, hr, rfl⟩ := List.mem_map.mp hr'
      rcases List.mem_append.mp hr with hr | hr
      · obtain ⟨p', body', event', hreq', ho⟩ := ih r hr
        refine ⟨p', body', event', hreq', @OfDelivery.grows x (tables x.db₀ h) _ _ _ _ ?_ hgrows⟩
        refine ⟨ho.parsed, by simp [ho.eventId], by simp [ho.payloadHash], by simp [ho.occurredAt],
          fun hs => ?_⟩
        rw [mark_accountId]
        refine ho.account fun hwaiting => hs ?_
        rw [mark_of_event_ne (hclaims.not_settled (Setting.webhooks hl') hr (Or.inr hwaiting))]
        exact hwaiting
      · cases hclaims with
        | inserted _ _ hrow =>
          obtain rfl := List.mem_singleton.mp hr
          refine ⟨p, body, event, hreq, OfDelivery.grows ?_ hgrows⟩
          rw [hrow]
          simpa [WebhookEventRow.mark] using ofDelivery_inserted r.id hparse hending
        | found => exact absurd hr (by simp [insertedRows])
    · rw [webhookEvents_replay hoff] at hr'
      obtain ⟨p', body', event', hreq', ho⟩ := ih r' hr'
      exact ⟨p', body', event', hreq', ho.grows hgrows⟩

/-! ## Versions -/

/-- **A write to an account is a new version of it.** -/
theorem version_lt_replay {new : Ledger.AccountRow} (hrow : db.account? a = some row)
    (hw : Write.setBilling a new ∈ log) :
    ∃ row', Tables.account? (replay (S := schema) log db) a = some row' ∧
      row.version < row'.version := by
  obtain ⟨before, after, rfl⟩ := List.append_of_mem hw
  obtain ⟨row₁, hrow₁, -, hle, -⟩ := (grows_replay before db).accounts a row hrow
  have hid : row₁.accountId = a := by simpa using List.find?_some hrow₁
  have hassign : Tables.account? ((Write.setBilling a new).apply (replay (S := schema) before db)) a =
      some ⟨new, row₁.accountId, row₁.version + 1⟩ := by
    rw [account?_setBilling, hrow₁]
    simp [Account.assign, hid]
  obtain ⟨row₂, hrow₂, -, hle', -⟩ := (grows_replay after _).accounts a _ hassign
  refine ⟨row₂, ?_, ?_⟩
  · rw [replay_append, replay_cons]
    exact hrow₂
  · have : row₁.version + 1 ≤ row₂.version := hle'
    omega

/-- **What is written to an account that is still as it was read** was written before. -/
theorem prefix_of_read {new : Ledger.AccountRow} (hread : (tables x.db₀ hr).account? a = some row)
    (hnow : (tables x.db₀ h).account? a = some row) (hpr : hr <+: h)
    (hp : h' ++ [(q, log)] <+: h) (hw : Write.setBilling a new ∈ log) : h' ++ [(q, log)] <+: hr := by
  rcases List.prefix_or_prefix_of_prefix hp hpr with hle | hle
  · exact hle
  · rcases List.prefix_concat_iff.mp hle with rfl | hle
    · exact List.prefix_refl _
    · obtain ⟨row₁, hrow₁, -, hle₁, -⟩ := (grows_tables hle).accounts a row hread
      obtain ⟨row₂, hrow₂, hlt⟩ := version_lt_replay hrow₁ hw
      rw [← tables_concat x.db₀ h' q log] at hrow₂
      obtain ⟨row₃, hrow₃, -, hle₃, -⟩ := (grows_tables hp).accounts a row₂ hrow₂
      obtain rfl := Option.some.inj (hnow.symm.trans hrow₃)
      omega

/-- A processed event of the account counts. -/
theorem le_lastProcessed {r : WebhookEventRow} (hr : r ∈ db.webhookEvents)
    (ha : r.accountId = some a) (hs : r.status = .processed) :
    ∃ ts, db.lastProcessed a = some ts ∧ r.eventOccurredAt ≤ ts := by
  have hmem : r.eventOccurredAt ∈ ((db.webhookEvents.filter fun row =>
      row.accountId == some a && row.status == .processed).map (·.eventOccurredAt)) :=
    List.mem_map.mpr ⟨r, List.mem_filter.mpr ⟨hr, by simp [ha, hs]⟩, rfl⟩
  cases hmax : db.lastProcessed a with
  | none => exact absurd (List.max?_eq_none_iff.mp hmax ▸ hmem) (by simp)
  | some ts => exact ⟨ts, rfl, (List.max?_eq_some_iff.mp hmax).2 _ hmem⟩

/-! ## One application -/

/-- An application of an event: what was read, and what is done with it. -/
structure Application (x : Setting) (p : Nat) (event : PaddleWebhookEvent) (hash : String)
    (h : History schema) (log : List Write) (account row : Account) (last : Option Int)
    (change : SubscriptionChange) : Prop where
  read : ∃ customerId, event.customerId = some customerId ∧ Read x customerId account last h
  timely : ∀ ts, last = some ts → ts ≤ event.occurredAt
  decided : Decided x event account.tariffPlanId change h
  found : (tables x.db₀ h).account? account.accountId = some row
  ok : ∃ g : Shared schema, x.ok p (.sql (.updateAccount account change)) g ∧
    Tables.account? g.db account.accountId = some row
  billing : Write.setBilling account.accountId (change.apply row.toAccountRow) ∈ log
  processed : ∃ r ∈ Tables.webhookEvents (replay (S := schema) log (tables x.db₀ h)),
    r.paddleEventId = event.eventId ∧ r.payloadHash = hash ∧ r.status = .processed

/-- **A delivery that writes to an account** applies its event to it. -/
theorem Delivers.application (hd : Delivers x p event hash h log) (hw : WritesTo a log) :
    ∃ account row last change, account.accountId = a ∧
      Application x p event hash h log account row last change := by
  obtain ⟨accountId, r, opening, middle, status, hclaims, hending, rfl, hrows⟩ := hd.webhookEvents
  obtain ⟨w, hw, ha⟩ := hw
  have hmiddle : w ∈ middle := by
    simp only [List.mem_append, List.mem_singleton] at hw
    rcases hw with ((hw | rfl) | hw) | rfl
    · cases hclaims with
      | inserted =>
        rw [List.mem_singleton.mp hw] at ha
        exact absurd ha (by simp [Write.accountId?])
      | found => exact absurd hw (by simp)
    · exact absurd ha (by simp [Write.accountId?])
    · exact hw
    · exact absurd ha (by simp [Write.accountId?])
  cases hending with
  | waiting =>
    rw [List.mem_singleton.mp hmiddle] at ha
    exact absurd ha (by simp [Write.accountId?])
  | failed | skipped => exact absurd hmiddle (by simp)
  | applied customerId account row last change rest hcustomer hread htimely hdecided hrow hok hrest =>
    have hid : account.accountId = a := by
      rcases List.mem_cons.mp hmiddle with rfl | hmiddle
      · exact Option.some.inj ha
      · obtain ⟨old, s, rfl⟩ := hrest w hmiddle
        exact Option.some.inj ha
    obtain ⟨hmem, he, hhash⟩ := hclaims.mem
    refine ⟨account, row, last, change, hid, ⟨customerId, hcustomer, hread⟩, htimely, hdecided, hrow,
      hok, by simp, r.mark event.eventId r.id .processed, ?_, by simp [he], by simp [hhash], ?_⟩
    · rw [hrows]
      exact List.mem_map.mpr ⟨r, hmem, rfl⟩
    · simp [WebhookEventRow.mark, he]

theorem Commit.application (hc : Commit x h p log) (he : (x.requests p).Delivers x.state event)
    (hw : WritesTo a log) : ∃ body account row last change, x.requests p = .webhook body ∧
      x.state.parse body = some event ∧ account.accountId = a ∧
        Application x p event (payloadHash x.state body) h log account row last change := by
  obtain ⟨body, hreq, hparse⟩ := he
  have hid : (x.requests p).eventId? x.state = some event.eventId := by
    rw [hreq, Request.eventId?, hparse]
    rfl
  obtain ⟨body', event', hreq', hparse', -, -, hd⟩ := hc.delivers hid
  obtain rfl : body = body' := Request.webhook.inj (hreq.symm.trans hreq')
  obtain rfl := Option.some.inj (hparse.symm.trans hparse')
  obtain ⟨account, row, last, change, ha, happ⟩ := hd.application hw
  exact ⟨body, account, row, last, change, hreq, hparse, ha, happ⟩

section Applied

variable {body : List UInt8}

/-- **Its event is processed** for the account from then on. -/
theorem Application.settled (empty : x.db₀.webhookEvents = [])
    (hsha : NoCollision x.state x.requests) (hl : x.Inv db h) (hc : h' ++ [(p, log)] <+: h)
    (hreq : x.requests p = .webhook body)
    (hparse : x.state.parse body = some event)
    (happ : Application x p event (payloadHash x.state body) h' log account row last change) :
    ∃ r ∈ db.webhookEvents, r.accountId = some account.accountId ∧
      r.eventOccurredAt = event.occurredAt ∧ r.status = .processed := by
  obtain ⟨r, hr, he, hhash, hs⟩ := happ.processed
  rw [← tables_concat x.db₀ h' p log] at hr
  obtain ⟨p', body', event', hreq', ho⟩ := ofDelivery empty (hl.of_prefix hc) r hr
  obtain rfl := hsha p p' body body' event event' hreq hreq' hparse ho.parsed
    (he.symm.trans ho.eventId) (hhash.symm.trans ho.payloadHash)
  obtain ⟨customerId, accountId, hcustomer, howner, haccount⟩ := ho.account (by rw [hs]; simp)
  obtain ⟨customerId', hcustomer', hread⟩ := happ.read
  obtain rfl := Option.some.inj (hcustomer.symm.trans hcustomer')
  have howner' := (@grows_tables x.db₀ _ _ (List.prefix_append h' [(p, log)])).owners _ _
    hread.owner
  obtain rfl := Option.some.inj (howner'.symm.trans howner)
  exact ⟨r, settled_prefix hl hc hr (Or.inl hs), haccount, ho.occurredAt, hs⟩

/-- What the account was read as, and what the newest event was then. -/
theorem Application.since (happ : Application x p event hash h log account row last change)
    (hversion : row.version = account.version) :
    row = account ∧ ∃ hr hm, hr <+: hm ∧ hm <+: h ∧
      (tables x.db₀ hr).account? account.accountId = some row ∧
        (tables x.db₀ hm).lastProcessed account.accountId = last := by
  obtain ⟨customerId, -, hr, hm, hp, hp', hresolve, hlast⟩ := happ.read
  obtain ⟨b, -, hb⟩ := Option.bind_eq_some_iff.mp hresolve
  have hid : account.accountId = b := by simpa using List.find?_some hb
  subst hid
  obtain ⟨row', hrow', -, -, hsame⟩ := (grows_tables (hp.trans hp')).accounts _ _ hb
  obtain rfl := Option.some.inj (happ.found.symm.trans hrow')
  obtain rfl := hsame hversion
  exact ⟨rfl, hr, hm, hp, hp', hb, hlast⟩

end Applied

/-- An undisturbed `UPDATE` finds the version that was read. -/
theorem Application.version {state : State} {requests : Nat → Request} {db₀ : Tables}
    {empty : db₀.webhookEvents = []}
    (happ : Application (Setting.undisturbed state requests db₀ empty) p event hash h log account row
      last change) : row.version = account.version := by
  obtain ⟨g, hok, hrow⟩ := happ.ok
  have hok : (Tables.account? g.db account.accountId).all (·.version == account.version) = true := hok
  rw [hrow] at hok
  simpa using hok

/-- The change depends on the priority of the current plan alone. -/
theorem change?_congr {plan? : Option TariffPlanRow} {current current' : Option TariffPlanRow}
    (hcurrent : ∀ plan, current = some plan → ∃ plan', current' = some plan' ∧
      plan'.priority = plan.priority)
    (hc : event.change? plan? current = some change) :
    event.change? plan? current' = some change := by
  unfold PaddleWebhookEvent.change? at hc ⊢
  cases htype : event.handledEventType with
  | none =>
    rw [htype] at hc
    exact absurd hc (by simp)
  | some type =>
    rw [htype] at hc
    cases type with
    | subscriptionCreated | subscriptionPastDue | subscriptionCanceled => exact hc
    | subscriptionUpdated =>
      obtain ⟨newPlan, hnew, hc⟩ := Option.bind_eq_some_iff.mp hc
      obtain ⟨plan, hplan, hc⟩ := Option.bind_eq_some_iff.mp hc
      obtain ⟨plan', hplan', hpriority⟩ := hcurrent plan hplan
      have hup : isUpgrade plan newPlan = isUpgrade plan' newPlan := by
        unfold isUpgrade
        rw [hpriority]
      have hdown : isDowngrade plan newPlan = isDowngrade plan' newPlan := by
        unfold isDowngrade
        rw [hpriority]
      rw [hup, hdown] at hc
      rw [hnew, hplan']
      exact hc

/-! ## All runs -/

section Runs

variable {state : State} {requests : Nat → Request} {db₀ : Tables} {empty : db₀.webhookEvents = []}

/-- **After a newer event nothing older is written**, where nobody disturbs. -/
theorem older_after_newer (hsha : NoCollision state requests)
    (hl : (Setting.undisturbed state requests db₀ empty).Inv db h)
    (hc : Commit (Setting.undisturbed state requests db₀ empty) h p log) {newer older : PaddleWebhookEvent}
    {log' : List Write} (hp : h' ++ [(q, log')] <+: h) (hnewer : (requests q).Delivers state newer)
    (hw' : WritesTo a log') (holder : (requests p).Delivers state older) (hw : WritesTo a log) :
    newer.occurredAt ≤ older.occurredAt := by
  obtain ⟨body', account', row', last', change', hreq', hparse', ha', happ'⟩ :=
    (hl.commits _ _ _ hp).application hnewer hw'
  obtain ⟨body, account, row, last, change, hreq, hparse, ha, happ⟩ := hc.application holder hw
  obtain ⟨rfl, hr, hm, hpm, hph, hread, hlast⟩ := happ.since happ.version
  have hbefore : h' ++ [(q, log')] <+: hr :=
    prefix_of_read hread happ.found (hpm.trans hph) hp (ha.trans ha'.symm ▸ happ'.billing)
  obtain ⟨r, hrow, hra, hrt, hrs⟩ := happ'.settled empty hsha (hl.of_prefix hph) (hbefore.trans hpm) hreq'
    hparse'
  obtain ⟨ts, hts, hle⟩ := le_lastProcessed hrow (hra.trans (congrArg some (ha'.trans ha.symm))) hrs
  have hlate := happ.timely ts (hlast.symm.trans hts)
  rw [hrt] at hle
  exact hle.trans hlate

/-- **The plan is that of the account.** -/
theorem decided_now {event : PaddleWebhookEvent}
    (hc : Commit (Setting.undisturbed state requests db₀ empty) h p log)
    (he : (requests p).Delivers state event) (hw : WritesTo a log) :
    ∃ row change, (tables db₀ h).account? a = some row ∧
      (∃ hp, hp <+: h ∧ event.change? (event.priceId.bind (tables db₀ hp).planByPrice?)
        ((tables db₀ h).plan? row.tariffPlanId) = some change) ∧
        Write.setBilling a (change.apply row.toAccountRow) ∈ log := by
  obtain ⟨body, account, row, last, change, -, -, rfl, happ⟩ := hc.application he hw
  obtain ⟨rfl, -⟩ := happ.since happ.version
  obtain ⟨hp, hcur, hpp, hpc, hdecided⟩ := happ.decided
  exact ⟨row, change, happ.found, ⟨hp, hpp, change?_congr (fun plan hplan =>
    (grows_tables hpc).plans _ plan hplan) hdecided⟩, happ.billing⟩

/-- **Stale events never overwrite newer state** in a run in which every `UPDATE` finds the account as
its delivery has read it. -/
theorem events_in_order (state : State) (requests : Nat → Request) (db₀ : Tables)
    (empty : db₀.webhookEvents = []) (hsha : NoCollision state requests) {y : PaddleConfig}
    (hy : (Setting.undisturbed state requests db₀ empty).Reach (start state requests db₀) y) :
    Ordered state requests db₀ y.shared.history := by
  obtain ⟨hinv, -⟩ := paddle_reach hy
  constructor
  · refine Logged.induction (motive := fun h => h.Pairwise _) hinv List.Pairwise.nil ?_
    intro h p log hl hc ih
    refine List.pairwise_append.mpr ⟨ih, List.pairwise_singleton _ _, ?_⟩
    rintro ⟨q, log'⟩ hmem later hlater a newer older hnewer hw' holder hlate hw
    obtain rfl := List.mem_singleton.mp hlater
    obtain ⟨before, after, rfl⟩ := List.append_of_mem hmem
    have hle := older_after_newer hsha hl hc (show before ++ _ <+: _ from ⟨after, by simp⟩)
      hnewer hw' holder hw
    omega
  · intro h' p log event a hp he hw
    exact decided_now (hinv.commits _ _ _ hp) he hw

end Runs

/-! ### Two deliveries -/

/-- A request a delivery, of events with different ids. -/
theorem noCollision_sample {events : List PaddleWebhookEvent}
    (hids : (events.map (·.eventId)).Nodup) : NoCollision (sampleState events) sampleDelivery := by
  intro p q body body' event event' _ _ hparse hparse' hid _
  exact List.inj_on_of_nodup_map hids (List.mem_of_getElem? hparse) (List.mem_of_getElem? hparse') hid

/-- An event about the cheaper plan, and a newer one about the other. -/
def sampleUpdates : List PaddleWebhookEvent :=
  [sampleEvent "evt_0" "subscription.updated" 10 "basic" 100,
    sampleEvent "evt_1" "subscription.updated" 20 "pro" 200]

/-- Who has committed, and whether the account was written to. -/
def sampleWriters (h : History schema) : List (Nat × Bool) :=
  h.map fun entry => (entry.1, entry.2.any (·.accountId? == some (Uuid.small 1)))

theorem delivers_sample {n : Nat} {events : List PaddleWebhookEvent}
    (he : events[n]? = some event) : (sampleDelivery n).Delivers (sampleState events) event :=
  ⟨_, rfl, by simpa [sampleState] using he⟩

theorem writesTo_of_any (h : log.any (·.accountId? == some a) = true) : WritesTo a log := by
  obtain ⟨w, hw, ha⟩ := List.any_eq_true.mp h
  exact ⟨w, hw, by simpa using ha⟩

/-- **The older event overwrites the newer one**: it has looked for newer events before. -/
theorem older_event_overwrites : ∃ y : PaddleConfig,
    (Setting.all (sampleState sampleUpdates) sampleDelivery (sampleTables [("ctm", Uuid.small 1)])
      rfl).Reach (start (sampleState sampleUpdates) sampleDelivery
        (sampleTables [("ctm", Uuid.small 1)])) y ∧
    (y.shared.db.account? (Uuid.small 1)).map (·.tariffPlanId) = some (Uuid.small 11) ∧
    ¬ Ordered (sampleState sampleUpdates) sampleDelivery (sampleTables [("ctm", Uuid.small 1)])
      y.shared.history := by
  have hrun : ((start (sampleState sampleUpdates) sampleDelivery
      (sampleTables [("ctm", Uuid.small 1)])).run (system schema) (fun _ _ _ => True)
      (sampleSteps 0 8 20 20 ++ sampleSteps 1 11 21 21 ++ sampleSteps 0 3 20 22)).map (fun y =>
        (sampleWriters y.shared.history,
          (y.shared.db.account? (Uuid.small 1)).map (·.tariffPlanId))) =
      some ([(1, true), (0, true)], some (Uuid.small 11)) := by decide +kernel
  obtain ⟨y, hy, hfacts⟩ := Reach.exists_of_run hrun
  obtain ⟨hwriters, hplan⟩ := Prod.mk.inj hfacts
  refine ⟨y, hy, hplan, fun hordered => ?_⟩
  obtain ⟨earlier, rest, hhistory, hearlier, hrest⟩ := List.map_eq_cons_iff.mp hwriters
  obtain ⟨later, rest, rfl, hlater, -⟩ := List.map_eq_cons_iff.mp hrest
  obtain ⟨hp, hw⟩ := Prod.mk.inj hearlier
  obtain ⟨hp', hw'⟩ := Prod.mk.inj hlater
  have horder := hordered.order
  rw [hhistory] at horder
  refine (List.pairwise_cons.mp horder).1 later List.mem_cons_self (Uuid.small 1)
    (sampleEvent "evt_1" "subscription.updated" 20 "pro" 200)
    (sampleEvent "evt_0" "subscription.updated" 10 "basic" 100) ?_ (writesTo_of_any hw) ?_ (by decide)
    (writesTo_of_any hw')
  · rw [hp]
    exact delivers_sample rfl
  · rw [hp']
    exact delivers_sample rfl

/-- One after the other, the older event is skipped. -/
theorem events_in_order_sampleRun : ∃ y : PaddleConfig,
    sampleWriters y.shared.history = [(1, true), (0, false)] ∧
      Ordered (sampleState sampleUpdates) sampleDelivery (sampleTables [("ctm", Uuid.small 1)])
        y.shared.history := by
  have hrun : ((start (sampleState sampleUpdates) sampleDelivery
      (sampleTables [("ctm", Uuid.small 1)])).run (system schema)
      (fun _ q g => undisturbed q g = true)
      (sampleSteps 1 11 21 20 ++ sampleSteps 0 8 20 21)).map (fun y =>
        sampleWriters y.shared.history) = some [(1, true), (0, false)] := by decide +kernel
  obtain ⟨y, hy, hwriters⟩ := Reach.exists_of_run hrun
  exact ⟨y, hwriters, events_in_order _ _ _ rfl (noCollision_sample (by decide)) hy⟩

end EvidentLedger.Paddle
