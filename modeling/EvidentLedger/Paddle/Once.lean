import EvidentLedger.Binding
import EvidentLedger.Paddle.Requests

/-!
# Payment events are applied at most once

Over every run of deliveries and other requests: how often an event is stored and applied, and what a
delivery leaves behind that finds another payload, or fails.

* `Settled` rows stay: `settled_commit` is the step, `settled_prefix` the run.
* `applications` are the commits that write to an account on behalf of an event.
* **`webhooks_applied_once`**: one row an event, one application an event, nothing of another payload,
  no account written by a failed delivery, and only final statuses (`AppliedOnce`).
-/

namespace EvidentLedger.Paddle

open Lib.Interleave Lib.Transaction

/-- The id of the event that a request delivers. -/
def Request.eventId? (state : State) : Request → Option String
  | webhook rawBody => (state.parse rawBody).map (·.eventId)
  | _ => none

/-- The commits that write to an account on behalf of an event. -/
def applications (state : State) (requests : Nat → Request) (paddleEventId : String)
    (h : History schema) : History schema :=
  h.filter fun entry =>
    (requests entry.1).eventId? state == some paddleEventId && entry.2.any (·.onAccounts)

variable {x : Setting} {db : Tables} {h h' : History schema} {p : Nat} {log : List Write} {e : String}
  {event : PaddleWebhookEvent} {hash : String}

/-! ## Rows that stay -/

/-- The event is processed, or waits for an account. -/
def WebhookEventRow.Settled (row : WebhookEventRow) : Prop :=
  row.status = .processed ∨ row.status = .waitingForAccountLink

/-- Nobody claims a settled row. -/
theorem Claims.not_settled {accountId : Option Uuid} {row r : WebhookEventRow}
    {opening : List Write} (hc : Claims event hash accountId db row opening) (hok : WebhooksOk db)
    (hr : r ∈ db.webhookEvents) (hs : r.Settled) : r.paddleEventId ≠ event.eventId := by
  intro he
  cases hc with
  | inserted _ hevent => exact webhook?_none hevent r hr he
  | found hid hevent _ hstatus =>
    have hsame := hok.webhook? hr
    rw [he, ← hevent, hok.webhook? (mem_of_webhookById? hid).1] at hsame
    obtain rfl := Option.some.inj hsame
    rcases hs with hs | hs
    · rw [hs] at hstatus
      exact absurd hstatus (by simp)
    · rw [hs] at hstatus
      exact absurd hstatus (by simp)

/-- **A commit leaves a settled row.** -/
theorem settled_commit {r : WebhookEventRow} (hok : WebhooksOk (tables x.db₀ h))
    (hc : Commit x h p log) (hr : r ∈ (tables x.db₀ h).webhookEvents) (hs : r.Settled) :
    r ∈ Tables.webhookEvents (replay (S := schema) log (tables x.db₀ h)) := by
  rcases hc.cases_webhooks with ⟨body, event, -, -, -, -, hd⟩ | hoff
  · obtain ⟨accountId, row, opening, middle, status, hclaims, -, -, hrows⟩ := hd.webhookEvents
    rw [hrows]
    refine List.mem_map.mpr ⟨r, List.mem_append_left _ hr, mark_of_event_ne ?_⟩
    exact hclaims.not_settled hok hr hs
  · rw [webhookEvents_replay hoff]
    exact hr

/-- **It is there in every later state.** -/
theorem settled_prefix {r : WebhookEventRow} (hl : x.Inv db h) (hp : h' <+: h)
    (hr : r ∈ (tables x.db₀ h').webhookEvents) (hs : r.Settled) : r ∈ db.webhookEvents :=
  Logged.relates (R := fun a b : Tables => r ∈ a.webhookEvents → r ∈ b.webhookEvents)
    (fun _ h => h) (fun h h' hr => h' (h hr))
    (fun _ _ _ hl' hc hr => settled_commit (Setting.webhooks hl') hc hr hs) hl hp hr

/-! ## Applications -/

/-- What a commit on behalf of an event is. -/
theorem Commit.delivers (hc : Commit x h p log)
    (he : (x.requests p).eventId? x.state = some e) :
    ∃ body event, x.requests p = .webhook body ∧ x.state.parse body = some event ∧
      event.eventId = e ∧ writesOf p h = [] ∧
        Delivers x p event (payloadHash x.state body) h log := by
  cases hc with
  | webhook hreq hparse _ hfresh hd =>
    rw [hreq, Request.eventId?, hparse] at he
    exact ⟨_, _, hreq, hparse, Option.some.inj he, hfresh, hd⟩
  | link hreq =>
    rcases hreq with hreq | ⟨_, hreq⟩
    · rw [hreq] at he
      exact absurd he (by simp [Request.eventId?])
    · rw [hreq] at he
      exact absurd he (by simp [Request.eventId?])
  | lazy hreq | price hreq =>
    rw [hreq] at he
    exact absurd he (by simp [Request.eventId?])

/-- A delivery that writes to an account settles its event. -/
theorem Delivers.processed (hd : Delivers x p event hash h log) (hw : log.any (·.onAccounts) = true) :
    ∃ row ∈ Tables.webhookEvents (replay (S := schema) log (tables x.db₀ h)),
      row.paddleEventId = event.eventId ∧ row.status = .processed := by
  obtain ⟨accountId, row, opening, middle, status, hclaims, hending, rfl, hrows⟩ := hd.webhookEvents
  have hstatus : status = .processed := by
    cases hending with
    | waiting | failed =>
      refine absurd hw ?_
      cases hclaims <;> simp [Write.onAccounts]
    | skipped | applied => rfl
  obtain ⟨hmem, he, -⟩ := hclaims.mem
  refine ⟨row.mark event.eventId row.id status, ?_, by simp [he], ?_⟩
  · rw [hrows]
    exact List.mem_map.mpr ⟨row, hmem, rfl⟩
  · simp [WebhookEventRow.mark, he, hstatus]

/-- **An event is applied at most once**, and is settled then. -/
theorem applications_once (hl : x.Inv db h) (e : String) :
    (applications x.state x.requests e h).length ≤ 1 ∧
      (applications x.state x.requests e h ≠ [] →
        ∃ row ∈ db.webhookEvents, row.paddleEventId = e ∧ row.status = .processed) := by
  rw [hl.replayed]
  refine Logged.induction (motive := fun h => (applications x.state x.requests e h).length ≤ 1 ∧
    (applications x.state x.requests e h ≠ [] → ∃ row ∈ (tables x.db₀ h).webhookEvents,
      row.paddleEventId = e ∧ row.status = .processed)) hl ⟨by simp [applications], ?_⟩ ?_
  · exact fun hne => absurd rfl hne
  · rintro h p log hl' hc ⟨hlength, hsettled⟩
    have hok := Setting.webhooks hl'
    have hconcat : applications x.state x.requests e (h ++ [(p, log)]) =
        applications x.state x.requests e h ++ applications x.state x.requests e [(p, log)] :=
      List.filter_append ..
    rw [tables_concat]
    by_cases hthis : ((x.requests p).eventId? x.state == some e && log.any (·.onAccounts)) = true
    · obtain ⟨he, hw⟩ := Bool.and_eq_true_iff.mp hthis
      obtain ⟨body, event, -, -, rfl, -, hd⟩ := hc.delivers (beq_iff_eq.mp he)
      have hnone : applications x.state x.requests event.eventId h = [] := by
        by_contra hne
        obtain ⟨row, hrow, heq, hstatus⟩ := hsettled hne
        obtain ⟨accountId, row', opening, middle, status, hclaims, -⟩ := hd.webhookEvents
        exact hclaims.not_settled hok hrow (Or.inl hstatus) heq
      refine ⟨?_, fun _ => hd.processed hw⟩
      rw [hconcat, hnone, List.nil_append]
      exact List.length_filter_le _ _
    · have hskip : applications x.state x.requests e [(p, log)] = [] := by
        simp only [applications, List.filter_cons, if_neg hthis, List.filter_nil]
      rw [hconcat, hskip, List.append_nil]
      refine ⟨hlength, fun hne => ?_⟩
      obtain ⟨row, hrow, heq, hstatus⟩ := hsettled hne
      exact ⟨row, settled_commit hok hc hrow (Or.inl hstatus), heq, hstatus⟩

/-! ## Payloads -/

theorem mem_of_writesOf {p : Nat} {h : History schema} (hne : writesOf p h ≠ []) :
    ∃ h' log, h' ++ [(p, log)] <+: h := by
  obtain ⟨w, hw⟩ := List.exists_mem_of_ne_nil _ hne
  obtain ⟨⟨q, log⟩, hentry, hw⟩ := List.mem_flatMap.mp hw
  by_cases hq : q = p
  · subst hq
    obtain ⟨h', rest, rfl⟩ := List.append_of_mem hentry
    exact ⟨h', log, ⟨rest, by simp⟩⟩
  · simp only [if_neg hq] at hw
    exact absurd hw (by simp)

/-- **A delivery that has committed** has the hash of the stored row. -/
theorem payloadHash_of_committed {body : List UInt8} {row : WebhookEventRow} (hl : x.Inv db h)
    (hreq : x.requests p = .webhook body) (hparse : x.state.parse body = some event)
    (hne : writesOf p h ≠ []) (hrow : row ∈ db.webhookEvents)
    (he : row.paddleEventId = event.eventId) : row.payloadHash = payloadHash x.state body := by
  obtain ⟨h', log, hp⟩ := mem_of_writesOf hne
  have hid : (x.requests p).eventId? x.state = some event.eventId := by
    rw [hreq, Request.eventId?, hparse]
    rfl
  obtain ⟨body', event', hreq', hparse', -, -, hd⟩ := (hl.commits _ _ _ hp).delivers hid
  obtain rfl : body = body' := Request.webhook.inj (hreq.symm.trans hreq')
  obtain rfl := Option.some.inj (hparse.symm.trans hparse')
  obtain ⟨accountId, row', opening, middle, status, hclaims, -, -, hrows⟩ := hd.webhookEvents
  obtain ⟨hmem, he', hhash⟩ := hclaims.mem
  have hthen : row'.mark event.eventId row'.id status ∈
      (tables x.db₀ (h' ++ [(p, log)])).webhookEvents := by
    rw [tables_concat, hrows]
    exact List.mem_map.mpr ⟨row', hmem, rfl⟩
  have hstored : Stored x event.eventId (row'.mark event.eventId row'.id status) h := by
    refine ⟨h' ++ [(p, log)], hp, ?_⟩
    have hfind := (Setting.webhooks (hl.of_prefix hp)).webhook? hthen
    rwa [mark_paddleEventId, he'] at hfind
  obtain ⟨now, hnow, hsame, -⟩ := hstored.still hl
  have hok := Setting.webhooks hl
  have hevent : now.paddleEventId = event.eventId := hsame.2.1.trans (by simp [he'])
  have heq := hok.webhook? hrow
  rw [he, ← hevent, hok.webhook? (mem_of_webhookById? hnow).1] at heq
  obtain rfl := Option.some.inj heq
  rw [hsame.2.2.1, mark_payloadHash, hhash]

/-! ## All runs -/

/-- **At most once**, of a state of the deliveries. -/
structure AppliedOnce (state : State) (requests : Nat → Request) (y : PaddleConfig) : Prop where
  /-- An event has one row at most. -/
  stored : ∀ e, (y.shared.db.webhookEvents.filter (·.paddleEventId == e)).length ≤ 1
  /-- `apply_event` has taken effect on an account at most once. -/
  applied : ∀ e, (applications state requests e y.shared.history).length ≤ 1
  /-- A delivery with another hash than the stored one has changed nothing. -/
  conflict : ∀ p body event row, requests p = .webhook body → state.parse body = some event →
    row ∈ y.shared.db.webhookEvents → row.paddleEventId = event.eventId →
      row.payloadHash ≠ payloadHash state body → writesOf p y.shared.history = []
  /-- A delivery that has ended in an error has changed no account. -/
  failed : ∀ p err, (y.procs p).1.result = some (.webhook (.error err)) →
    ∀ w ∈ writesOf p y.shared.history, w.onAccounts = false
  /-- The committed statuses. -/
  statuses : ∀ row ∈ y.shared.db.webhookEvents,
    row.status = .processed ∨ row.status = .failed ∨ row.status = .waitingForAccountLink

theorem WebhooksOk.length_filter (hok : WebhooksOk db) (e : String) :
    (db.webhookEvents.filter (·.paddleEventId == e)).length ≤ 1 := by
  have hcount := List.nodup_iff_count_le_one.mp hok.events e
  rw [List.count, List.countP_map, List.countP_eq_length_filter] at hcount
  exact hcount

/-- **Payment events are applied at most once**, whatever is delivered and however it interleaves. -/
theorem webhooks_applied_once (state : State) (requests : Nat → Request) (db₀ : Tables)
    (empty : db₀.webhookEvents = []) {y : PaddleConfig}
    (hy : (Setting.all state requests db₀ empty).Reach (start state requests db₀) y) :
    AppliedOnce state requests y := by
  obtain ⟨hinv, hreply⟩ := paddle_reach hy
  have hok := Setting.webhooks hinv
  constructor
  · exact hok.length_filter
  · exact fun e => (applications_once hinv e).1
  · intro p body event row hreq hparse hrow he hhash
    by_contra hne
    exact hhash (payloadHash_of_committed hinv hreq hparse hne hrow he)
  · intro p err hr
    obtain ⟨body, event, -, -, hspares⟩ := hreply p _ hr
    exact hspares
  · exact hok.final

/-! ### A delivery -/

/-- An event of a customer about a price. -/
def sampleEvent (eventId eventType : String) (occurredAt : Int) (priceId : String) (endsAt : Int) :
    PaddleWebhookEvent :=
  ⟨eventId, eventType, occurredAt, none, some "ctm", none, some ⟨endsAt⟩, some [⟨some ⟨priceId⟩⟩]⟩

/-- A body of `n` bytes is the event number `n`. -/
def sampleState (events : List PaddleWebhookEvent) : State :=
  ⟨sampleSha, fun body => events[body.length]?⟩

def sampleDelivery (n : Nat) : Request := .webhook (List.replicate n 0)

/-- An account on the free plan, with three plans to choose from. -/
def sampleTables (customers : List (String × Uuid)) : Tables where
  accounts := [⟨⟨Uuid.small 10, none, .none, none⟩, Uuid.small 1, 0⟩]
  customers
  subscriptions := []
  tariffPlans :=
    [⟨⟨Uuid.small 10, "free", none⟩, 0, none⟩, ⟨⟨Uuid.small 11, "basic", none⟩, 1, some "basic"⟩,
      ⟨⟨Uuid.small 12, "pro", none⟩, 2, some "pro"⟩]
  webhookEvents := []
  pendingLinks := []

/-- Steps of one request, at one time. -/
def sampleSteps (p count : Nat) (uuid : UInt8) (time : Int) : List (Nat × Choice) :=
  List.replicate count (p, ⟨false, time, Uuid.small uuid, .error .timeout⟩)

def sampleCreated : List PaddleWebhookEvent :=
  [sampleEvent "evt_0" "subscription.created" 10 "pro" 100]

/-- The event is applied, and delivered again. -/
theorem webhooks_applied_once_sampleRun : ∃ y : PaddleConfig,
    (y.shared.history.length, y.shared.db.webhookEvents.map (·.status)) = (1, [.processed]) ∧
      AppliedOnce (sampleState sampleCreated) (fun _ => sampleDelivery 0) y := by
  have hrun : ((start (sampleState sampleCreated) (fun _ => sampleDelivery 0)
      (sampleTables [("ctm", Uuid.small 1)])).run (system schema) (fun _ _ _ => True)
      (sampleSteps 0 10 20 0 ++ sampleSteps 1 1 21 5)).map (fun y =>
        (y.shared.history.length, y.shared.db.webhookEvents.map (·.status))) =
      some (1, [.processed]) := by decide +kernel
  obtain ⟨y, hy, hstatus⟩ := Reach.exists_of_run hrun
  exact ⟨y, hstatus, webhooks_applied_once _ _ _ rfl hy⟩

end EvidentLedger.Paddle
