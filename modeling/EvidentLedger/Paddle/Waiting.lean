import EvidentLedger.Paddle.Once

/-!
# Events that wait for an account

An event of a customer without an account is stored as `waiting_for_account_link`
(`store_unlinked_webhook`, `src/paddle/processor.rs:272-334`). `classify_existing_event` answers a
delivery of it with `Idempotent` from then on (`processor.rs:142-161`,
`docs/audits/STAGE_11_4_WEBHOOK_RELIABILITY.md:37`), whether the customer has got an account or not, and
`linking.rs` looks at no event.

* `no_commit_of_settled`: no delivery of a settled event commits.
* `hasPendingLink`: the customer of a waiting event has a pending link.
* `spec_redelivery`: what a delivery that begins then is told.
* **`waiting_event_stays`**: the event stays stored, with its pending link, and is applied to no account;
  its deliveries are idempotent (`Waits`).
* `linked_event_lost`: a run with a delivery after the customer is linked.
-/

namespace EvidentLedger.Paddle

open Lib.Interleave Lib.Transaction

/-- The event of the row has a customer with a pending link. -/
def HasPendingLink (db : Tables) (row : WebhookEventRow) : Prop :=
  ∃ event : PaddleWebhookEvent, ∃ customerId, event.eventId = row.paddleEventId ∧
    event.customerId = some customerId ∧ ∃ link ∈ db.pendingLinks, link.paddleCustomerId = customerId

/-- **An event that waits for an account** in `y` waits in `z`. -/
structure Waits (state : State) (requests : Nat → Request) (row : WebhookEventRow)
    (y z : PaddleConfig) : Prop where
  /-- The row is as it was. -/
  stored : row ∈ z.shared.db.webhookEvents
  /-- The customer of the event has a pending link. -/
  pending : HasPendingLink z.shared.db row
  /-- The event has been applied to no account. -/
  unapplied : applications state requests row.paddleEventId z.shared.history = []
  /-- No delivery of it has changed a table since. -/
  unchanged : ∀ q, (requests q).eventId? state = some row.paddleEventId →
    writesOf q z.shared.history = writesOf q y.shared.history
  /-- A delivery that began since is told that the event was there, unless its first statement has
  failed. -/
  redelivered : ∀ q body event, requests q = .webhook body → state.parse body = some event →
    event.handledEventType.isSome = true → event.eventId = row.paddleEventId →
      payloadHash state body = row.payloadHash → y.procs q = ((requests q).run state, none) →
        ∀ reply, (z.procs q).1.result = some reply →
          reply = .webhook (.ok .idempotent) ∨ ∃ e, reply = .webhook (.error (databaseError e))

variable {x : Setting} {db : Tables} {h h' : History schema} {p q : Nat} {log : List Write}
  {event : PaddleWebhookEvent} {row : WebhookEventRow} {body : List UInt8}

/-! ## No more commits -/

/-- **A settled event is delivered no more.** -/
theorem no_commit_of_settled (hl : x.Inv db h) (hp : h' ++ [(p, log)] <+: h)
    (hrow : row ∈ (tables x.db₀ h').webhookEvents) (hs : row.Settled)
    (he : (x.requests p).eventId? x.state = some row.paddleEventId) : False := by
  obtain ⟨body, event, -, -, hid, -, hd⟩ := (hl.commits _ _ _ hp).delivers he
  obtain ⟨accountId, row', opening, middle, status, hclaims, -⟩ := hd.webhookEvents
  have hok := Setting.webhooks (hl.of_prefix ((List.prefix_append h' _).trans hp))
  exact hclaims.not_settled hok hrow hs hid.symm

/-- Its deliveries have committed what they had. -/
theorem writesOf_settled (hl : x.Inv db h) (hp : h' <+: h)
    (hrow : row ∈ (tables x.db₀ h').webhookEvents) (hs : row.Settled)
    (he : (x.requests q).eventId? x.state = some row.paddleEventId) :
    writesOf q h = writesOf q h' := by
  obtain ⟨rest, rfl⟩ := hp
  rw [writesOf_append, List.append_right_eq_self]
  refine List.flatMap_eq_nil_iff.mpr fun entry hentry => ?_
  by_cases hq : entry.1 = q
  · obtain ⟨before, after, rfl⟩ := List.append_of_mem hentry
    have hthere := settled_prefix (hl.of_prefix (show h' ++ before <+: _ from ⟨entry :: after, by simp⟩))
      (List.prefix_append h' before) hrow hs
    have hlast : h' ++ before ++ [(entry.1, entry.2)] <+: h' ++ (before ++ entry :: after) :=
      ⟨after, by simp⟩
    exact (no_commit_of_settled hl hlast hthere hs (hq ▸ he)).elim
  · exact if_neg hq

/-- A waiting event is applied to no account. -/
theorem applications_waiting (hl : x.Inv db h) (hrow : row ∈ db.webhookEvents)
    (hw : row.status = .waitingForAccountLink) :
    applications x.state x.requests row.paddleEventId h = [] := by
  by_contra hne
  obtain ⟨row', hrow', he, hs⟩ := (applications_once hl row.paddleEventId).2 hne
  have hok := Setting.webhooks hl
  obtain rfl := List.inj_on_of_nodup_map hok.events hrow' hrow he
  rw [hs] at hw
  exact absurd hw (by simp)

/-! ## Pending links -/

/-- Pending links are only added. -/
theorem pendingLinks_replay (log : List Write) (db : Tables) :
    db.pendingLinks <+: Tables.pendingLinks (replay (S := schema) log db) := by
  induction log generalizing db with
  | nil => exact List.prefix_refl _
  | cons w log ih =>
    rw [replay_cons]
    refine List.IsPrefix.trans ?_ (ih _)
    cases w with
    | insertPendingLink row => exact List.prefix_append _ _
    | insertWebhook | setStatus | setBilling | setSubscription | linkCustomer | setPrice =>
      exact List.prefix_refl _

theorem HasPendingLink.replay (hp : HasPendingLink db row) :
    HasPendingLink (replay (S := schema) log db) row := by
  obtain ⟨event, customerId, he, hcustomer, link, hlink, hid⟩ := hp
  exact ⟨event, customerId, he, hcustomer, link, (pendingLinks_replay log db).subset hlink, hid⟩

/-- **Every waiting event has one.** -/
theorem hasPendingLink (empty : x.db₀.webhookEvents = []) (hl : x.Inv db h) : ∀ row ∈ db.webhookEvents,
    row.status = .waitingForAccountLink → HasPendingLink db row := by
  rw [hl.replayed]
  refine Logged.induction (motive := fun h => ∀ row ∈ (tables x.db₀ h).webhookEvents,
    row.status = .waitingForAccountLink → HasPendingLink (tables x.db₀ h) row) hl ?_ ?_
  · intro row hrow
    rw [show (tables x.db₀ []).webhookEvents = [] from empty] at hrow
    exact absurd hrow (by simp)
  · intro h p log hl' hc ih row hrow hw
    rw [tables_concat] at hrow ⊢
    rcases hc.cases_webhooks with ⟨body, event, -, -, -, -, hd⟩ | hoff
    · obtain ⟨accountId, claimed, opening, middle, status, hclaims, hending, rfl, hrows⟩ :=
        hd.webhookEvents
      rw [hrows] at hrow
      obtain ⟨r, hr, rfl⟩ := List.mem_map.mp hrow
      by_cases hmark : (r.paddleEventId == event.eventId && r.id == claimed.id) = true
      · have hstatus : status = .waitingForAccountLink := by
          rw [← hw, WebhookEventRow.mark, if_pos hmark]
        have he : r.paddleEventId = event.eventId := by
          simpa using (Bool.and_eq_true_iff.mp hmark).1
        cases hending with
        | failed | skipped | applied => exact absurd hstatus (by simp)
        | waiting customerId email hcustomer =>
          refine ⟨event, customerId, by simp [he], hcustomer, ⟨customerId, email⟩, ?_, rfl⟩
          rw [replay_append, replay_append]
          refine (pendingLinks_replay _ _).subset ?_
          exact List.mem_append_right _ List.mem_cons_self
      · have hsame : r.mark event.eventId claimed.id status = r := by
          rw [WebhookEventRow.mark, if_neg hmark]
        rw [hsame] at hw ⊢
        rcases List.mem_append.mp hr with hr | hr
        · exact (ih r hr hw).replay
        · cases hclaims with
          | inserted _ _ hclaimed =>
            obtain rfl := List.mem_singleton.mp hr
            rw [hclaimed] at hw
            exact absurd hw (by simp)
          | found => exact absurd hr (by simp [insertedRows])
    · rw [webhookEvents_replay hoff] at hrow
      exact (ih row hrow hw).replay

/-! ## Redeliveries -/

/-- The row is there. -/
def Present (row : WebhookEventRow) (g : Shared schema) : Prop := row ∈ Tables.webhookEvents g.db

theorem steady_present (hs : row.Settled) : Steady x.Inv q (Present row) := by
  intro g g' hrow hi hr hi'
  have hdb : tables x.db₀ g.history = g.db := hi.replayed.symm
  refine settled_prefix hi' hr.history ?_ hs
  rw [hdb]
  exact hrow

/-- **A delivery of a waiting event** ends with the lookup of the event. -/
theorem spec_redelivery (hw : row.status = .waitingForAccountLink)
    (hhandled : event.handledEventType.isSome = true) (he : event.eventId = row.paddleEventId)
    (hhash : payloadHash x.state body = row.payloadHash) :
    x.Spec q (Outside (Present row)) (processPaddleWebhook x.state event body)
      (fun outcome _ _ => outcome = .idempotent) fun err _ => ∃ e, err = databaseError e := by
  have hst : x.Holds q (Outside (Present row)) := stable_outside (steady_present (Or.inr hw))
  have hhandled' : event.handledEventType.isNone = false := by
    rw [Option.isNone_eq_false_iff]
    exact hhandled
  unfold processPaddleWebhook
  rw [hhandled']
  refine spec_bind (S := schema) (M := fun found _ _ => found = some row)
    (fun _ => steady_const) (spec_attempt (S := schema) (fun _ => stable_outside steady_const)
      (fun _ => steady_const) (triple_poolRead (S := schema) (s := .selectWebhook event.eventId) rfl
        hst (fun _ => stable_outside steady_const) (fun _ => steady_const) ?_
          fun _ _ e _ _ _ => ⟨e, rfl⟩)) fun found => ?_
  · intro l g c found ks ws hrow hi _ heff
    have heff : (Sql.selectWebhook event.eventId).effect (g.waits q) c c.time g.db =
      some (.ok (found, ks, ws)) := heff
    obtain ⟨rfl, rfl⟩ := selectWebhook_ok heff
    refine ⟨rfl, ?_⟩
    rw [he]
    exact (Setting.webhooks hi).webhook? hrow
  · rintro l g rfl hi
    simp only [classified, classifyExistingEvent, hhash, hw, ne_eq, not_true_eq_false, if_false]
    exact spec_pure (S := schema) (stable_outside (P := fun _ => True) steady_const)
      (fun _ _ _ => rfl) l g trivial hi

/-! ## All runs -/

/-- **A payment event that arrives before linking waits for ever**: it stays stored, and no delivery
applies it, whether its customer is linked or not. -/
theorem waiting_event_stays (state : State) (requests : Nat → Request) (db₀ : Tables)
    (empty : db₀.webhookEvents = []) {y z : PaddleConfig}
    (hy : (Setting.all state requests db₀ empty).Reach (start state requests db₀) y)
    (hz : (Setting.all state requests db₀ empty).Reach y z) {row : WebhookEventRow}
    (hrow : row ∈ y.shared.db.webhookEvents) (hw : row.status = .waitingForAccountLink) :
    Waits state requests row y z := by
  obtain ⟨hinv, -⟩ := paddle_reach (hy.trans hz)
  obtain ⟨hinvy, hsafe⟩ := reach_safe (inv_start _) (safe_start _) hy
  have hhistory := paddle_history hy hz
  have hthen : row ∈ (tables db₀ y.shared.history).webhookEvents := by
    rw [← show y.shared.db = tables db₀ y.shared.history from hinvy.replayed]
    exact hrow
  have hthere := settled_prefix hinv hhistory hthen (Or.inr hw)
  constructor
  · exact hthere
  · exact hasPendingLink empty hinv row hthere hw
  · exact applications_waiting hinv hthere hw
  · exact fun q he => writesOf_settled hinv hhistory hthen (Or.inr hw) he
  · intro q body event hreq hparse hhandled he hhash hnew reply hreply
    refine reach_result (F := fun reply _ _ => reply = .webhook (.ok .idempotent) ∨
      ∃ e, reply = .webhook (.error (databaseError e))) hinvy hsafe ?_ hz hreply
    rw [hnew, hreq, Request.run, hparse]
    refine triple_bind (spec_redelivery (x := Setting.all state requests db₀ empty) hw hhandled he
      hhash) (fun r => ?_) none y.shared hrow hinvy
    cases r with
    | ok outcome =>
      refine triple_ret (stable_outside (P := fun _ => outcome = .idempotent) steady_const) ?_
      rintro l g rfl -
      exact Or.inl rfl
    | error err =>
      refine triple_ret (stable_outside (P := fun _ => ∃ e, err = databaseError e) steady_const) ?_
      rintro l g ⟨e, rfl⟩ -
      exact Or.inr ⟨e, rfl⟩

/-! ### A customer that is linked later -/

/-- The event, and the link of its customer. -/
def sampleLinking : Nat → Request
  | 1 => .link (Uuid.small 1) "ctm"
  | _ => sampleDelivery 0

/-- What a delivery has answered. -/
def Reply.outcome? : Reply → Option WebhookOutcome
  | webhook (.ok outcome) => some outcome
  | _ => none

/-- The event is stored, its customer is linked, and it is delivered again. -/
theorem exists_sampleLinking : ∃ y z : PaddleConfig,
    (Setting.all (sampleState sampleCreated) sampleLinking (sampleTables []) rfl).Reach
      (start (sampleState sampleCreated) sampleLinking (sampleTables [])) y ∧
    (Setting.all (sampleState sampleCreated) sampleLinking (sampleTables []) rfl).Reach y z ∧
    (y.shared.db.webhookEvents.map (·.status), y.shared.db.owner? "ctm",
      (z.procs 2).1.result.bind Reply.outcome?,
        (z.shared.db.account? (Uuid.small 1)).map (·.tariffPlanId)) =
      ([.waitingForAccountLink], some (Uuid.small 1), some .idempotent, some (Uuid.small 10)) ∧
    y.procs 2 = ((sampleDelivery 0).run (sampleState sampleCreated), none) := by
  have hrun : ((start (sampleState sampleCreated) sampleLinking (sampleTables [])).run
      (system schema) (fun _ _ _ => True) (sampleSteps 0 8 20 0 ++ sampleSteps 1 2 21 5)).bind
      (fun y => (y.run (system schema) (fun _ _ _ => True) (sampleSteps 2 1 22 9)).map fun z =>
        (y.shared.db.webhookEvents.map (·.status), y.shared.db.owner? "ctm",
          (z.procs 2).1.result.bind Reply.outcome?,
            (z.shared.db.account? (Uuid.small 1)).map (·.tariffPlanId))) =
      some ([.waitingForAccountLink], some (Uuid.small 1), some .idempotent, some (Uuid.small 10)) := by
    decide +kernel
  obtain ⟨y, z, hy, hz, hfacts, hidle⟩ := Reach.exists_of_runs hrun
  exact ⟨y, z, hy, hz, hfacts, hidle 2 (by decide)⟩

/-- The event waits, with its pending link. -/
theorem waiting_event_stays_sampleRun : ∃ (y z : PaddleConfig) (row : WebhookEventRow),
    y.shared.db.owner? "ctm" = some (Uuid.small 1) ∧
      Waits (sampleState sampleCreated) sampleLinking row y z := by
  obtain ⟨y, z, hy, hz, hfacts, -⟩ := exists_sampleLinking
  obtain ⟨hstatus, hrest⟩ := Prod.mk.inj hfacts
  obtain ⟨row, hrow, hw⟩ := List.mem_map.mp (hstatus ▸ List.mem_cons_self :
    WebhookStatus.waitingForAccountLink ∈ y.shared.db.webhookEvents.map (·.status))
  exact ⟨y, z, row, (Prod.mk.inj hrest).1, waiting_event_stays _ _ _ rfl hy hz hrow hw⟩

/-- **The payment is not applied** after its customer is linked: the delivery is idempotent, and the
account keeps the free plan. -/
theorem linked_event_lost : ∃ y z : PaddleConfig,
    (Setting.all (sampleState sampleCreated) sampleLinking (sampleTables []) rfl).Reach
      (start (sampleState sampleCreated) sampleLinking (sampleTables [])) y ∧
    (Setting.all (sampleState sampleCreated) sampleLinking (sampleTables []) rfl).Reach y z ∧
    (∃ row ∈ y.shared.db.webhookEvents, row.status = .waitingForAccountLink) ∧
    y.shared.db.owner? "ctm" = some (Uuid.small 1) ∧
    y.procs 2 = ((sampleDelivery 0).run (sampleState sampleCreated), none) ∧
    (z.procs 2).1.result.bind Reply.outcome? = some .idempotent ∧
    (z.shared.db.account? (Uuid.small 1)).map (·.tariffPlanId) = some (Uuid.small 10) := by
  obtain ⟨y, z, hy, hz, hfacts, hnew⟩ := exists_sampleLinking
  obtain ⟨hstatus, hrest⟩ := Prod.mk.inj hfacts
  obtain ⟨howner, hrest⟩ := Prod.mk.inj hrest
  obtain ⟨hreply, hplan⟩ := Prod.mk.inj hrest
  obtain ⟨row, hrow, hw⟩ := List.mem_map.mp (hstatus ▸ List.mem_cons_self :
    WebhookStatus.waitingForAccountLink ∈ y.shared.db.webhookEvents.map (·.status))
  exact ⟨y, z, hy, hz, ⟨row, hrow, hw⟩, howner, hnew, hreply, hplan⟩

end EvidentLedger.Paddle
