import EvidentLedger.Paddle.Claim

/-!
# The change of a delivery

A claimed event is applied to the account that the transaction sees.

* `claimed_row`, `claimed_lastProcessed`: the rows of the event and of the account, under the writes of
  the transaction.
* `tries_applyEvent`: the change is decided by what was read, and made to the row that is there. On an
  error the transaction has not written to the account: it is as before, or aborted.
-/

namespace EvidentLedger.Paddle

open Lib.Interleave Lib.Transaction
open Ledger (AccountRow SubscriptionStatus nextPlanId lazyTransition)

variable {x : Setting} {p : Nat} {now : Int} {ks : List Key} {F : Tables → Prop}
  {Φ : History schema → Prop} {log : List Write} {ε α : Type}

/-! ## What the transaction sees -/

section Views

variable {event : PaddleWebhookEvent} {hash : String} {accountId : Option Uuid}
  {row : WebhookEventRow} {opening middle : List Write} {db : Tables}

/-- Its row is being processed. -/
theorem claimed_row (hc : Claims event hash accountId db row opening)
    (hm : ∀ w ∈ middle, w.onWebhooks = false) :
    Tables.webhookById? (replay (S := schema) (claimedLog event row opening middle) db) row.id =
      some { row with status := .processing } := by
  have he := hc.mem.2.1
  have hopen : Tables.webhookById? (replay (S := schema) opening db) row.id = some row := by
    cases hc with
    | inserted hid => exact webhookById?_insertWebhook hid
    | found hid => exact hid
  rw [replay_append, replay_append]
  unfold Tables.webhookById?
  rw [webhookEvents_replay hm]
  refine (@webhookById?_setStatus (replay (S := schema) opening db) _ _ _ _).trans ?_
  rw [hopen]
  simp [WebhookEventRow.mark, he]

/-- The writes before the change are on the event's own row. -/
theorem claims_onWebhooks (hc : Claims event hash accountId db row opening) :
    ∀ w ∈ claimedLog event row opening [], w.onWebhooks = true := by
  intro w hw
  cases hc with
  | inserted =>
    have hw : w = .insertWebhook row ∨ w = .setStatus event.eventId row.id .processing := by
      simpa using hw
    rcases hw with rfl | rfl
    · rfl
    · rfl
  | found =>
    have hw : w = .setStatus event.eventId row.id .processing := by simpa using hw
    rw [hw]
    rfl

/-- All other tables are as they are committed. -/
theorem claimed_view (hc : Claims event hash accountId db row opening) :
    ∃ rows, replay (S := schema) (claimedLog event row opening []) db =
      { db with webhookEvents := rows } :=
  ⟨_, replay_onWebhooks (claims_onWebhooks hc)⟩

/-- **Its own row does not count** among the processed ones. -/
theorem claimed_lastProcessed (hok : WebhooksOk db)
    (hc : Claims event hash accountId db row opening) (a : Uuid) :
    Tables.lastProcessed (replay (S := schema) (claimedLog event row opening []) db) a =
      db.lastProcessed a := by
  -- the table under the claim: the inserted row, if there is one, and one row marked `processing`
  have hrows : Tables.webhookEvents (replay (S := schema) (claimedLog event row opening []) db) =
      (db.webhookEvents ++ insertedRows opening).map
        (·.mark event.eventId row.id .processing) := by
    cases hc with
    | inserted => rfl
    | found =>
      simp only [insertedRows, List.append_nil]
      rfl
  -- a row that is processed is another one: this event's row is new or was in another state
  have hother : ∀ r ∈ db.webhookEvents, r.status = .processed →
      r.mark event.eventId row.id .processing = r := by
    intro r hr hs
    refine mark_of_id_ne fun hid => ?_
    cases hc with
    | inserted hnone => exact webhookById?_none hnone r hr hid
    | found hrow _ _ hstatus =>
      have heq := hok.webhookById? hr
      rw [hid, hrow] at heq
      obtain rfl := Option.some.inj heq
      rw [hs] at hstatus
      exact absurd hstatus (by simp)
  -- so the filter sees in every old row what it saw before
  have hkeep : ∀ r ∈ db.webhookEvents,
      ((r.mark event.eventId row.id .processing).accountId == some a &&
          (r.mark event.eventId row.id .processing).status == .processed) =
        (r.accountId == some a && r.status == .processed) := by
    intro r hr
    by_cases hs : r.status = .processed
    · rw [hother r hr hs]
    · have hs' : (r.status == .processed) = false := beq_false_of_ne hs
      unfold WebhookEventRow.mark
      split_ifs
      · rw [hs']
        rfl
      · rfl
  unfold Tables.lastProcessed
  rw [hrows, List.map_append, List.filter_append, filter_map_of_mem hkeep fun r hr hs => hother r hr
    (by simpa using (Bool.and_eq_true_iff.mp hs).2)]
  -- and the new row, which is `processing`, not at all
  have hlast : ((insertedRows opening).map (·.mark event.eventId row.id .processing)).filter
      (fun r => r.accountId == some a && r.status == .processed) = [] := by
    have he := hc.mem.2.1
    cases hc with
    | inserted => simp [insertedRows, WebhookEventRow.mark, he]
    | found => rfl
  rw [hlast, List.append_nil]

end Views

/-! ## Applying an event

`Claimed` is the transaction after `mark_processing`, with what it has read in its last argument. A plan
is read as it is committed at that moment, and may change before the update: so `Priced` and `Planned`
speak of some earlier state of the history. -/

section Applying

variable {event : PaddleWebhookEvent} {hash customerId : String} {accountId : Option Uuid}
  {row : WebhookEventRow} {opening : List Write} {account : Account} {last : Option Int}
  {change : SubscriptionChange}

/-- `should_skip_out_of_order`. -/
theorem spec_shouldSkipOutOfOrder :
    x.Spec p (Claimed p now (Known x customerId account) event hash accountId row opening [])
      (shouldSkipOutOfOrder account.accountId event.occurredAt)
      (fun skip l g => ∃ last, skip = last.any (fun ts => decide (event.occurredAt < ts)) ∧
        Claimed p now (Read x customerId account last) event hash accountId row opening [] l g)
      fun _ => Fresh p := by
  refine spec_bind (S := schema) (fun _ => steady_fresh) (spec_of_shaken (S := schema) (tries_read
    (s := .selectLastProcessed account.accountId) (A := fun last => Read x customerId account last)
    rfl framed_claims upward_known (fun _ => upward_read) ?_)) fun last => ?_
  -- the `MAX` is over the committed rows and this transaction's own, which does not count
  · intro g c last taken ws hc ⟨h', hp, hknown⟩ hi he
    obtain ⟨rfl, rfl⟩ := selectLastProcessed_ok he
    refine ⟨rfl, h', g.history, hp, List.prefix_refl _, hknown, ?_⟩
    rw [claimed_lastProcessed (Setting.webhooks hi) hc, hi.replayed]
  · exact spec_pure (S := schema) (stable_claimed upward_read) fun l g h => ⟨last, rfl, h⟩

variable (x event) in
/-- The plan of a price, as it was. -/
def Priced (plan : TariffPlanRow) (h : History schema) : Prop :=
  ∃ h', h' <+: h ∧ event.priceId.bind (tables x.db₀ h').planByPrice? = some plan

variable (x) in
/-- A plan, as it was. -/
def Planned (planId : Uuid) (plan : TariffPlanRow) (h : History schema) : Prop :=
  ∃ h', h' <+: h ∧ (tables x.db₀ h').plan? planId = some plan

/-- `load_plan_by_price_id`, of the price in the event. -/
theorem tries_newPlan (hΦ : Upward Φ) :
    x.Tries p (Claimed p now Φ event hash accountId row opening [])
      (field event.priceId "price_id" >>= loadPlanByPriceId)
      (fun plan => Claimed p now (fun h => Φ h ∧ Priced x event plan h) event hash accountId row
        opening [])
      fun _ => Failed p now (rowKeys event row.id)
        (fun db => Claims event hash accountId db row opening) Φ
        (claimedLog event row opening []) := by
  have hfailed : ∀ _ : WebhookError, x.Holds p (Failed p now (rowKeys event row.id)
      (fun db => Claims event hash accountId db row opening) Φ (claimedLog event row opening [])) :=
    fun _ => stable_shaken framed_claims hΦ.steady
  cases hprice : event.priceId with
  | none =>
    exact tries_bind (S := schema) (M := fun (_ : String) _ _ => False) hfailed
      (tries_throw (S := schema) (stable_claimed hΦ) fun l g h => Or.inl h)
      fun _ _ _ h => absurd h id
  | some priceId =>
    refine tries_bind (S := schema)
      (M := fun s l g => s = priceId ∧ Claimed p now Φ event hash accountId row opening [] l g)
      hfailed (tries_pure (S := schema) (stable_claimed hΦ) fun l g h => ⟨rfl, h⟩)
        fun s => tries_and (S := schema) ?_
    rintro rfl
    refine tries_bind (S := schema) hfailed (tries_read (s := .selectPlanByPrice s)
      (A := fun found h => Φ h ∧ ∀ plan, found = some plan → Priced x event plan h) rfl framed_claims
      hΦ (fun found => hΦ.and fun h h' hp hs plan hplan => ?_) ?_) fun found => ?_
    · exact upward_past h h' hp (hs plan hplan)
    -- the plan of the price, in the tables as they are committed at the read
    · intro g c found taken ws hc hpast hi he
      obtain ⟨rfl, rfl⟩ := selectPlanByPrice_ok he
      obtain ⟨rows, hview⟩ := claimed_view hc
      have hdb : tables x.db₀ g.history = g.db := hi.replayed.symm
      refine ⟨rfl, hpast, fun plan hplan => ⟨g.history, List.prefix_refl _, ?_⟩⟩
      rw [hprice, ← hplan, hview, hdb]
      rfl
    · cases found with
      | none =>
        refine tries_throw (S := schema) (stable_claimed (hΦ.and fun _ _ _ _ _ h =>
          absurd h (by simp))) fun l g h => Or.inl ?_
        exact amid_mono (S := schema) (fun _ hk => hk) (fun _ hf => hf) (fun _ hg => hg.1) h
      | some plan =>
        refine tries_pure (S := schema) (stable_claimed (hΦ.and fun h h' hp hs r hr =>
          upward_past h h' hp (hs r hr))) fun l g h => ?_
        exact amid_mono (S := schema) (fun _ hk => hk) (fun _ hf => hf)
          (fun _ hg => ⟨hg.1, hg.2 plan rfl⟩) h

/-- `load_plan_by_id`. -/
theorem tries_loadPlanById {planId : Uuid} (hΦ : Upward Φ) :
    x.Tries p (Claimed p now Φ event hash accountId row opening []) (loadPlanById planId)
      (fun plan => Claimed p now (fun h => Φ h ∧ Planned x planId plan h) event hash accountId row
        opening [])
      fun _ => Failed p now (rowKeys event row.id)
        (fun db => Claims event hash accountId db row opening) Φ
        (claimedLog event row opening []) := by
  refine tries_read (s := .selectPlanById planId) (A := fun plan h => Φ h ∧ Planned x planId plan h)
    rfl framed_claims hΦ (fun plan => hΦ.and upward_past) ?_
  intro g c plan taken ws hc hpast hi he
  obtain ⟨hplan, rfl⟩ := selectPlanById_ok he
  obtain ⟨rows, hview⟩ := claimed_view hc
  have hdb : tables x.db₀ g.history = g.db := hi.replayed.symm
  refine ⟨rfl, hpast, g.history, List.prefix_refl _, ?_⟩
  rw [hview] at hplan
  rw [hdb]
  exact hplan

/-- A field of the event. -/
theorem tries_field {β : Type} {value : Option β} {name : String} (hΦ : Upward Φ) :
    x.Tries p (Claimed p now Φ event hash accountId row opening []) (field value name)
      (fun a l g => value = some a ∧ Claimed p now Φ event hash accountId row opening [] l g)
      fun _ => Failed p now (rowKeys event row.id)
        (fun db => Claims event hash accountId db row opening) Φ
        (claimedLog event row opening []) := by
  cases value with
  | none => exact tries_throw (S := schema) (stable_claimed hΦ) fun l g h => Or.inl h
  | some a => exact tries_pure (S := schema) (stable_claimed hΦ) fun l g h => ⟨rfl, h⟩

variable (x p) in
/-- The row that is updated, in the state in which the update found it. -/
def Updated (account : Account) (change : SubscriptionChange) (acc : Account) (db : Tables) : Prop :=
  db.account? account.accountId = some acc ∧
    ∃ g : Shared schema, x.ok p (.sql (.updateAccount account change)) g ∧
      Tables.account? g.db account.accountId = some acc

/-- The row that is updated stays as it is while the account is locked. -/
theorem framed_updated {acc : Account} (hk : Key.account account.accountId ∈ ks) :
    Framed (S := schema) ks (Updated x p account change acc) := by
  intro db db' hs h
  have hrow : Tables.account? db' account.accountId = Tables.account? db account.accountId :=
    account?_same (hs _ hk)
  exact ⟨hrow.trans h.1, h.2⟩

/-- The writes of the change stand between the claim and the settling of the row. -/
theorem claimedLog_append {middle middle' : List Write} :
    claimedLog event row opening middle ++ middle' =
      claimedLog event row opening (middle ++ middle') := by
  simp

variable (x p now event hash customerId accountId row opening account last) in
/-- The event is applied. -/
def Applied (l : Local schema) (g : Shared schema) : Prop :=
  ∃ change acc rest, (∀ w ∈ rest, w.OfSubscription account.accountId) ∧
    Under p now (.account account.accountId :: rowKeys event row.id)
      (fun db => Claims event hash accountId db row opening ∧ Updated x p account change acc db)
      (fun h => Read x customerId account last h ∧ Decided x event account.tariffPlanId change h)
      (claimedLog event row opening
        (.setBilling account.accountId (change.apply acc.toAccountRow) :: rest)) l g

/-- What is known of an applied change is under the keys that the transaction holds. -/
theorem framed_applied {acc : Account} :
    Framed (S := schema) (.account account.accountId :: rowKeys event row.id) fun db : Tables =>
      Claims event hash accountId db row opening ∧ Updated x p account change acc db :=
  (framed_claims.mono fun _ hk => List.mem_cons_of_mem _ hk).and
    (framed_updated List.mem_cons_self)

/-- An applied change stays applied, whatever the others do. -/
theorem stable_applied :
    x.Holds p (Applied x p now event hash customerId accountId row opening account last) :=
  stable_exists fun _ => stable_exists fun _ => stable_exists fun _ => stable_and
    (stable_under framed_applied (upward_read.and upward_decided))

variable (x p now event hash customerId accountId row opening account last) in
/-- The account is as it was: the transaction is as it was, too, or aborted. -/
abbrev Spared : Local schema → Shared schema → Prop :=
  Failed p now (rowKeys event row.id) (fun db => Claims event hash accountId db row opening)
    (Read x customerId account last) (claimedLog event row opening [])

/-- **The `UPDATE` of an account.** -/
theorem tries_updateAccount (hΦ : Upward Φ)
    (hread : ∀ h, Φ h → Read x customerId account last h)
    (hdecided : ∀ h, Φ h → Decided x event account.tariffPlanId change h) :
    x.Tries p (Claimed p now Φ event hash accountId row opening [])
      (query (.updateAccount account change))
      (fun _ => Applied x p now event hash customerId accountId row opening account last)
      fun _ => Spared x p now event hash customerId accountId row opening account last := by
  refine tries_post (S := schema) (tries_statement (s := .updateAccount account change)
    (ι := {i : Account × List Write // ∀ w ∈ i.2, w.OfSubscription account.accountId})
    (K := fun _ _ => .account account.accountId :: rowKeys event row.id)
    (G := fun _ i db => Claims event hash accountId db row opening ∧
      Updated x p account change i.1.1 db)
    (A := fun _ _ h => Read x customerId account last h ∧
      Decided x event account.tariffPlanId change h)
    (W := fun _ i => .setBilling account.accountId (change.apply i.1.1.toAccountRow) :: i.1.2)
    rfl framed_claims (fun _ _ => framed_applied) hΦ (fun _ _ => upward_read.and upward_decided) ?_)
    ?_ fun _ l g h => shaken_mono (S := schema) (fun _ hk => hk) (fun _ hf => hf)
      (fun g hg => hread _ hg) h
  · intro g c u taken ws hc hpast hi hq he
    obtain ⟨rows, hview⟩ := claimed_view hc
    rw [hview] at he
    -- the account of the pool read is still there: accounts are not deleted
    obtain ⟨acc, hacc, -⟩ := (hread _ hpast).known.still hi
    obtain ⟨hnone, -⟩ | ⟨acc', rest, hacc', hk, rfl, hrest⟩ := updateAccount_ok he
    · exact absurd (hacc.symm.trans hnone) (by simp)
    · obtain rfl := Option.some.inj (hacc.symm.trans hacc')
      refine ⟨⟨(acc, rest), hrest⟩, rfl, ⟨hc, hacc, g, hq, hacc⟩,
        ⟨hread _ hpast, hdecided _ hpast⟩, fun k hkey => ?_⟩
      -- the `UPDATE` takes the account's key, and the row's keys are held already
      rcases List.mem_cons.mp hkey with rfl | hkey
      · exact Or.inr hk
      · exact Or.inl hkey
  · rintro u l g ⟨⟨⟨acc, rest⟩, hrest⟩, h⟩
    rw [claimedLog_append, List.nil_append] at h
    exact ⟨change, acc, rest, hrest, h⟩

/-- An account that was spared stays so: the transaction writes nothing any more. -/
theorem stable_spared :
    x.Holds p (Spared x p now event hash customerId accountId row opening account last) :=
  stable_shaken framed_claims upward_read.steady

/-- `subscription_created`. -/
theorem tries_subscriptionCreated (htype : event.handledEventType = some .subscriptionCreated) :
    x.Tries p (Claimed p now (Read x customerId account last) event hash accountId row opening [])
      (subscriptionCreated account event)
      (fun _ => Applied x p now event hash customerId accountId row opening account last)
      fun _ => Spared x p now event hash customerId accountId row opening account last := by
  unfold subscriptionCreated
  refine tries_bind (S := schema) (fun _ => stable_spared) (tries_newPlan upward_read) fun plan => ?_
  refine tries_bind (S := schema) (fun _ => stable_spared) (tries_post (S := schema)
    (tries_field (upward_read.and upward_past)) (fun _ _ _ h => h) fun _ l g h => shaken_mono
      (S := schema) (fun _ hk => hk) (fun _ hf => hf) (fun g hg => hg.1) h) fun periodEnd => ?_
  -- the plan and the period end are what `change?` makes the change of
  refine tries_and (S := schema) fun hperiod => tries_updateAccount (upward_read.and upward_past)
    (fun _ h => h.1) ?_
  rintro h ⟨-, hp, hprefix, hprice⟩
  refine ⟨hp, hp, hprefix, hprefix, ?_⟩
  simp [PaddleWebhookEvent.change?, htype, hprice, hperiod]

/-- `subscription_updated`. -/
theorem tries_subscriptionUpdated (htype : event.handledEventType = some .subscriptionUpdated) :
    x.Tries p (Claimed p now (Read x customerId account last) event hash accountId row opening [])
      (subscriptionUpdated account event)
      (fun _ => Applied x p now event hash customerId accountId row opening account last)
      fun _ => Spared x p now event hash customerId accountId row opening account last := by
  unfold subscriptionUpdated
  -- an error at any point has not touched the account, however much was read before
  have hspared : ∀ {Ψ : History schema → Prop}, (∀ h, Ψ h → Read x customerId account last h) →
      ∀ l g, Failed p now (rowKeys event row.id)
        (fun db => Claims event hash accountId db row opening) Ψ (claimedLog event row opening []) l g →
      Spared x p now event hash customerId accountId row opening account last l g :=
    fun hΨ l g h => shaken_mono (S := schema) (fun _ hk => hk) (fun _ hf => hf)
      (fun g hg => hΨ _ hg) h
  refine tries_bind (S := schema) (fun _ => stable_spared) (tries_newPlan upward_read)
    fun newPlan => ?_
  refine tries_bind (S := schema) (fun _ => stable_spared) (tries_post (S := schema)
    (tries_loadPlanById (upward_read.and upward_past)) (fun _ _ _ h => h)
      fun _ => hspared fun _ h => h.1) fun currentPlan => ?_
  have hup : Upward fun h => (Read x customerId account last h ∧ Priced x event newPlan h) ∧
      Planned x account.tariffPlanId currentPlan h :=
    (upward_read.and upward_past).and upward_past
  refine tries_bind (S := schema) (fun _ => stable_spared) (tries_post (S := schema)
    (tries_field hup) (fun _ _ _ h => h) fun _ => hspared fun _ h => h.1.1) fun periodEnd => ?_
  refine tries_and (S := schema) fun hperiod => ?_
  -- the three branches (upgrade, downgrade, same rank) are those of `change?`
  have hdecided : ∀ change, (if isUpgrade currentPlan newPlan then
        .activate newPlan.planId periodEnd event.subscriptionId
      else if isDowngrade currentPlan newPlan then .schedule newPlan.planId
      else .renew periodEnd event.subscriptionId) = change →
      ∀ h, (Read x customerId account last h ∧ Priced x event newPlan h) ∧
        Planned x account.tariffPlanId currentPlan h →
          Decided x event account.tariffPlanId change h := by
    rintro change rfl h ⟨⟨-, hp, hprefix, hprice⟩, hc, hprefix', hplan⟩
    refine ⟨hp, hc, hprefix, hprefix', ?_⟩
    simp [PaddleWebhookEvent.change?, htype, hprice, hperiod, hplan]
  by_cases hupgrade : isUpgrade currentPlan newPlan = true
  · simp only [hupgrade]
    exact tries_updateAccount hup (fun _ h => h.1.1) (hdecided _ (if_pos hupgrade))
  by_cases hdowngrade : isDowngrade currentPlan newPlan = true
  · simp only [hupgrade, hdowngrade]
    exact tries_updateAccount hup (fun _ h => h.1.1)
      (hdecided _ ((if_neg hupgrade).trans (if_pos hdowngrade)))
  · simp only [hupgrade, hdowngrade]
    exact tries_updateAccount hup (fun _ h => h.1.1)
      (hdecided _ ((if_neg hupgrade).trans (if_neg hdowngrade)))

/-- **`apply_event`.** -/
theorem tries_applyEvent :
    x.Tries p (Claimed p now (Read x customerId account last) event hash accountId row opening [])
      (applyEvent account event)
      (fun _ => Applied x p now event hash customerId accountId row opening account last)
      fun _ => Spared x p now event hash customerId accountId row opening account last := by
  unfold applyEvent
  -- one branch per handled type; `process_paddle_webhook` has filtered the others out before
  cases htype : event.handledEventType with
  | none => exact tries_throw (S := schema) (stable_claimed upward_read) fun l g h => Or.inl h
  | some type =>
    cases type with
    | subscriptionCreated => exact tries_subscriptionCreated htype
    | subscriptionUpdated => exact tries_subscriptionUpdated htype
    | subscriptionPastDue =>
      refine tries_updateAccount upward_read (fun _ h => h) fun h _ => ?_
      refine ⟨h, h, List.prefix_refl _, List.prefix_refl _, ?_⟩
      simp [PaddleWebhookEvent.change?, htype]
    | subscriptionCanceled =>
      refine tries_bind (S := schema) (fun _ => stable_spared) (tries_field upward_read)
        fun periodEnd => tries_and (S := schema) fun hperiod => ?_
      refine tries_updateAccount upward_read (fun _ h => h) fun h _ => ?_
      refine ⟨h, h, List.prefix_refl _, List.prefix_refl _, ?_⟩
      simp [PaddleWebhookEvent.change?, htype, hperiod]

end Applying

end EvidentLedger.Paddle
