import EvidentLedger.Paddle.Apply

/-!
# The transaction of a delivery

All its statements up to its commit: the claimed row gets its last status, after the change or without
one. `spec_applyInTx`, `spec_waitInTx`: the log is that of a delivery (`Done`).
-/

namespace EvidentLedger.Paddle

open Lib.Interleave Lib.Transaction
open Ledger (AccountRow SubscriptionStatus nextPlanId lazyTransition)

variable {x : Setting} {p : Nat} {now : Int} {ks : List Key} {F : Tables → Prop}
  {Φ : History schema → Prop} {log : List Write} {ε α : Type}

/-! ## Before the commit -/

/-- An event gets this status. -/
def Settles (event : PaddleWebhookEvent) (status : WebhookStatus) (log : List Write) : Prop :=
  ∃ id, Write.setStatus event.eventId id status ∈ log

/-- The writes to `accounts`. -/
def Write.onAccounts : Write → Bool
  | setBilling _ _ | setSubscription _ _ _ | linkCustomer _ _ => true
  | _ => false

/-- No write to `accounts`. -/
def Spares (log : List Write) : Prop := ∀ w ∈ log, w.onAccounts = false

section Finishing

variable {event : PaddleWebhookEvent} {hash customerId : String} {accountId : Option Uuid}
  {id : Uuid} {row : WebhookEventRow} {opening middle : List Write} {account : Account}
  {last : Option Int} {status : WebhookStatus} {good : List Write → Prop}

variable (x p now event hash) in
/-- The whole transaction of a delivery, before its commit. -/
def Done (good : List Write → Prop) (l : Local schema) (g : Shared schema) : Prop :=
  ∃ (ks : List Key) (F : Tables → Prop) (Φ : History schema → Prop) (log : List Write),
    (Framed (S := schema) ks F ∧ Upward Φ ∧ good log ∧
      ∀ h, F (tables x.db₀ h) → Φ h → Delivers x p event hash h log) ∧ Under p now ks F Φ log l g

/-- What is ready to commit stays ready. -/
theorem stable_done : x.Holds p (Done x p now event hash good) := by
  rintro l g g' ⟨ks, F, Φ, log, ⟨hF, hΦ, hlog, hd⟩, h⟩ hi hr hi'
  exact ⟨ks, F, Φ, log, ⟨hF, hΦ, hlog, hd⟩, stable_under hF hΦ l g g' h hi hr hi'⟩

/-- The writes of a claim, closed by the last status, settle the event. -/
theorem settles_claimed : Settles event status
    (claimedLog event row opening middle ++ [.setStatus event.eventId row.id status]) :=
  ⟨row.id, by simp⟩

/-- A last status is a `finish` of the claimed row. -/
theorem finish_claimed {c : Choice} {waits : Key → Bool} {db : Tables} {u : Unit} {ks : List Key}
    {ws : List Write} (hc : Claims event hash accountId db row opening)
    (hm : ∀ w ∈ middle, w.onWebhooks = false)
    (he : (Sql.finish row.id status).effect waits c now
      (replay (S := schema) (claimedLog event row opening middle) db) = some (.ok (u, ks, ws))) :
    ws = [.setStatus event.eventId row.id status] := by
  have h := finish_ok (claimed_row hc hm) rfl he
  rwa [hc.mem.2.1] at h

/-- **`mark_processed`, `mark_waiting_for_account_link`**: the transaction is whole. -/
theorem spec_finish (hF : Framed (S := schema) ks F)
    (hclaims : ∀ db, F db → Claims event hash accountId db row opening) (hΦ : Upward Φ)
    (hending : ∀ h, F (tables x.db₀ h) → Φ h → Ending x p event h accountId middle status)
    (hm : ∀ w ∈ middle, w.onWebhooks = false) :
    x.Spec p (Under p now ks F Φ (claimedLog event row opening middle))
      (query (.finish row.id status)) (fun _ => Done x p now event hash (Settles event status))
      fun _ => Fresh p := by
  refine spec_post (S := schema) (spec_of_shaken (S := schema) (tries_write (s := .finish row.id status)
    (W := [.setStatus event.eventId row.id status]) rfl hF hΦ fun g c u taken ws hf he =>
      finish_claimed (hclaims _ hf) hm he)) (fun u l g h => ?_) fun _ _ h => h
  refine ⟨ks, F, Φ, _, ⟨hF, hΦ, settles_claimed, fun h hf hp => ?_⟩, h⟩
  exact .mk accountId row opening middle status (hclaims _ hf) (hending h hf hp)

/-- A claim without a change leaves the accounts alone. -/
theorem spares_claimed (hc : ∃ db, Claims event hash accountId db row opening) :
    Spares (claimedLog event row opening [] ++ [.setStatus event.eventId row.id status]) := by
  obtain ⟨db, hc⟩ := hc
  intro w hw
  rcases List.mem_append.mp hw with hw | hw
  · have hon := claims_onWebhooks hc w hw
    cases w with
    | insertWebhook | setStatus => rfl
    | insertPendingLink | setBilling | setSubscription | linkCustomer | setPrice =>
      exact absurd hon (by simp [Write.onWebhooks])
  · rw [List.mem_singleton.mp hw]
    rfl

variable (x p now event hash) in
/-- After a failed application: the event is marked as failed, or the transaction is aborted. -/
def MarkedFailed (l : Local schema) (g : Shared schema) : Prop :=
  Done x p now event hash (fun log => Settles event .failed log ∧ Spares log) l g ∨
    Broken (Fresh p) l g

/-- A row that is marked failed waits for its commit, or the transaction is aborted. -/
theorem stable_markedFailed : x.Holds p (MarkedFailed x p now event hash) :=
  stable_or stable_done (stable_broken steady_fresh)

/-- The row that is claimed is marked as failed. -/
theorem triple_finishFailed (hcustomer : event.customerId = some customerId) :
    x.Triple p (Claimed p now (Read x customerId account last) event hash (some account.accountId) row
        opening [])
      (statement (.finish row.id .failed)) fun _ => MarkedFailed x p now event hash := by
  refine triple_post (triple_amid (S := schema) (s := Sql.finish row.id .failed) (ι := Unit)
    (K := fun _ _ => rowKeys event row.id)
    (G := fun _ _ db => Claims event hash (some account.accountId) db row opening)
    (A := fun _ _ g => Read x customerId account last g.history)
    (W := fun _ _ => [.setStatus event.eventId row.id .failed]) (X := fun e => e ≠ .rowNotFound)
    rfl framed_claims (fun _ _ => framed_claims) upward_read.steady (fun _ _ => upward_read.steady)
    ?_ ?_) fun r l g hr => ?_
  · intro g c u taken ws hc hread hi _ he
    have he : (Sql.finish row.id .failed).effect (g.waits p) c now
      (replay (S := schema) (claimedLog event row opening []) g.db) = some (.ok (u, taken, ws)) := he
    have hws := finish_claimed hc (by simp) he
    exact ⟨(), hws, hc, hread, fun k hk => Or.inl hk, fun w hw k hk =>
      Or.inr (covered_effect (Sql.finish row.id .failed) (g.waits p) c now _ _ _ _ he w hw k hk)⟩
  · rintro g e hc - - - (rfl | ⟨c, he⟩)
    · exact fun h => absurd h (by simp)
    · have hrow := @claimed_row _ _ _ _ _ [] _ hc (by simp)
      have he : (Sql.finish row.id .failed).effect (g.waits p) c now
        (replay (S := schema) (claimedLog event row opening []) g.db) = some (.error e) := he
      simp only [Sql.effect, hrow] at he
      exact absurd he takes_error
  · cases r with
    | ok u =>
      obtain ⟨-, h⟩ := hr
      have hc := h.fact
      refine Or.inl ⟨_, _, _, _, ⟨framed_claims, upward_read, ⟨settles_claimed,
        spares_claimed ⟨_, hc⟩⟩, fun h' hc' hread => ?_⟩, h⟩
      exact .mk _ row opening [] .failed hc' (.failed customerId account last hcustomer hread)
    | error e =>
      rcases hr.2 with ⟨heq, -⟩ | hb
      · exact absurd heq hr.1
      · exact Or.inr ⟨hb.1, hb.2.1⟩

/-- **`mark_failed(…).ok()`.** -/
theorem spec_markFailed (hcustomer : event.customerId = some customerId) :
    x.Spec p (Spared x p now event hash customerId (some account.accountId) row opening account last)
      (markFailed row.id) (fun _ => MarkedFailed x p now event hash) fun _ => Fresh p := by
  refine spec_bind (S := schema) (M := fun _ => MarkedFailed x p now event hash)
    (fun _ => steady_fresh) (spec_lift (S := schema) (fun _ => stable_markedFailed) ?_)
      fun _ => spec_pure (S := schema) stable_markedFailed fun _ _ h => h
  rintro l g (h | h) hi
  · exact triple_finishFailed hcustomer l g h hi
  · have hb : x.Triple p (Broken (Fresh p)) (statement (.finish row.id .failed))
        fun _ => MarkedFailed x p now event hash :=
      triple_post (triple_broken_sql (S := schema) rfl steady_fresh) fun _ _ _ h => Or.inr h.2
    exact hb l g ⟨h.1, h.2.1⟩ hi

variable (x p now event hash customerId row opening account last) in
/-- After `apply_event`, if it is not skipped. -/
def Settled : Except WebhookError Unit → Local schema → Shared schema → Prop
  | .ok _ => fun l g =>
    ((∃ ts, last = some ts ∧ event.occurredAt < ts) ∧ Claimed p now (Read x customerId account last)
      event hash (some account.accountId) row opening [] l g) ∨
    ((∀ ts, last = some ts → ts ≤ event.occurredAt) ∧ Applied x p now event hash customerId
      (some account.accountId) row opening account last l g)
  | .error _ => Spared x p now event hash customerId (some account.accountId) row opening account last

/-- What the change of the event has come to stays. -/
theorem stable_settled (r : Except WebhookError Unit) :
    x.Holds p (Settled x p now event hash customerId row opening account last r) := by
  cases r with
  | ok _ =>
    exact stable_or (stable_and (stable_claimed upward_read)) (stable_and stable_applied)
  | error _ => exact stable_spared

/-- An event is skipped, or applied. -/
theorem spec_applyUnless {skip : Bool}
    (hskip : skip = last.any fun ts => decide (event.occurredAt < ts)) :
    x.Spec p (Claimed p now (Read x customerId account last) event hash (some account.accountId) row
        opening [])
      (applyUnless skip account event)
      (Settled x p now event hash customerId row opening account last) fun _ => Fresh p := by
  cases skip with
  | true =>
    refine spec_pure (S := schema) (stable_claimed upward_read) fun l g h => Or.inl ⟨?_, h⟩
    obtain ⟨ts, hts, hlate⟩ := (Option.any_eq_true _ _).mp hskip.symm
    exact ⟨ts, hts, by simpa using hlate⟩
  | false =>
    refine spec_lift (S := schema) stable_settled (triple_post tries_applyEvent fun r l g h => ?_)
    cases r with
    | ok _ =>
      refine Or.inr ⟨fun ts hts => ?_, h⟩
      rw [hts] at hskip
      simpa using hskip.symm
    | error _ => exact h

/-- **`mark_processed`** closes a change that was made. -/
theorem spec_finishSettled (hcustomer : event.customerId = some customerId) :
    x.Spec p (Settled x p now event hash customerId row opening account last (.ok ()))
      (markProcessed row.id) (fun _ => Done x p now event hash (Settles event .processed))
      fun _ => Fresh p := by
  rintro l g (⟨⟨ts, rfl, hlate⟩, h⟩ | ⟨htimely, change, acc, rest, hrest, h⟩) hi
  · have hspec : x.Spec p (Claimed p now (Read x customerId account (some ts)) event hash
        (some account.accountId) row opening []) (markProcessed row.id)
        (fun _ => Done x p now event hash (Settles event .processed)) fun _ => Fresh p :=
      spec_finish framed_claims (fun _ hc => hc) upward_read
        (fun h' _ hread => .skipped customerId account ts hcustomer hread hlate) (by simp)
    exact hspec l g h hi
  · have hending : ∀ h', (Claims event hash (some account.accountId) (tables x.db₀ h') row opening ∧
        Updated x p account change acc (tables x.db₀ h')) →
        (Read x customerId account last h' ∧ Decided x event account.tariffPlanId change h') →
          Ending x p event h' (some account.accountId)
            (.setBilling account.accountId (change.apply acc.toAccountRow) :: rest) .processed :=
      fun h' hF hΦ => .applied customerId account acc last change rest hcustomer hΦ.1 htimely hΦ.2
        hF.2.1 hF.2.2 hrest
    have hm : ∀ w ∈ Write.setBilling account.accountId (change.apply acc.toAccountRow) :: rest,
        w.onWebhooks = false := by
      intro w hw
      rcases List.mem_cons.mp hw with rfl | hw
      · rfl
      · obtain ⟨old, s, rfl⟩ := hrest w hw
        rfl
    exact spec_finish framed_applied (fun _ hf => hf.1) (upward_read.and upward_decided) hending hm
      l g h hi

variable (x p now event hash) in
/-- The end of `applyInTx`. -/
def AppliedInTx : Option (Except WebhookError Unit) → Local schema → Shared schema → Prop
  | none => Outside (Fresh p)
  | some (.ok _) => Done x p now event hash (Settles event .processed)
  | some (.error _) => MarkedFailed x p now event hash

/-- What the transaction of a linked event has come to stays, up to its end. -/
theorem stable_appliedInTx (r : Option (Except WebhookError Unit)) :
    x.Holds p (AppliedInTx x p now event hash r) := by
  cases r with
  | none => exact stable_outside steady_fresh
  | some r =>
    cases r with
    | ok _ => exact stable_done
    | error _ => exact stable_markedFailed

/-- What follows `mark_processing`, where the row is not to be had. -/
theorem spec_marked {β : Type} {b : Bool} {prog : Process β} {other : β}
    {Post : β → Local schema → Shared schema → Prop} (hΦ : Upward Φ)
    (hother : ∀ l g, Fresh p g → Post other l g)
    (h : ∀ row opening, row.id = id → x.Spec p (Claimed p now Φ event hash accountId row opening [])
      prog Post fun _ => Fresh p) :
    x.Spec p (Marked p now Φ event hash accountId id b) (if b then prog else pure other) Post
      fun _ => Fresh p := by
  cases b with
  | false =>
    exact spec_pure (S := schema) (stable_marked hΦ) fun l g hm => hother l g <|
      hm.elim (fun ⟨_, _, ⟨hb, _⟩, _⟩ => absurd hb (by simp)) And.right
  | true =>
    rintro l g (⟨row, opening, ⟨-, hid⟩, hc⟩ | ⟨hb, -⟩) hi
    · exact h row opening hid l g hc hi
    · exact absurd hb (by simp)

/-- **From `mark_processing` to the commit**, for a linked event. -/
theorem spec_applyInTx (hcustomer : event.customerId = some customerId) :
    x.Spec p (Claimable x p now (Known x customerId account) event hash (some account.accountId) id)
      (applyInTx account event id) (AppliedInTx x p now event hash) fun _ => Fresh p := by
  refine spec_bind (S := schema) (fun _ => steady_fresh) (spec_markProcessing upward_known)
    fun b => spec_marked upward_known (fun _ _ h => h) fun row opening hid => ?_
  subst hid
  refine spec_bind (S := schema) (fun _ => steady_fresh) spec_shouldSkipOutOfOrder fun skip =>
    spec_exists (S := schema) fun last => spec_and (S := schema) fun hskip => ?_
  refine spec_bind (S := schema) (fun _ => steady_fresh) (spec_applyUnless hskip) fun applied => ?_
  cases applied with
  | ok u =>
    exact spec_bind (S := schema) (fun _ => steady_fresh) (spec_finishSettled hcustomer) fun _ =>
      spec_pure (S := schema) stable_done fun _ _ h => h
  | error e =>
    exact spec_bind (S := schema) (fun _ => steady_fresh) (spec_markFailed hcustomer) fun _ =>
      spec_pure (S := schema) stable_markedFailed fun _ _ h => h

variable (x p now event hash) in
/-- The end of `waitInTx`. -/
def WaitsInTx : Bool → Local schema → Shared schema → Prop
  | false => Outside (Fresh p)
  | true => Done x p now event hash (Settles event .waitingForAccountLink)

/-- And that of an unlinked one. -/
theorem stable_waitsInTx (b : Bool) : x.Holds p (WaitsInTx x p now event hash b) := by
  cases b with
  | false => exact stable_outside steady_fresh
  | true => exact stable_done

/-- **The same**, for an unlinked event. -/
theorem spec_waitInTx (hΦ : Upward Φ) (hcustomer : event.customerId = some customerId) :
    x.Spec p (Claimable x p now Φ event hash none id) (waitInTx event customerId id)
      (WaitsInTx x p now event hash) fun _ => Fresh p := by
  refine spec_bind (S := schema) (fun _ => steady_fresh) (spec_markProcessing hΦ)
    fun b => spec_marked hΦ (fun _ _ h => h) fun row opening hid => ?_
  subst hid
  refine spec_bind (S := schema) (fun _ => steady_fresh) (spec_of_shaken (S := schema) (tries_write
    (s := .insertPendingLink customerId (event.customerEmail.getD ""))
    (W := [.insertPendingLink ⟨customerId, event.customerEmail.getD ""⟩]) rfl framed_claims hΦ
    fun g c u taken ws _ he => insertPendingLink_ok he)) fun _ => ?_
  refine spec_bind (S := schema) (M := fun _ => Done x p now event hash
    (Settles event .waitingForAccountLink)) (fun _ => steady_fresh) ?_ fun _ =>
      spec_pure (S := schema) stable_done fun _ _ h => h
  rw [claimedLog_append, List.nil_append]
  exact spec_finish framed_claims (fun _ hc => hc) hΦ (fun _ _ _ => .waiting _ _ hcustomer)
    (by simp [Write.onWebhooks])

end Finishing

end EvidentLedger.Paddle
