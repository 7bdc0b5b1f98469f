import EvidentLedger.Paddle.Delivery

/-!
# Deliveries and the other requests of billing in any interleaving

The contracts of the requests, whatever the others do between their statements: what a request commits
is one of the commits of `Commit`, and what its reply says about the history.

* `OutcomeOk`: a delivery that answers `processed` or `waiting_for_account_link` has committed an event
  with this status; one that answers `idempotent` or `ignored` has committed nothing.
* A delivery that ends in an error has not written to an account (`Harmless`).
* **`paddle_reach`**: in every state reached by any number of requests, the history is one of commits,
  and every reply given so far meets its contract.
-/

namespace EvidentLedger.Paddle

open Lib.Interleave Lib.Transaction
open Ledger (AccountRow SubscriptionStatus nextPlanId lazyTransition)

variable {x : Setting} {p : Nat} {now : Int} {ks : List Key} {F : Tables → Prop}
  {Φ : History schema → Prop} {log : List Write} {ε α : Type}

/-! ## Contracts -/

/-- A single commit, with these writes. -/
def Committed (p : Nat) (good : List Write → Prop) (h : History schema) : Prop :=
  ∃ h' log, good log ∧ writesOf p h = log ∧ h' ++ [(p, log)] <+: h

/-- What an answer says. -/
def OutcomeOk (p : Nat) (event : PaddleWebhookEvent) : WebhookOutcome → History schema → Prop
  | .processed => Committed p (Settles event .processed)
  | .waitingForAccountLink => Committed p (Settles event .waitingForAccountLink)
  | .idempotent => fun h => writesOf p h = []
  | .ignored => fun h => writesOf p h = [] ∧ event.handledEventType = none

/-- Nothing is written to an account. -/
def Harmless (p : Nat) (g : Shared schema) : Prop := Spares (writesOf p g.history)

/-- A request that has written nothing has written to no account. -/
theorem Fresh.harmless {g : Shared schema} (h : Fresh p g) : Harmless p g := by
  unfold Harmless
  rw [show writesOf p g.history = [] from h]
  exact fun w hw => absurd hw (by simp)

theorem steady_harmless : Steady x.Inv p (Harmless p) := by
  intro g g' h _ hr _
  unfold Harmless
  rw [hr.own]
  exact h

/-- A commit is not taken back. -/
theorem steady_committed {good : List Write → Prop} :
    Steady x.Inv p fun g => Committed p good g.history := by
  rintro g g' ⟨h', log, hgood, hlog, hp⟩ - hr -
  exact ⟨h', log, hgood, hr.own.trans hlog, hp.trans hr.history⟩

/-- What an answer says stays true: no request writes in another's name. -/
theorem steady_outcome {event : PaddleWebhookEvent} (outcome : WebhookOutcome) :
    Steady x.Inv p fun g => OutcomeOk p event outcome g.history := by
  cases outcome with
  | processed | waitingForAccountLink => exact steady_committed
  | idempotent => exact steady_fresh
  | ignored => exact steady_and steady_fresh steady_const

/-! ## Commits and rollbacks

`Done` is what a delivery has prepared when it is about to commit; `good` is what the commit is known to
contain (`Settles`, or no write to an account). -/

section Delivering

variable {body : List UInt8} {event : PaddleWebhookEvent} {good : List Write → Prop}
  {customerId : String} {id : Uuid} {accountId : Option Uuid}

/-- The delivery that request `p` is. -/
structure Delivery (x : Setting) (p : Nat) (body : List UInt8) (event : PaddleWebhookEvent) :
    Prop where
  request : x.requests p = .webhook body
  parsed : x.state.parse body = some event
  handled : event.handledEventType.isSome = true

/-- A delivery that commits has at least claimed its row. -/
theorem delivers_ne_nil {hash : String} {h : History schema}
    (hd : Delivers x p event hash h log) : log ≠ [] := by
  cases hd
  simp

/-- What the answer to the `COMMIT` of a delivery tells. -/
def CommitTells (p : Nat) (good : List Write → Prop) : Except DbError Unit → Shared schema → Prop
  | .ok _, g => Committed p good g.history
  | .error _, g => Fresh p g

/-- **The commit of a delivery.** -/
theorem triple_commitDone (hreq : Delivery x p body event) :
    x.Triple p (Done x p now event (payloadHash x.state body) good) (Prog.call Call.commit)
      fun r => Outside (CommitTells p good r) := by
  rintro l g ⟨ks, F, Φ, log, ⟨hF, hΦ, hgood, hd⟩, h⟩ hi
  refine triple_amid_commit (S := schema) (Q := CommitTells p good) hF hΦ.steady (fun r => ?_)
    (fun g hfresh hf hp hi => ?_) (fun g hfresh _ => hfresh) l g h hi
  · cases r with
    | ok _ => exact steady_committed
    | error _ => exact steady_fresh
  · rw [hi.replayed] at hf
    have hdelivers := hd _ hf hp
    have hne := delivers_ne_nil hdelivers
    refine ⟨hi.record fun _ => .webhook hreq.request hreq.parsed hreq.handled hfresh hdelivers,
      g.history, log, hgood, ?_, ?_⟩
    · rw [release_history, install_history, writesOf_record, hfresh, if_pos rfl, List.nil_append]
    · rw [release_history, install_history, record, if_neg (by simpa using hne)]

/-- The same commit, with its error handled by `?`: a failed `COMMIT` has changed nothing. -/
theorem spec_commitDone (hreq : Delivery x p body event) :
    x.Spec p (Done x p now event (payloadHash x.state body) good) (commitTx databaseError)
      (fun _ => Outside fun g => Committed p good g.history) fun _ => Fresh p := by
  refine spec_attempt (S := schema) (fun _ => stable_outside steady_committed)
    (fun _ => steady_fresh) (triple_post (triple_commitDone hreq) fun r l g h => ?_)
  cases r with
  | ok _ => exact h
  | error _ => exact h

/-- `tx.commit().await.ok()` after `mark_failed`. -/
theorem spec_commitFailed (hreq : Delivery x p body event) :
    x.Spec p (MarkedFailed x p now event (payloadHash x.state body)) (ignore .commit : Process Unit)
      (fun _ => Outside (Harmless p)) fun _ => Harmless p := by
  refine spec_bind (S := schema) (M := fun _ => Outside (Harmless p)) (fun _ => steady_harmless)
    (spec_lift (S := schema) (fun _ => stable_outside steady_harmless) ?_)
      fun _ => spec_pure (S := schema) (stable_outside steady_harmless) fun _ _ h => h
  -- the row was marked, or `mark_failed` itself has failed and the transaction is aborted: then
  -- the `COMMIT` is a rollback
  rintro l g (h | h) hi
  · refine (triple_commitDone hreq l g h hi).mono fun r l g h => ?_
    cases r with
    | ok _ =>
      obtain ⟨h', log, ⟨-, hspares⟩, hlog, -⟩ := h
      change Spares (writesOf p g.history)
      rw [hlog]
      exact hspares
    | error _ => exact Fresh.harmless h
  · refine (@triple_broken_commit schema x.Inv _ _ _ x.admits x.ok
      steady_fresh steady_fresh (fun g h => h) l g h hi).mono fun r l g h => Fresh.harmless h

/-- **A rollback** of a transaction that has committed nothing. -/
theorem spec_rolledBack {Pre : Local schema → Shared schema → Prop} (hst : x.Holds p Pre)
    (h : ∀ l g, Pre l g → Fresh p g) :
    x.Spec p Pre (rollbackTx : Process Unit) (fun _ => Before p fun _ => True) fun _ => Fresh p :=
  spec_lift (S := schema) (fun _ => stable_before upward_const)
    (triple_rollback (S := schema) hst (steady_and steady_fresh steady_const)
      fun l g hp _ => ⟨h l g hp, trivial⟩)

/-! ## Deliveries -/

/-- `resolve_lost_processing_race`. -/
theorem spec_resolveLostProcessingRace {e : String} :
    x.Spec p (Before p fun _ => True) (resolveLostProcessingRace e)
      (fun outcome => Outside fun g => OutcomeOk p event outcome g.history) fun _ => Harmless p := by
  refine spec_bind (S := schema) (fun _ => steady_harmless) (spec_post (S := schema)
    (spec_findByPaddleEventId upward_const) (fun _ _ _ h => h) fun _ _ h => Fresh.harmless h)
      fun found => ?_
  have hst : x.Holds p (Before p fun h => True ∧ ∀ row, found = some row → Stored x e row h) :=
    stable_before (upward_const.and fun h h' hp hs row hrow => upward_stored h h' hp (hs row hrow))
  cases found with
  | none => exact spec_throw (S := schema) hst fun _ _ h => Fresh.harmless h.1
  | some row =>
    -- processed or waiting: the other delivery has come first, and this one is idempotent
    by_cases hs : row.status = .processed ∨ row.status = .waitingForAccountLink
    · simp only [if_pos hs]
      exact spec_pure (S := schema) hst fun _ _ h => h.1
    · simp only [if_neg hs]
      exact spec_throw (S := schema) hst fun _ _ h => Fresh.harmless h.1

/-- An error before the first write is harmless. -/
theorem harmless_of_fresh {Pre : Local schema → Shared schema → Prop}
    {Post : α → Local schema → Shared schema → Prop} {prog : Program schema ε α}
    (h : x.Spec p Pre prog Post fun _ => Fresh p) :
    x.Spec p Pre prog Post fun _ => Harmless p :=
  spec_post (S := schema) h (fun _ _ _ hp => hp) fun _ _ he => Fresh.harmless he

/-- A linked event, from `mark_processing` on. -/
theorem spec_applyClaimed {account : Account} (hreq : Delivery x p body event)
    (hcustomer : event.customerId = some customerId) :
    x.Spec p (Claimable x p now (Known x customerId account) event (payloadHash x.state body)
        (some account.accountId) id) (applyClaimed account event id)
      (fun outcome => Outside fun g => OutcomeOk p event outcome g.history) fun _ => Harmless p := by
  refine spec_bind (S := schema) (fun _ => steady_harmless) (harmless_of_fresh (spec_body
    stable_appliedInTx (spec_applyInTx hcustomer))) fun r => ?_
  -- `none`: another delivery has claimed the row, and this one looks at what has become of it
  cases r with
  | none =>
    exact spec_bind (S := schema) (fun _ => steady_harmless) (harmless_of_fresh (spec_rolledBack
      (stable_outside steady_fresh) fun _ _ h => h)) fun _ => spec_resolveLostProcessingRace
  | some r =>
    cases r with
    | ok u =>
      exact spec_bind (S := schema) (fun _ => steady_harmless) (harmless_of_fresh
        (spec_commitDone hreq)) fun _ => spec_pure (S := schema) (stable_outside steady_committed)
          fun _ _ h => h
    | error e =>
      exact spec_bind (S := schema) (fun _ => steady_harmless) (spec_commitFailed hreq) fun _ =>
        spec_throw (S := schema) (stable_outside steady_harmless) fun _ _ h => h

/-- An unlinked one. -/
theorem spec_waitClaimed (hΦ : Upward Φ) (hreq : Delivery x p body event)
    (hcustomer : event.customerId = some customerId) :
    x.Spec p (Claimable x p now Φ event (payloadHash x.state body) none id)
      (waitClaimed event customerId id)
      (fun outcome => Outside fun g => OutcomeOk p event outcome g.history) fun _ => Harmless p := by
  refine spec_bind (S := schema) (fun _ => steady_harmless) (harmless_of_fresh (spec_body
    stable_waitsInTx (spec_waitInTx hΦ hcustomer))) fun b => ?_
  cases b with
  | true =>
    exact spec_bind (S := schema) (fun _ => steady_harmless) (harmless_of_fresh
      (spec_commitDone hreq)) fun _ => spec_pure (S := schema) (stable_outside steady_committed)
        fun _ _ h => h
  | false =>
    exact spec_bind (S := schema) (fun _ => steady_harmless) (harmless_of_fresh (spec_rolledBack
      (stable_outside steady_fresh) fun _ _ h => h)) fun _ => spec_resolveLostProcessingRace

/-- A field that the event must have, before the transaction. -/
theorem spec_fieldBefore {β : Type} {value : Option β} {name : String} (hΦ : Upward Φ) :
    x.Spec p (Before p Φ) (field value name) (fun a l g => value = some a ∧ Before p Φ l g)
      fun _ => Fresh p := by
  cases value with
  | none => exact spec_throw (S := schema) (stable_before hΦ) fun _ _ h => h.1
  | some a => exact spec_pure (S := schema) (stable_before hΦ) fun _ _ h => ⟨rfl, h⟩

/-- `reprocess_existing_webhook`. -/
theorem spec_reprocessExistingWebhook {existing : WebhookEventRow} (hreq : Delivery x p body event)
    (hhash : existing.payloadHash = payloadHash x.state body) :
    x.Spec p (Before p (Stored x event.eventId existing)) (reprocessExistingWebhook event existing)
      (fun outcome => Outside fun g => OutcomeOk p event outcome g.history) fun _ => Harmless p := by
  refine spec_bind (S := schema) (fun _ => steady_harmless) (harmless_of_fresh
    (spec_fieldBefore upward_stored)) fun customerId => spec_and (S := schema) fun hcustomer => ?_
  refine spec_bind (S := schema) (fun _ => steady_harmless) (harmless_of_fresh
    (spec_resolveAccountByPaddleCustomer upward_stored)) fun found => ?_
  cases found with
  | some account =>
    refine spec_pre (S := schema) (P := Before p fun h => Known x customerId account h ∧
      Stored x event.eventId existing h) (fun l g h _ => ⟨h.1, h.2.2 account rfl, h.2.1⟩) ?_
    refine spec_bind (S := schema) (fun _ => steady_harmless) (harmless_of_fresh
      (spec_begun (upward_known.and upward_stored))) fun _ => spec_exists (S := schema) fun now => ?_
    exact spec_pre (S := schema) (fun l g h _ => Or.inl ⟨existing, ⟨rfl, hhash⟩, h⟩)
      (spec_applyClaimed hreq hcustomer)
  | none =>
    -- still without an account: it waits once more
    refine spec_pre (S := schema) (P := Before p fun h => True ∧ Stored x event.eventId existing h)
      (fun l g h _ => ⟨h.1, trivial, h.2.1⟩) ?_
    refine spec_bind (S := schema) (fun _ => steady_harmless) (harmless_of_fresh
      (spec_begun (upward_const.and upward_stored))) fun _ => spec_exists (S := schema) fun now => ?_
    exact spec_pre (S := schema) (fun l g h _ => Or.inl ⟨existing, ⟨rfl, hhash⟩, h⟩)
      (spec_waitClaimed upward_const hreq hcustomer)

/-- `match classify_existing_event(…)?` -/
theorem spec_classified {existing : WebhookEventRow} (hreq : Delivery x p body event) :
    x.Spec p (Before p (Stored x event.eventId existing))
      (classified event (payloadHash x.state body) existing)
      (fun outcome => Outside fun g => OutcomeOk p event outcome g.history) fun _ => Harmless p := by
  have hst : x.Holds p (Before p (Stored x event.eventId existing)) := stable_before upward_stored
  unfold classified classifyExistingEvent
  by_cases hhash : existing.payloadHash = payloadHash x.state body
  · rw [if_neg (by simpa using hhash)]
    -- the arms of `classify_existing_event`
    cases existing.status with
    | processed | waitingForAccountLink => exact spec_pure (S := schema) hst fun _ _ h => h.1
    | failed | received => exact spec_reprocessExistingWebhook hreq hhash
    | processing => exact spec_throw (S := schema) hst fun _ _ h => Fresh.harmless h.1
  · rw [if_pos (by simpa using hhash)]
    exact spec_throw (S := schema) hst fun _ _ h => Fresh.harmless h.1

/-- **The insert**, in the new transaction. -/
theorem triple_insertReceived {hash : String} (hΦ : Upward Φ) :
    x.Triple p (Under p now [] (fun _ => True) Φ []) (insertReceived event hash accountId)
      fun r l g => match r with
        | .ok id => Claimable x p now Φ event hash accountId id l g
        | .error _ => Fresh p g := by
  refine triple_post (triple_amid (S := schema)
    (s := Sql.insertReceived event.eventId hash accountId event.occurredAt) (ι := Unit)
    (K := fun id _ => rowKeys event id)
    (G := fun id _ db => Tables.webhookById? db id = none ∧ Tables.webhook? db event.eventId = none)
    (A := fun _ _ g => Φ g.history)
    (W := fun id _ => [.insertWebhook ⟨id, event.eventId, hash, accountId, event.occurredAt, .received⟩])
    (X := fun _ => True) rfl framed_const (fun _ _ => framed_free) hΦ.steady (fun _ _ => hΦ.steady)
    ?_ fun _ _ _ _ _ _ _ => trivial) fun r l g hr => ?_
  · intro g c id taken ws _ hp _ _ he
    have hcovered := covered_effect (Sql.insertReceived event.eventId hash accountId event.occurredAt)
      (g.waits p) c now _ _ _ _ he
    have he : (Sql.insertReceived event.eventId hash accountId event.occurredAt).effect (g.waits p) c
      now g.db = some (.ok (id, taken, ws)) := he
    obtain ⟨hid, hevent, rfl, rfl⟩ := insertReceived_ok he
    exact ⟨(), rfl, ⟨hid, hevent⟩, hp, fun k hk => Or.inr hk, fun w hw k hk =>
      Or.inr (hcovered w hw k hk)⟩
  · cases r with
    | ok id =>
      obtain ⟨-, h⟩ := hr
      exact Or.inr h
    | error e =>
      rcases hr.2 with ⟨-, h⟩ | h
      · exact h.fresh
      · exact h.2.1

/-- **A new row**, or the row that was there first. -/
theorem spec_storeReceived {next : Uuid → Process WebhookOutcome} (hΦ : Upward Φ)
    (hreq : Delivery x p body event)
    (hnext : ∀ now id, x.Spec p (Claimable x p now Φ event (payloadHash x.state body) accountId id)
      (next id) (fun outcome => Outside fun g => OutcomeOk p event outcome g.history)
      fun _ => Harmless p) :
    x.Spec p (Before p Φ) (storeReceived event (payloadHash x.state body) accountId next)
      (fun outcome => Outside fun g => OutcomeOk p event outcome g.history) fun _ => Harmless p := by
  refine spec_bind (S := schema) (fun _ => steady_harmless) (harmless_of_fresh (spec_begun hΦ))
    fun _ => spec_exists (S := schema) fun now => ?_
  refine spec_bind (S := schema) (fun _ => steady_harmless) (spec_lift (S := schema) (fun r => ?_)
    (triple_insertReceived hΦ)) fun r => ?_
  · cases r with
    | ok id => exact stable_claimable hΦ
    | error e => exact stable_outside steady_fresh
  cases r with
  | ok id => exact hnext now id
  | error e =>
    refine spec_bind (S := schema) (fun _ => steady_harmless) (harmless_of_fresh (spec_rolledBack
      (stable_outside steady_fresh) fun _ _ h => h)) fun _ => ?_
    -- a unique violation: another delivery of this event was first, so its row decides
    by_cases hu : isUniqueViolation e = true
    · simp only [hu]
      refine spec_bind (S := schema) (fun _ => steady_harmless) (harmless_of_fresh
        (spec_findByPaddleEventId upward_const)) fun found => ?_
      cases found with
      | some existing =>
        exact spec_pre (S := schema) (fun l g h _ => ⟨h.1, h.2.2 existing rfl⟩)
          (spec_classified hreq)
      | none =>
        exact spec_throw (S := schema) (stable_before (upward_const.and fun _ _ _ _ _ h =>
          absurd h (by simp))) fun _ _ h => Fresh.harmless h.1
    · simp only [hu]
      exact spec_throw (S := schema) (stable_before upward_const) fun _ _ h => Fresh.harmless h.1

end Delivering

/-- **`process_paddle_webhook`.** -/
theorem spec_processPaddleWebhook {body : List UInt8} {event : PaddleWebhookEvent}
    (hreq : x.requests p = .webhook body) (hparse : x.state.parse body = some event) :
    x.Spec p (Before p fun _ => True) (processPaddleWebhook x.state event body)
      (fun outcome => Outside fun g => OutcomeOk p event outcome g.history) fun _ => Harmless p := by
  unfold processPaddleWebhook
  by_cases hnone : event.handledEventType.isNone = true
  · rw [if_pos hnone]
    exact spec_pure (S := schema) (stable_before upward_const) fun _ _ h =>
      ⟨h.1, Option.isNone_iff_eq_none.mp hnone⟩
  -- from here on the event is of a handled type
  rw [if_neg hnone]
  have hdelivery : Delivery x p body event := ⟨hreq, hparse,
    by simpa [Option.isSome_iff_ne_none] using hnone⟩
  refine spec_bind (S := schema) (fun _ => steady_harmless) (harmless_of_fresh
    (spec_findByPaddleEventId upward_const)) fun found => ?_
  cases found with
  | some existing =>
    exact spec_pre (S := schema) (fun l g h _ => ⟨h.1, h.2.2 existing rfl⟩)
      (spec_classified hdelivery)
  | none =>
    refine spec_pre (S := schema) (P := Before p fun _ => True) (fun l g h _ => ⟨h.1, trivial⟩) ?_
    refine spec_bind (S := schema) (fun _ => steady_harmless) (harmless_of_fresh
      (spec_fieldBefore upward_const)) fun customerId => spec_and (S := schema) fun hcustomer => ?_
    refine spec_bind (S := schema) (fun _ => steady_harmless) (harmless_of_fresh
      (spec_resolveAccountByPaddleCustomer upward_const)) fun found => ?_
    cases found with
    | some account =>
      exact spec_pre (S := schema) (fun l g h _ => ⟨h.1, h.2.2 account rfl⟩)
        (spec_storeReceived upward_known hdelivery fun now id => spec_applyClaimed hdelivery hcustomer)
    | none =>
      exact spec_pre (S := schema) (fun l g h _ => ⟨h.1, trivial⟩)
        (spec_storeReceived upward_const hdelivery fun now id =>
          spec_waitClaimed upward_const hdelivery hcustomer)

/-! ## The other requests

`link_paddle_customer_to_account` runs on the pool, each statement a transaction of its own, and
`ensure_paddle_customer` in one transaction. Both end with the account bound to the customer id, or with
an error. The two updates of billing are single statements. -/

section Others

variable {accountId : Uuid} {customerId email planName priceId : String}

/-- The customer id of an account is under the account's key. -/
theorem customer?_same {db db' : Tables} (h : Key.same (.account accountId) db db') :
    db'.customer? accountId = db.customer? accountId := by
  unfold Tables.customer?
  rw [← List.head?_filter, ← List.head?_filter, h.2.1]

/-- The account of a customer id is under the key of the id. -/
theorem owner?_same {db db' : Tables} (h : Key.same (.customer customerId) db db') :
    db'.owner? customerId = db.owner? customerId := by
  unfold Tables.owner?
  rw [← List.head?_filter, ← List.head?_filter, h]

/-- The account has the customer id. -/
def Tables.Binds (db : Tables) (accountId : Uuid) (customerId : String) : Prop :=
  (customerId, accountId) ∈ db.customers

theorem binds_of_owner? {db : Tables} (h : db.owner? customerId = some accountId) :
    db.Binds accountId customerId := by
  obtain ⟨pair, hfind, rfl⟩ := Option.map_eq_some_iff.mp h
  obtain rfl : pair.1 = customerId := by simpa using List.find?_some hfind
  exact List.mem_of_find?_eq_some hfind

theorem binds_of_customer? {db : Tables} (h : db.customer? accountId = some customerId) :
    db.Binds accountId customerId := by
  obtain ⟨pair, hfind, rfl⟩ := Option.map_eq_some_iff.mp h
  obtain rfl : pair.2 = accountId := by simpa using List.find?_some hfind
  exact List.mem_of_find?_eq_some hfind

/-- No write takes a customer id away. -/
theorem binds_apply (w : Write) {db : Tables} (h : db.Binds accountId customerId) :
    (w.apply db).Binds accountId customerId := by
  cases w with
  | linkCustomer => exact List.mem_append_left _ h
  | insertWebhook | setStatus | insertPendingLink | setBilling | setSubscription | setPrice => exact h

/-- Nor do any writes of a transaction. -/
theorem binds_replay (log : List Write) {db : Tables} (h : db.Binds accountId customerId) :
    (replay (S := schema) log db).Binds accountId customerId := by
  induction log generalizing db with
  | nil => exact h
  | cons w log ih => exact ih (binds_apply w h)

/-- **A binding is permanent**: it holds in every later state. -/
theorem upward_binds :
    Upward (S := schema) fun h => (tables x.db₀ h).Binds accountId customerId := by
  rintro h h' ⟨rest, rfl⟩ hbinds
  induction rest using List.reverseRecOn with
  | nil => rwa [List.append_nil]
  | append_singleton rest entry ih =>
    obtain ⟨q, log⟩ := entry
    rw [← List.append_assoc, tables_concat]
    exact binds_replay log ih

/-- **A statement on the pool** that may write. -/
theorem spec_pool {f : DbError → ε} {s : Sql} {A : s.Res → History schema → Prop}
    (hs : s.onPool = true) (hA : ∀ a, Upward (A a))
    (hok : ∀ (g : Shared schema) c a ks ws, Fresh p g → x.Inv g.db g.history →
      s.effect (g.waits p) c c.time g.db = some (.ok (a, ks, ws)) →
        (ws ≠ [] → Commit x g.history p ws) ∧ A a (record (S := schema) p ws g.history)) :
    x.Spec p (Outside (Fresh p)) (sql (S := schema) f s) (fun a => Outside fun g => A a g.history)
      fun _ _ => True := by
  refine spec_attempt (S := schema) (fun a => stable_outside (hA a).steady) (fun _ => steady_const)
    (triple_pool (S := schema) (Q := fun a g => A a g.history) hs steady_fresh
      (fun a => (hA a).steady) (fun _ => steady_const) ?_ fun _ _ _ _ _ => trivial)
  intro g c a ks ws hfresh hi _ he
  obtain ⟨hcommit, ha⟩ := hok g c a ks ws hfresh hi he
  exact ⟨hi.record hcommit, ha⟩

/-- One that only reads. -/
theorem spec_poolQuery {f : DbError → ε} {s : Sql} {P₀ : Shared schema → Prop}
    {A : s.Res → History schema → Prop} (hs : s.onPool = true) (hP : Steady x.Inv p P₀)
    (hA : ∀ a, Upward (A a))
    (hok : ∀ (g : Shared schema) waits c now a ks ws, x.Inv g.db g.history →
      s.effect waits c now g.db = some (.ok (a, ks, ws)) → ws = [] ∧ A a g.history) :
    x.Spec p (Outside P₀) (sql (S := schema) f s) (fun a => Outside fun g => A a g.history ∧ P₀ g)
      fun _ _ => True := by
  have hst : ∀ a, Steady x.Inv p fun g => A a g.history ∧ P₀ g :=
    fun a => steady_and (hA a).steady hP
  refine spec_attempt (S := schema) (fun a => stable_outside (hst a)) (fun _ => steady_const)
    (triple_poolRead (S := schema) (Q := fun a => Outside fun g => A a g.history ∧ P₀ g) hs
      (stable_outside hP) (fun a => stable_outside (hst a)) (fun _ => steady_const) ?_
      fun _ _ _ _ _ _ => trivial)
  intro l g c a ks ws hp hi _ he
  obtain ⟨hws, ha⟩ := hok g (g.waits p) c c.time a ks ws hi he
  exact ⟨hws, ha, hp⟩

/-- What the answer of `SELECT account_id … WHERE paddle_customer_id = $1` tells. -/
def OwnerFound (x : Setting) (accountId : Uuid) (customerId : String) (owner : Option Uuid)
    (h : History schema) : Prop :=
  owner = some accountId → (tables x.db₀ h).Binds accountId customerId

/-- And that of `SELECT paddle_customer_id … WHERE account_id = $1`. -/
def CustomerFound (x : Setting) (accountId : Uuid) (customerId : String) (current : Option String)
    (h : History schema) : Prop :=
  current = some customerId → (tables x.db₀ h).Binds accountId customerId

theorem upward_ownerFound (owner : Option Uuid) :
    Upward (OwnerFound x accountId customerId owner) :=
  fun h h' hp hf ho => upward_binds h h' hp (hf ho)

theorem upward_customerFound (current : Option String) :
    Upward (CustomerFound x accountId customerId current) :=
  fun h h' hp hf hc => upward_binds h h' hp (hf hc)

/-- Who is found as the owner is bound. -/
theorem selectOwner_found {pool : Bool} {db : Tables} {waits : Key → Bool} {c : Choice}
    {owner : Option Uuid} {ws : List Write} {h : History schema} (hi : x.Inv db h)
    (he : (Sql.selectOwner pool customerId).effect waits c now db = some (.ok (owner, ks, ws))) :
    ws = [] ∧ OwnerFound x accountId customerId owner h := by
  obtain ⟨rfl, -, rfl⟩ := answers_ok.mp he
  refine ⟨rfl, fun ho => ?_⟩
  rw [hi.replayed] at ho
  exact binds_of_owner? ho

/-- The customer id that is found is bound. -/
theorem selectCustomer_found {pool : Bool} {db : Tables} {waits : Key → Bool} {c : Choice}
    {current : Option String} {ws : List Write} {h : History schema} (hi : x.Inv db h)
    (he : (Sql.selectCustomer pool accountId).effect waits c now db =
      some (.ok (current, ks, ws))) :
    ws = [] ∧ CustomerFound x accountId customerId current h := by
  obtain ⟨rfl, -, rfl⟩ := answers_ok.mp he
  refine ⟨rfl, fun hc => ?_⟩
  rw [hi.replayed] at hc
  exact binds_of_customer? hc

/-- `link_paddle_customer_to_account` leaves its account bound when it succeeds. -/
theorem spec_linkPaddleCustomerToAccount (hreq : x.requests p = .link accountId customerId) :
    x.Spec p (Outside (Fresh p)) (linkPaddleCustomerToAccount accountId customerId)
      (fun _ => Outside fun g => (tables x.db₀ g.history).Binds accountId customerId)
      fun _ _ => True := by
  refine spec_bind (S := schema) (fun _ => steady_const) (spec_poolQuery (s := .selectOwner true
    customerId) (A := OwnerFound x accountId customerId) rfl steady_fresh upward_ownerFound
      fun g waits c now a ks ws hi he => selectOwner_found hi he) fun owner => ?_
  have hst : x.Holds p (Outside fun g => OwnerFound x accountId customerId owner g.history ∧
      Fresh p g) := stable_outside (steady_and (upward_ownerFound owner).steady steady_fresh)
  cases owner with
  | some other =>
    -- the customer id has an owner: this account, or the request is refused
    by_cases ho : other = accountId
    · simp only [if_pos ho]
      exact spec_pure (S := schema) hst fun _ _ h => h.1 (congrArg some ho)
    · simp only [if_neg ho]
      exact spec_throw (S := schema) hst fun _ _ _ => trivial
  | none =>
    refine spec_bind (S := schema) (fun _ => steady_const) (spec_pre (S := schema)
      (fun _ _ h _ => h.2) (spec_pool (s := .linkCustomer true customerId accountId)
        (A := fun linked h => linked = true → (tables x.db₀ h).Binds accountId customerId) rfl
        (fun _ h h' hp hf hl => upward_binds h h' hp (hf hl)) ?_)) fun linked => ?_
    · intro g c a ks ws _ hi he
      -- the account had the id already, or neither was linked and the pair is written
      rcases linkCustomer_ok he with ⟨rfl, hb⟩ | ⟨hcustomer, howner, -, -, rfl⟩
      · refine ⟨fun hne => absurd rfl hne, fun ha => ?_⟩
        have hbinds := binds_of_customer? (hb ha)
        rwa [hi.replayed] at hbinds
      · rw [hi.replayed] at hcustomer howner
        refine ⟨fun _ => .link (Or.inl hreq) hcustomer howner, fun _ => ?_⟩
        rw [tables, tablesAfter_record]
        exact List.mem_append_right _ (List.mem_singleton.mpr rfl)
    · have hlinked : x.Holds p (Outside fun g => linked = true →
          (tables x.db₀ g.history).Binds accountId customerId) :=
        stable_outside (Upward.steady (S := schema)
          fun h h' hp (hf : linked = true → _) hl => upward_binds h h' hp (hf hl))
      cases linked with
      | true => exact spec_pure (S := schema) hlinked fun _ _ h => h rfl
      | false =>
        refine spec_bind (S := schema) (fun _ => steady_const) (spec_pre (S := schema)
          (P := Outside fun _ => True) (fun _ _ _ _ => trivial) (spec_poolQuery
            (s := .selectCustomer true accountId) (A := CustomerFound x accountId customerId) rfl
            steady_const upward_customerFound
            fun g waits c now a ks ws hi he => selectCustomer_found hi he)) fun current => ?_
        have hfound : x.Holds p (Outside fun g =>
            CustomerFound x accountId customerId current g.history ∧ True) :=
          stable_outside (steady_and (upward_customerFound current).steady steady_const)
        -- no row was updated: the account is read again to tell why
        by_cases hsame : current = some customerId
        · simp only [if_pos hsame]
          exact spec_pure (S := schema) hfound fun _ _ h => h.1 hsame
        · simp only [if_neg hsame]
          split_ifs
          · exact spec_throw (S := schema) hfound fun _ _ _ => trivial
          · exact spec_throw (S := schema) hfound fun _ _ _ => trivial

variable (x p now accountId customerId) in
/-- The transaction of `ensure_paddle_customer`, before its commit: the account has the customer id, or
gets it. -/
def Ensured (l : Local schema) (g : Shared schema) : Prop :=
  Under p now [] (fun _ => True) (fun h => (tables x.db₀ h).Binds accountId customerId) [] l g ∨
    Under p now [.account accountId, .customer customerId]
      (fun db => db.customer? accountId = none ∧ db.owner? customerId = none) (fun _ => True)
      [.linkCustomer customerId accountId] l g

/-- That neither side is linked stays so while both keys are held. -/
theorem framed_unlinked : Framed (S := schema) [.account accountId, .customer customerId]
    fun db => Tables.customer? db accountId = none ∧ Tables.owner? db customerId = none := by
  intro db db' hs hf
  rw [customer?_same (hs (.account accountId) (by simp)), owner?_same (hs (.customer customerId)
    (by simp))]
  exact hf

/-- What `ensure_paddle_customer` has come to stays, up to its commit. -/
theorem stable_ensured : x.Holds p (Ensured x p now accountId customerId) :=
  stable_or (stable_under framed_const upward_binds)
    (stable_under framed_unlinked upward_const)

/-- A read of `ensure_paddle_customer`. -/
theorem spec_ensureRead {s : Sql} {A : s.Res → History schema → Prop} (hs : s.onPool = false)
    (hA : ∀ a, Upward (A a))
    (hok : ∀ (g : Shared schema) waits c a ks ws, x.Inv g.db g.history →
      s.effect waits c now g.db = some (.ok (a, ks, ws)) → ws = [] ∧ A a g.history) :
    x.Spec p (Under p now [] (fun _ => True) (fun _ => True) []) (sql (S := schema)
        (fun _ => BillingError.internal) s)
      (fun a => Under p now [] (fun _ => True) (A a) []) fun _ => Fresh p :=
  spec_of_shaken (S := schema) (tries_read hs framed_const upward_const hA
    fun g c a taken ws _ _ hi he => hok g (g.waits p) c a taken ws hi he)

/-- Nothing is committed yet. -/
theorem Ensured.fresh {l : Local schema} {g : Shared schema}
    (h : Ensured x p now accountId customerId l g) : Fresh p g :=
  h.elim (fun h => Amid.fresh h) fun h => Amid.fresh h

/-- What an `UPDATE … RETURNING account_id` has done: written the pair (`written`), or found it. -/
def Linking (x : Setting) (accountId : Uuid) (customerId : String) (linked written : Bool)
    (h : History schema) : Prop :=
  if written then linked = true
  else linked = true → (tables x.db₀ h).Binds accountId customerId

/-- What the `UPDATE` has done stays done. -/
theorem upward_linking (linked written : Bool) :
    Upward (Linking x accountId customerId linked written) := by
  cases written with
  | true => exact upward_const
  | false => exact fun h h' hp hf hl => upward_binds h h' hp (hf hl)

/-- `save_paddle_customer_id`. -/
theorem spec_savePaddleCustomerId :
    x.Spec p (Under p now [] (fun _ => True) (fun _ => True) [])
      (savePaddleCustomerId accountId customerId)
      (fun _ => Ensured x p now accountId customerId) fun _ => Fresh p := by
  refine spec_bind (S := schema) (fun _ => steady_fresh) (spec_ensureRead
    (s := .selectOwner false customerId) (A := OwnerFound x accountId customerId) rfl
    upward_ownerFound fun g waits c a ks ws hi he => selectOwner_found hi he) fun owner => ?_
  have hst : x.Holds p (Under p now [] (fun _ => True) (OwnerFound x accountId customerId owner) []) :=
    stable_under framed_const (upward_ownerFound owner)
  cases owner with
  | some other =>
    by_cases ho : other = accountId
    · simp only [if_pos ho]
      exact spec_pure (S := schema) hst fun l g h => Or.inl (amid_mono (S := schema)
        (P := fun g => OwnerFound x accountId customerId (some other) g.history)
        (fun _ hk => hk) (fun _ hf => hf) (fun _ hg => hg (congrArg some ho)) h)
    · simp only [if_neg ho]
      exact spec_throw (S := schema) hst fun _ _ h => h.fresh
  | none =>
    refine spec_bind (S := schema) (fun _ => steady_fresh) (spec_pre (S := schema)
      (P := Under p now [] (fun _ => True) (fun _ => True) [])
      (fun _ _ h _ => amid_mono (S := schema) (fun _ hk => hk) (fun _ hf => hf) (fun _ _ => trivial) h)
      (spec_of_shaken (S := schema) (tries_statement
        (s := .linkCustomer false customerId accountId) (ι := Bool)
        (K := fun _ written => if written then [.account accountId, .customer customerId] else [])
        (G := fun _ written db =>
          written = true → db.customer? accountId = none ∧ db.owner? customerId = none)
        (A := Linking x accountId customerId)
        (W := fun _ written => if written then [.linkCustomer customerId accountId] else [])
        rfl framed_const (fun _ written => ?_) upward_const upward_linking ?_))) fun linked => ?_
    · cases written with
      | false => exact fun _ _ _ _ h => absurd h (by simp)
      | true => exact fun db db' hs hf _ => framed_unlinked db db' hs (hf rfl)
    · intro g c a taken ws _ _ hi _ he
      -- found: nothing is written and nothing locked; written: both keys are held until the commit
      rcases linkCustomer_ok he with ⟨rfl, hb⟩ | ⟨hcustomer, howner, rfl, rfl, rfl⟩
      · refine ⟨false, rfl, fun h => absurd h (by simp), fun ha => ?_, by simp⟩
        have hbinds := binds_of_customer? (hb ha)
        rwa [replay_nil, hi.replayed] at hbinds
      · exact ⟨true, rfl, fun _ => ⟨hcustomer, howner⟩, rfl, fun k hk => Or.inr hk⟩
    · refine spec_exists (S := schema) fun written => ?_
      cases written with
      | true =>
        have hst' : x.Holds p (Under p now [.account accountId, .customer customerId]
            (fun db => true = true → db.customer? accountId = none ∧ db.owner? customerId = none)
            (Linking x accountId customerId linked true) [.linkCustomer customerId accountId]) :=
          stable_under (fun db db' hs hf _ => framed_unlinked db db' hs (hf rfl))
            (upward_linking linked true)
        cases linked with
        | true =>
          exact spec_pure (S := schema) hst' fun l g h => Or.inr (amid_mono (S := schema)
            (fun _ hk => hk) (fun _ hf => hf rfl) (fun _ _ => trivial) h)
        | false => exact fun l g h _ => Bool.noConfusion (show false = true from Amid.also h)
      | false =>
        have hst' : x.Holds p (Under p now []
            (fun db => false = true → db.customer? accountId = none ∧ db.owner? customerId = none)
            (Linking x accountId customerId linked false) []) :=
          stable_under (fun _ _ _ _ h => absurd h (by simp)) (upward_linking linked false)
        cases linked with
        | true =>
          exact spec_pure (S := schema) hst' fun l g h => Or.inl (amid_mono (S := schema)
            (fun _ hk => hk) (fun _ _ => trivial) (fun _ hl => hl rfl) h)
        | false =>
          refine spec_bind (S := schema) (fun _ => steady_fresh) (spec_pre (S := schema)
            (fun l g h _ => amid_mono (S := schema) (fun _ hk => hk) (fun _ _ => trivial)
              (fun _ _ => trivial) h) (spec_ensureRead (s := .selectCustomer false accountId)
                (A := CustomerFound x accountId customerId) rfl upward_customerFound
                fun g waits c a ks ws hi he => selectCustomer_found hi he)) fun current => ?_
          have hfound : x.Holds p (Under p now [] (fun _ => True)
              (CustomerFound x accountId customerId current) []) :=
            stable_under framed_const (upward_customerFound current)
          -- no row was updated: another request may have linked the same pair meanwhile
          by_cases hsame : current = some customerId
          · simp only [if_pos hsame]
            exact spec_pure (S := schema) hfound fun l g h => Or.inl (amid_mono (S := schema)
              (fun _ hk => hk) (fun _ hf => hf) (fun _ hg => hg hsame) h)
          · simp only [if_neg hsame]
            exact spec_throw (S := schema) hfound fun _ _ h => h.fresh

/-- The inside of `ensure_paddle_customer`. -/
theorem spec_ensureInTx :
    x.Spec p (Under p now [] (fun _ => True) (fun _ => True) []) (ensureInTx accountId email)
      (fun customerId => Ensured x p now accountId customerId) fun _ => Fresh p := by
  refine spec_bind (S := schema) (fun _ => steady_fresh) (spec_ensureRead
    (s := .selectAccountForUpdate accountId)
    (A := fun current h => ∀ customerId, current = some (some customerId) →
      (tables x.db₀ h).Binds accountId customerId) rfl
    (fun current h h' hp hf customerId hc => upward_binds h h' hp (hf customerId hc)) ?_)
    fun current => ?_
  · intro g waits c a ks ws hi he
    obtain ⟨hws, ha⟩ := selectAccountForUpdate_ok he
    refine ⟨hws, fun customerId hc => ?_⟩
    rcases ha with ha | ha
    · exact absurd (ha.symm.trans hc) (by simp)
    · have hbinds := binds_of_customer? (Option.some.inj (ha.symm.trans hc))
      rwa [hi.replayed] at hbinds
  · have hst : x.Holds p (Under p now [] (fun _ => True) (fun h => ∀ customerId,
        current = some (some customerId) → (tables x.db₀ h).Binds accountId customerId) []) :=
      stable_under framed_const
        fun h h' hp hf customerId hc => upward_binds h h' hp (hf customerId hc)
    cases current with
    | none => exact spec_throw (S := schema) hst fun _ _ h => h.fresh
    | some customer =>
      -- linked already, or a customer is created at Paddle and saved here
      cases customer with
      | some customerId =>
        exact spec_pure (S := schema) hst fun _ _ h => Or.inl (amid_mono (S := schema)
          (fun _ hk => hk) (fun _ hf => hf) (fun _ hg => hg customerId rfl) h)
      | none =>
        refine spec_pre (S := schema) (P := Under p now [] (fun _ => True) (fun _ => True) [])
          (fun _ _ h _ => amid_mono (S := schema) (fun _ hk => hk) (fun _ hf => hf)
            (fun _ _ => trivial) h) ?_
        have hst : x.Holds p (Under p now [] (fun _ => True) (fun _ => True) []) :=
          stable_under framed_const upward_const
        refine spec_bind (S := schema) (fun _ => steady_fresh) (spec_ask (S := schema) hst
          (fun _ => hst) fun _ _ _ h => h) fun created => ?_
        cases created with
        | error e => exact spec_throw (S := schema) hst fun _ _ h => h.fresh
        | ok customerId =>
          exact spec_bind (S := schema) (fun _ => steady_fresh) spec_savePaddleCustomerId fun _ =>
            spec_pure (S := schema) stable_ensured fun _ _ h => h

/-- The commit of `ensure_paddle_customer`. -/
theorem triple_commitEnsured (hreq : x.requests p = .ensureCustomer accountId email) :
    x.Triple p (Ensured x p now accountId customerId) (Prog.call Call.commit)
      (Returns (fun _ => Outside fun g => (tables x.db₀ g.history).Binds accountId customerId)
        fun _ _ => True) := by
  have hst : ∀ r : Except DbError Unit, Steady x.Inv p fun g =>
      r = .ok () → (tables x.db₀ g.history).Binds accountId customerId := fun r =>
    Upward.steady (S := schema) fun h h' hp (hf : r = .ok () → _) hr => upward_binds h h' hp (hf hr)
  have hcommit : x.Triple p (Ensured x p now accountId customerId) (Prog.call Call.commit)
      fun r => Outside fun g =>
        r = .ok () → (tables x.db₀ g.history).Binds accountId customerId := by
    -- nothing to commit, or the pair
    rintro l g (h | h) hi
    · refine triple_amid_commit (S := schema) (Q := fun r g => r = .ok () →
        (tables x.db₀ g.history).Binds accountId customerId) framed_const upward_binds.steady hst
        ?_ (fun _ _ _ h => absurd h (by simp)) l g h hi
      exact fun g _ _ hbinds hi => ⟨hi, fun _ => hbinds⟩
    · refine triple_amid_commit (S := schema) (Q := fun r g => r = .ok () →
        (tables x.db₀ g.history).Binds accountId customerId) framed_unlinked upward_const.steady hst
        (fun g _ hf _ hi => ⟨hi.record fun _ => ?_, fun _ => ?_⟩) (fun _ _ _ h => absurd h (by simp))
        l g h hi
      · rw [hi.replayed] at hf
        exact .link (Or.inr ⟨email, hreq⟩) hf.1 hf.2
      · have hafter := tablesAfter_record (S := schema) x.db₀ p [.linkCustomer customerId accountId]
          g.history
        refine Eq.subst (motive := fun db => Tables.Binds db accountId customerId) hafter.symm ?_
        exact List.mem_append_right _ (List.mem_singleton.mpr rfl)
  refine triple_post hcommit fun r l g h => ?_
  cases r with
  | ok _ => exact h rfl
  | error _ => exact trivial

/-- `ensure_paddle_customer` leaves its account bound to the id that it returns. -/
theorem spec_ensurePaddleCustomer (hreq : x.requests p = .ensureCustomer accountId email) :
    x.Spec p (Before p fun _ => True) (ensurePaddleCustomer accountId email)
      (fun customerId => Outside fun g => (tables x.db₀ g.history).Binds accountId customerId)
      fun _ _ => True := by
  have htrue : ∀ {β : Type} {Pre : Local schema → Shared schema → Prop}
      {Post : β → Local schema → Shared schema → Prop} {prog : Program schema BillingError β},
      x.Spec p Pre prog Post (fun _ => Fresh p) → x.Spec p Pre prog Post fun _ _ => True :=
    fun h => spec_post (S := schema) h (fun _ _ _ h => h) fun _ _ _ => trivial
  refine spec_bind (S := schema) (fun _ => steady_const) (htrue (spec_begun upward_const))
    fun _ => spec_exists (S := schema) fun now => ?_
  refine spec_bind (S := schema) (fun _ => steady_const) (htrue (spec_body (fun _ => stable_ensured)
    spec_ensureInTx)) fun customerId => ?_
  have hbound : x.Holds p (Outside fun g => (tables x.db₀ g.history).Binds accountId customerId) :=
    stable_outside upward_binds.steady
  exact spec_bind (S := schema) (fun _ => steady_const) (spec_attempt (S := schema) (fun _ => hbound)
    (fun _ => steady_const) (triple_commitEnsured hreq)) fun _ =>
      spec_pure (S := schema) hbound fun _ _ h => h

/-- **One `UPDATE` on the pool.** -/
theorem triple_update {s : Sql} (hs : s.onPool = true)
    (hok : ∀ (g : Shared schema) c a ks ws, Fresh p g → x.Inv g.db g.history → ws ≠ [] →
      s.effect (g.waits p) c c.time g.db = some (.ok (a, ks, ws)) → Commit x g.history p ws) :
    x.Triple p (Outside (Fresh p)) (statement s) fun _ => Outside fun _ => True := by
  refine triple_post (triple_pool (S := schema) (Q := fun _ _ => True) (E := fun _ _ => True) hs
    steady_fresh (fun _ => steady_const) (fun _ => steady_const) (fun g c a ks ws hfresh hi _ he =>
      ⟨hi.record fun hne => hok g c a ks ws hfresh hi hne he, trivial⟩) fun _ _ _ _ _ => trivial)
    fun _ _ _ _ => trivial

end Others

/-! ## All requests -/

/-- **What a reply says** about the history. -/
def ReplyOk (x : Setting) (p : Nat) (h : History schema) : Reply → Prop
  | .webhook result => ∃ body event, x.requests p = .webhook body ∧
      x.state.parse body = some event ∧ match result with
        | .ok outcome => OutcomeOk p event outcome h
        | .error _ => Spares (writesOf p h)
  | .invalidPayload => writesOf p h = []
  | _ => ∀ body, x.requests p ≠ .webhook body

/-- A reply that says nothing. -/
theorem triple_reply {β : Type} {f : β → Reply} {prog : Action β}
    {Pre : Local schema → Shared schema → Prop} {Post : β → Local schema → Shared schema → Prop}
    (h : x.Triple p Pre prog Post) (hf : ∀ r h, ReplyOk x p h (f r)) :
    x.Triple p Pre (f <$> prog) fun reply => Outside fun g => ReplyOk x p g.history reply :=
  triple_bind (triple_post (F := fun _ => Outside fun _ => True) h fun _ _ _ _ => trivial)
    fun r => triple_ret (stable_outside steady_const) fun _ _ _ _ => hf r _

/-- Every request meets its contract. -/
theorem triple_run (x : Setting) (p : Nat) :
    x.Triple p (Outside (Fresh p)) ((x.requests p).run x.state)
      fun reply => Outside fun g => ReplyOk x p g.history reply := by
  have hbefore : ∀ (l : Local schema) g, Outside (Fresh p) l g → Before p (fun _ => True) l g :=
    fun _ _ h => ⟨h, trivial⟩
  -- one case per request; only the reply to a delivery says something
  cases hreq : x.requests p with
  | webhook body =>
    cases hparse : x.state.parse body with
    | none =>
      simp only [Request.run, hparse]
      exact triple_ret (stable_outside steady_fresh) fun _ _ h _ => h
    | some event =>
      simp only [Request.run, hparse]
      refine triple_bind (triple_pre (fun l g h _ => hbefore l g h)
        (spec_processPaddleWebhook hreq hparse)) fun r => ?_
      cases r with
      | ok outcome =>
        exact triple_ret (stable_outside (steady_outcome outcome)) fun _ _ h _ =>
          ⟨body, event, hreq, hparse, h⟩
      | error e =>
        exact triple_ret (stable_outside steady_harmless) fun _ _ h _ =>
          ⟨body, event, hreq, hparse, h⟩
  | link accountId customerId =>
    exact triple_reply (spec_linkPaddleCustomerToAccount hreq) fun _ _ _ h => Request.noConfusion
      (hreq.symm.trans h)
  | ensureCustomer accountId email =>
    exact triple_reply (triple_pre (fun l g h _ => hbefore l g h) (spec_ensurePaddleCustomer hreq))
      fun _ _ _ h => Request.noConfusion (hreq.symm.trans h)
  | lazyTransitions accountId =>
    refine triple_reply (triple_update (s := .applyLazyBillingTransitions accountId) rfl ?_)
      fun _ _ _ h => Request.noConfusion (hreq.symm.trans h)
    intro g c a ks ws _ hi hne he
    obtain ⟨rfl, -⟩ | ⟨row, planId, hrow, hdue, hplan, rfl⟩ := applyLazyBillingTransitions_ok he
    · exact absurd rfl hne
    · rw [hi.replayed] at hrow hplan
      exact .lazy hreq hrow hdue hplan
  | setPrice planName priceId =>
    refine triple_reply (triple_update (s := .updatePrice priceId planName) rfl ?_)
      fun _ _ _ h => Request.noConfusion (hreq.symm.trans h)
    intro g c a ks ws _ hi hne he
    rcases updatePrice_ok he with rfl | rfl
    · exact absurd rfl hne
    · exact .price hreq

/-- The tables with the locks and the history, and the requests under way. -/
abbrev PaddleConfig := Config (Call.Answer (S := schema)) (Shared schema) (Local schema) Reply

/-- Any number of requests over some tables; none has begun. -/
def start (state : State) (requests : Nat → Request) (db : Tables) : PaddleConfig :=
  ⟨⟨db, fun _ => none, []⟩, fun p => ((requests p).run state, none)⟩

/-- The runs of a setting. -/
abbrev Setting.Reach (x : Setting) : PaddleConfig → PaddleConfig → Prop :=
  Lib.Interleave.Reach ((system schema).restrict x.admits) x.ok

/-- The empty history is one of commits. -/
theorem inv_start (x : Setting) :
    (discipline (S := schema) x.Inv).Inv (start x.state x.requests x.db₀).shared :=
  logged_nil

/-- Every request is about to keep its contract. -/
theorem safe_start (x : Setting) : ∀ p, Safe ((system schema).restrict x.admits) x.ok
    (discipline (S := schema) x.Inv) p (fun reply => Outside fun g => ReplyOk x p g.history reply)
    ((start x.state x.requests x.db₀).procs p).1 ((start x.state x.requests x.db₀).procs p).2
    (start x.state x.requests x.db₀).shared :=
  fun p => triple_run x p none ⟨x.db₀, fun _ => none, []⟩ rfl (inv_start x)

/-- **In every state reached the history is one of commits, and every reply given meets its
contract.** -/
theorem paddle_reach {x : Setting} {y : PaddleConfig}
    (h : x.Reach (start x.state x.requests x.db₀) y) :
    x.Inv y.shared.db y.shared.history ∧
      ∀ p reply, (y.procs p).1.result = some reply → ReplyOk x p y.shared.history reply := by
  obtain ⟨hinv, hsafe⟩ := reach_safe (inv_start x) (safe_start x) h
  exact ⟨hinv, fun p reply hr => (hsafe p).result hinv hr⟩

/-- The history only grows. -/
theorem paddle_history {x : Setting} {y z : PaddleConfig}
    (hy : x.Reach (start x.state x.requests x.db₀) y) (hz : x.Reach y z) :
    y.shared.history <+: z.shared.history := by
  obtain ⟨hinv, hsafe⟩ := reach_safe (inv_start x) (safe_start x) hy
  refine reach_relation (fun g g' : Shared schema => g.history <+: g'.history)
    (fun _ => List.prefix_refl _) (fun _ _ _ h h' => h.trans h') ?_ hinv hsafe hz
  exact fun _ _ _ hr => Rely.history hr

/-- Any requests over any tables without events, with no restriction on the runs. -/
def Setting.all (state : State) (requests : Nat → Request) (db₀ : Tables)
    (empty : db₀.webhookEvents = []) : Setting where
  state
  requests
  admits _ _ _ _ := true
  ok _ _ _ := True
  db₀
  initial := webhooksOk_of_empty empty

end EvidentLedger.Paddle
