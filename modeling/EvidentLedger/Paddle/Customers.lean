import EvidentLedger.Paddle.Once

/-!
# Paddle customers and their accounts

An account is bound to a Paddle customer by `link_paddle_customer_to_account`
(`src/paddle/linking.rs:18-94`), three statements of their own, or by `ensure_paddle_customer`
(`src/service/billing.rs:82-105`), in a transaction that holds the row. Both rely on the conditional
`UPDATE` and on the unique index of `paddle_customer_id`.

* `OneToOne`: what the column and its index say.
* `BindsOk`: what a successful reply says about the account of its request.

## Results

* `oneToOne_commit`: a commit adds a pair of an account without a customer and a customer without an
  account, or none.
* **`customer_binding_permanent`**: in every state reached the binding is one to one, it is still there
  in every later state, and every successful call has left its account bound.
-/

namespace EvidentLedger.Paddle

open Lib.Interleave Lib.Transaction

variable {x : Setting} {p : Nat} {db : Tables} {h : History schema} {log : List Write}
  {accountId : Uuid} {customerId email : String}

/-- An account has one customer id at most, and an id one account. -/
structure OneToOne (db : Tables) : Prop where
  customers : (db.customers.map (·.1)).Nodup
  accounts : (db.customers.map (·.2)).Nodup

theorem mem_of_owner?_none {c : String} (hnone : db.owner? c = none) :
    c ∉ db.customers.map (·.1) := by
  rintro hmem
  obtain ⟨pair, hpair, rfl⟩ := List.mem_map.mp hmem
  have hfind := Option.map_eq_none_iff.mp hnone
  exact absurd (List.find?_eq_none.mp hfind pair hpair) (by simp)

theorem mem_of_customer?_none {a : Uuid} (hnone : db.customer? a = none) :
    a ∉ db.customers.map (·.2) := by
  rintro hmem
  obtain ⟨pair, hpair, rfl⟩ := List.mem_map.mp hmem
  have hfind := Option.map_eq_none_iff.mp hnone
  exact absurd (List.find?_eq_none.mp hfind pair hpair) (by simp)

/-- **The pair of an account is the one that is found.** -/
theorem OneToOne.customer?_eq (hone : OneToOne db) (hbinds : db.Binds accountId customerId) :
    db.customer? accountId = some customerId := by
  have hfind : (db.customers.find? (·.2 == accountId)) = some (customerId, accountId) := by
    cases hf : db.customers.find? (·.2 == accountId) with
    | none => exact absurd (List.find?_eq_none.mp hf _ hbinds) (by simp)
    | some pair =>
      have hsame : pair.2 = accountId := by simpa using List.find?_some hf
      exact congrArg some (List.inj_on_of_nodup_map hone.accounts (List.mem_of_find?_eq_some hf)
        hbinds hsame)
  unfold Tables.customer?
  rw [hfind]
  rfl

/-- Two accounts do not share an id. -/
theorem OneToOne.account_eq (hone : OneToOne db) {a b : Uuid}
    (ha : db.Binds a customerId) (hb : db.Binds b customerId) : a = b :=
  congrArg Prod.snd (List.inj_on_of_nodup_map hone.customers ha hb rfl)

/-- The writes that leave the pairs alone. -/
theorem customers_replay (hlog : ∀ w ∈ log, ∀ c a, w ≠ .linkCustomer c a) :
    (replay (S := schema) log db).customers = db.customers := by
  induction log generalizing db with
  | nil => rfl
  | cons w log ih =>
    have hw := hlog w List.mem_cons_self
    refine Eq.trans (@ih (w.apply db) fun w' hmem => hlog w' (List.mem_cons_of_mem _ hmem)) ?_
    cases w with
    | linkCustomer c a => exact absurd rfl (hw c a)
    | insertWebhook | setStatus | insertPendingLink | setBilling | setSubscription | setPrice => rfl

/-- A delivery binds no one. -/
theorem Delivers.unlinked {event : PaddleWebhookEvent} {hash : String}
    (hd : Delivers x p event hash h log) : ∀ w ∈ log, ∀ c a, w ≠ .linkCustomer c a := by
  obtain ⟨owner, row, opening, middle, status, hclaims, hending⟩ := hd
  have hopening : ∀ w ∈ opening, ∀ c a, w ≠ .linkCustomer c a := by
    cases hclaims with
    | inserted => simp
    | found => simp
  have hmiddle : ∀ w ∈ middle, ∀ c a, w ≠ .linkCustomer c a := by
    cases hending with
    | waiting => simp
    | failed | skipped => simp
    | applied _ _ _ _ _ rest _ _ _ _ _ _ hrest =>
      intro w hw c a
      rcases List.mem_cons.mp hw with rfl | hw
      · exact Write.noConfusion
      · obtain ⟨old, s, rfl⟩ := hrest w hw
        exact Write.noConfusion
  intro w hw
  simp only [List.mem_append, List.mem_singleton] at hw
  rcases hw with ((hw | rfl) | hw) | rfl
  · exact hopening w hw
  · exact fun _ _ => Write.noConfusion
  · exact hmiddle w hw
  · exact fun _ _ => Write.noConfusion

/-- **What a commit does to the pairs.** -/
theorem oneToOne_commit (hone : OneToOne (tables x.db₀ h)) (hc : Commit x h p log) :
    OneToOne (replay (S := schema) log (tables x.db₀ h)) := by
  cases hc with
  | webhook hreq hparse hhandled hfresh hdelivers =>
    have hsame := @customers_replay (tables x.db₀ h) _ hdelivers.unlinked
    exact ⟨by rw [hsame]; exact hone.customers, by rw [hsame]; exact hone.accounts⟩
  | link hreq hcustomer howner =>
    constructor
    · show ((tables x.db₀ h).customers ++ [_]).map Prod.fst |>.Nodup
      rw [List.map_append, List.map_singleton, List.nodup_append_comm, List.singleton_append]
      exact List.nodup_cons.mpr ⟨mem_of_owner?_none howner, hone.customers⟩
    · show ((tables x.db₀ h).customers ++ [_]).map Prod.snd |>.Nodup
      rw [List.map_append, List.map_singleton, List.nodup_append_comm, List.singleton_append]
      exact List.nodup_cons.mpr ⟨mem_of_customer?_none hcustomer, hone.accounts⟩
  | lazy | price => exact ⟨hone.customers, hone.accounts⟩

theorem oneToOne_logged (hone : OneToOne x.db₀) (hl : x.Inv db h) : OneToOne db := by
  rw [hl.replayed]
  refine hl.induction (motive := fun h => OneToOne (tables x.db₀ h)) hone fun h p log hi hc ih => ?_
  rw [tables_concat]
  exact oneToOne_commit ih hc

/-! ## Replies -/

/-- **What a successful reply says** about the account. -/
def BindsOk (x : Setting) (p : Nat) (reply : Reply) (h : History schema) : Prop :=
  (∀ accountId customerId, x.requests p = .link accountId customerId → reply = .link (.ok ()) →
    (tables x.db₀ h).Binds accountId customerId) ∧
  ∀ accountId email customerId, x.requests p = .ensureCustomer accountId email →
    reply = .customer (.ok customerId) → (tables x.db₀ h).Binds accountId customerId

/-- Every request meets it. -/
theorem triple_bindsOk (x : Setting) (p : Nat) :
    x.Triple p (Outside (Fresh p)) ((x.requests p).run x.state)
      fun reply => Outside fun g => BindsOk x p reply g.history := by
  cases hreq : x.requests p with
  | link accountId customerId =>
    refine triple_bind (spec_linkPaddleCustomerToAccount hreq) fun r => ?_
    cases r with
    | ok u =>
      refine triple_ret (stable_outside upward_binds.steady) fun l g hb _ => ⟨fun a c h _ => ?_,
        fun a e c h => Request.noConfusion (hreq.symm.trans h)⟩
      obtain ⟨rfl, rfl⟩ := Request.link.inj (hreq.symm.trans h)
      exact hb
    | error e =>
      exact triple_ret (stable_outside steady_const) fun _ _ _ _ =>
        ⟨fun _ _ _ h => absurd h (by simp), fun _ _ _ _ h => absurd h (by simp)⟩
  | ensureCustomer accountId email =>
    refine triple_bind (triple_pre (fun _ _ h _ => ⟨h, trivial⟩) (spec_ensurePaddleCustomer hreq))
      fun r => ?_
    cases r with
    | ok customerId =>
      refine triple_ret (stable_outside upward_binds.steady) fun l g hb _ =>
        ⟨fun a c h => Request.noConfusion (hreq.symm.trans h), fun a e c h hr => ?_⟩
      obtain ⟨rfl, rfl⟩ := Request.ensureCustomer.inj (hreq.symm.trans h)
      obtain rfl : customerId = c := by simpa using hr
      exact hb
    | error e =>
      exact triple_ret (stable_outside steady_const) fun _ _ _ _ =>
        ⟨fun _ _ _ h => absurd h (by simp), fun _ _ _ _ h => absurd h (by simp)⟩
  | webhook | lazyTransitions | setPrice =>
    exact triple_post (hreq ▸ triple_run x p) fun _ _ _ _ =>
      ⟨fun a c h => Request.noConfusion (hreq.symm.trans h),
        fun a e c h => Request.noConfusion (hreq.symm.trans h)⟩

/-- The requests over any tables, with no restriction on the runs. -/
abbrev Setting.over (state : State) (requests : Nat → Request) (db₀ : Tables)
    (initial : WebhooksOk db₀) : Setting :=
  ⟨state, requests, fun _ _ _ _ => true, fun _ _ _ => True, db₀, initial⟩

/-- **The binding of customers is one to one and permanent**, whatever calls of both kinds, deliveries
and other requests run at the same time. -/
theorem customer_binding_permanent (state : State) (requests : Nat → Request) (db₀ : Tables)
    (hone : OneToOne db₀) (hwebhooks : WebhooksOk db₀) {y z : PaddleConfig}
    (hy : Reach (system schema) (fun _ _ _ => True) (start state requests db₀) y)
    (hz : Reach (system schema) (fun _ _ _ => True) y z) :
    (∀ customerId a b, y.shared.db.Binds a customerId → y.shared.db.Binds b customerId → a = b) ∧
    (∀ accountId customerId, y.shared.db.customer? accountId = some customerId →
      z.shared.db.customer? accountId = some customerId) ∧
    (∀ p accountId customerId, requests p = .link accountId customerId →
      (y.procs p).1.result = some (.link (.ok ())) →
        y.shared.db.customer? accountId = some customerId) ∧
    ∀ p accountId email customerId, requests p = .ensureCustomer accountId email →
      (y.procs p).1.result = some (.customer (.ok customerId)) →
        y.shared.db.customer? accountId = some customerId := by
  have hinv := (paddle_reach (x := Setting.over state requests db₀ hwebhooks) hy).1
  have hinv' := (paddle_reach (x := Setting.over state requests db₀ hwebhooks)
    (Relation.ReflTransGen.trans hy hz)).1
  have hbound := oneToOne_logged hone hinv
  have hbound' := oneToOne_logged hone hinv'
  have hreply : ∀ p reply, (y.procs p).1.result = some reply →
      BindsOk (Setting.over state requests db₀ hwebhooks) p reply y.shared.history := by
    have hsafe : ∀ p, Safe (system schema) (fun _ _ _ => True) (discipline (S := schema)
        (Setting.over state requests db₀ hwebhooks).Inv) p
        (fun reply => Outside fun g => BindsOk (Setting.over state requests db₀ hwebhooks) p reply
          g.history) ((start state requests db₀).procs p).1 ((start state requests db₀).procs p).2
        (start state requests db₀).shared := fun p =>
      triple_bindsOk (Setting.over state requests db₀ hwebhooks) p none _ rfl
        (inv_start (Setting.over state requests db₀ hwebhooks))
    obtain ⟨hdiscipline, hsafe⟩ := reach_safe (inv_start (Setting.over state requests db₀ hwebhooks))
      hsafe hy
    exact fun p reply hr => (hsafe p).result hdiscipline hr
  refine ⟨fun c a b => hbound.account_eq, fun a c hc => hbound'.customer?_eq ?_,
    fun p a c hreq hr => hbound.customer?_eq ?_, fun p a e c hreq hr => hbound.customer?_eq ?_⟩
  · rw [hinv'.replayed]
    refine upward_binds _ _ (paddle_history (x := Setting.over state requests db₀ hwebhooks) hy hz) ?_
    rw [hinv.replayed] at hc
    exact binds_of_customer? hc
  · rw [hinv.replayed]
    exact (hreply p _ hr).1 a c hreq rfl
  · rw [hinv.replayed]
    exact (hreply p _ hr).2 a e c hreq rfl

/-- One account, by two ways. -/
def sampleBinding : Nat → Request
  | 0 => .link (Uuid.small 1) "ctm"
  | _ => .ensureCustomer (Uuid.small 1) "a@example.org"

/-- It is linked, and the customer that it has is returned. -/
theorem customer_binding_permanent_sampleRun : ∃ y : PaddleConfig,
    ((y.procs 0).1.result, (y.procs 1).1.result) =
        (some (.link (.ok ())), some (.customer (.ok "ctm"))) ∧
      y.shared.db.customer? (Uuid.small 1) = some "ctm" := by
  have hrun : ((start (sampleState []) sampleBinding (sampleTables [])).run (system schema)
      (fun _ _ _ => True) (sampleSteps 0 2 20 0 ++ sampleSteps 1 3 21 5)).map (fun y =>
        ((y.procs 0).1.result, (y.procs 1).1.result)) =
      some (some (.link (.ok ())), some (.customer (.ok "ctm"))) := by decide +kernel
  obtain ⟨y, hy, hresults⟩ := Reach.exists_of_run hrun
  have hbinding := customer_binding_permanent (sampleState []) sampleBinding (sampleTables [])
    ⟨by decide, by decide⟩ (webhooksOk_of_empty rfl) hy Relation.ReflTransGen.refl
  exact ⟨y, hresults, hbinding.2.2.1 0 (Uuid.small 1) "ctm" rfl (Prod.mk.inj hresults).1⟩

end EvidentLedger.Paddle
