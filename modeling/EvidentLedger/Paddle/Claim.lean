import EvidentLedger.Paddle.Commit

/-!
# The row of a delivery

What a delivery knows between its statements, and its first statements: the row of the event is inserted
or found, and marked.

* Every assertion inside the transaction is `Under`: the locks, the log, a fact about the rows under the
  locks, and a fact about the past. `Stored`, `Known`, `Read` and `Decided` are those about the past.
* `spec_markProcessing`: the row is claimed, inserted (`Claimable`) or found.
-/

namespace EvidentLedger.Paddle

open Lib.Interleave Lib.Transaction
open Ledger (AccountRow SubscriptionStatus nextPlanId lazyTransition)

namespace Setting

variable (x : Setting)

/-- A program of request `p` that may end early. -/
abbrev Spec {ε α : Type} (p : Nat) (Pre : Local schema → Shared schema → Prop)
    (prog : Program schema ε α) (Post : α → Local schema → Shared schema → Prop)
    (E : ε → Shared schema → Prop) : Prop :=
  Lib.Transaction.Spec (S := schema) x.admits x.ok x.Inv p Pre prog Post E

/-- One that says where its transaction is then. -/
abbrev Tries {ε α : Type} (p : Nat) (Pre : Local schema → Shared schema → Prop)
    (prog : Program schema ε α) (Post : α → Local schema → Shared schema → Prop)
    (Err : ε → Local schema → Shared schema → Prop) : Prop :=
  Lib.Transaction.Tries (S := schema) x.admits x.ok x.Inv p Pre prog Post Err

/-- One that does not end early. -/
abbrev Triple {α : Type} (p : Nat) (Pre : Local schema → Shared schema → Prop) (prog : Action α)
    (Post : α → Local schema → Shared schema → Prop) : Prop :=
  Lib.Interleave.Triple ((system schema).restrict x.admits) x.ok (discipline (S := schema) x.Inv) p Pre
    prog Post

/-- What the steps of the others leave. -/
abbrev Holds (p : Nat) (P : Local schema → Shared schema → Prop) : Prop :=
  Stable (discipline (S := schema) x.Inv) p P

end Setting

/-- Nothing committed yet. -/
def Fresh (p : Nat) (g : Shared schema) : Prop := writesOf p g.history = []

/-- Inside the first transaction of `p`: the locks, the rows under them, the past, and the log. -/
abbrev Under (p : Nat) (now : Int) (ks : List Key) (F : Tables → Prop) (Φ : History schema → Prop)
    (log : List Write) : Local schema → Shared schema → Prop :=
  Amid (S := schema) p now ks F (fun g => Φ g.history) log

/-- Before it. -/
abbrev Before (p : Nat) (Φ : History schema → Prop) : Local schema → Shared schema → Prop :=
  Outside fun g : Shared schema => Fresh p g ∧ Φ g.history

variable {x : Setting} {p : Nat} {now : Int} {ks : List Key} {F : Tables → Prop}
  {Φ : History schema → Prop} {log : List Write} {ε α : Type}

theorem steady_fresh : Steady x.Inv p (Fresh p) := steady_own (P := fun log => log = [])

theorem stable_before (hΦ : Upward Φ) : x.Holds p (Before p Φ) :=
  stable_outside (steady_and steady_fresh hΦ.steady)

theorem stable_under (hF : Framed (S := schema) ks F) (hΦ : Upward Φ) :
    x.Holds p (Under p now ks F Φ log) :=
  stable_amid hF hΦ.steady

/-- Where a failed statement leaves the transaction. -/
abbrev Failed (p : Nat) (now : Int) (ks : List Key) (F : Tables → Prop) (Φ : History schema → Prop)
    (log : List Write) : Local schema → Shared schema → Prop :=
  Shaken (S := schema) p now ks F (fun g => Φ g.history) log

/-! ## The past -/

section Past

variable (x)

/-- The row of an event, as it was. -/
def Stored (paddleEventId : String) (row : WebhookEventRow) (h : History schema) : Prop :=
  ∃ h', h' <+: h ∧ (tables x.db₀ h').webhook? paddleEventId = some row

/-- The account of a customer, as it was. -/
def Known (customerId : String) (account : Account) (h : History schema) : Prop :=
  ∃ h', h' <+: h ∧ (tables x.db₀ h').resolve customerId = some account

variable {x} {e customerId : String} {row : WebhookEventRow} {account : Account} {last : Option Int}
  {event : PaddleWebhookEvent} {change : SubscriptionChange} {planId : Uuid} {db : Tables}
  {h : History schema}

theorem upward_stored : Upward (Stored x e row) := upward_past

theorem upward_known : Upward (Known x customerId account) := upward_past

theorem upward_read : Upward (Read x customerId account last) :=
  fun _ _ hp ⟨hr, hm, h1, h2, h3⟩ => ⟨hr, hm, h1, h2.trans hp, h3⟩

theorem upward_decided : Upward (Decided x event planId change) :=
  fun _ _ hp ⟨hq, hc, h1, h2, h3⟩ => ⟨hq, hc, h1.trans hp, h2.trans hp, h3⟩

/-- **The row is still there**, with another status perhaps. -/
theorem Stored.still (hs : Stored x e row h) (hi : x.Inv db h) :
    ∃ row', db.webhookById? row.id = some row' ∧ row.SameEvent row' ∧ row.paddleEventId = e := by
  obtain ⟨h', hp, hrow⟩ := hs
  obtain ⟨hmem, he⟩ := mem_of_webhook? hrow
  have hold := (Setting.webhooks (hi.of_prefix hp)).webhookById? hmem
  obtain ⟨row', hrow', hsame⟩ := (grows_tables hp).webhooks _ _ hold
  rw [hi.replayed]
  exact ⟨row', hrow', hsame, he⟩

/-- **The account is still there.** -/
theorem Known.still (hk : Known x customerId account h) (hi : x.Inv db h) :
    ∃ row, db.account? account.accountId = some row ∧ account.Follows row := by
  obtain ⟨h', hp, ha⟩ := hk
  obtain ⟨a, -, ha⟩ := Option.bind_eq_some_iff.mp ha
  have hid : account.accountId = a := by simpa using List.find?_some ha
  rw [hi.replayed, hid]
  exact (grows_tables hp).accounts a account ha

theorem Read.known (hr : Read x customerId account last h) : Known x customerId account h := by
  obtain ⟨h', hm, hp, hp', ha, -⟩ := hr
  exact ⟨h', hp.trans hp', ha⟩

end Past

/-! ## Rows under locks -/

section Same

variable {db db' : Tables} {id accountId : Uuid} {e : String}

theorem webhookById?_same (h : Key.same (.webhook id) db db') :
    db'.webhookById? id = db.webhookById? id := by
  unfold Tables.webhookById?
  rw [← List.head?_filter, ← List.head?_filter, h]

theorem webhook?_same (h : Key.same (.paddleEvent e) db db') : db'.webhook? e = db.webhook? e := by
  unfold Tables.webhook?
  rw [← List.head?_filter, ← List.head?_filter, h]

theorem account?_same (h : Key.same (.account accountId) db db') :
    db'.account? accountId = db.account? accountId := by
  unfold Tables.account?
  rw [← List.head?_filter, ← List.head?_filter, h.1]

end Same

/-! ## Statements on the pool -/

/-- **A read on the pool**, before any transaction. -/
theorem spec_poolRead {f : DbError → ε} {s : Sql} {A : s.Res → History schema → Prop}
    (hs : s.onPool = true) (hΦ : Upward Φ) (hA : ∀ a, Upward (A a))
    (hok : ∀ (g : Shared schema) c a ks ws, Φ g.history → x.Inv g.db g.history →
      s.effect (g.waits p) c c.time g.db = some (.ok (a, ks, ws)) → ws = [] ∧ A a g.history) :
    x.Spec p (Before p Φ) (sql (S := schema) f s) (fun a => Before p (A a)) fun _ => Fresh p := by
  refine spec_attempt (S := schema) (fun a => stable_before (hA a))
    (fun _ => steady_fresh) (triple_poolRead (S := schema) hs (stable_before hΦ)
      (fun a => stable_before (hA a)) (fun _ => steady_fresh) ?_
        fun _ _ _ h _ _ => h.1)
  intro l g c a ks ws h hi _ he
  obtain ⟨hws, ha⟩ := hok g c a ks ws h.2 hi he
  exact ⟨hws, h.1, ha⟩

/-- `find_by_paddle_event_id`. -/
theorem spec_findByPaddleEventId {e : String} (hΦ : Upward Φ) :
    x.Spec p (Before p Φ) (findByPaddleEventId e)
      (fun found => Before p fun h => Φ h ∧ ∀ row, found = some row → Stored x e row h)
      fun _ => Fresh p := by
  refine spec_poolRead (s := .selectWebhook e) (A := fun found h => Φ h ∧
    ∀ row, found = some row → Stored x e row h) rfl hΦ (fun found => hΦ.and ?_) ?_
  · exact fun h h' hp hs row hrow => upward_stored h h' hp (hs row hrow)
  · intro g c found ks ws hp hi he
    obtain ⟨rfl, rfl⟩ := selectWebhook_ok he
    refine ⟨rfl, hp, fun row hrow => ⟨g.history, List.prefix_refl _, ?_⟩⟩
    rw [← hrow, hi.replayed]

/-- `resolve_account_by_paddle_customer`. -/
theorem spec_resolveAccountByPaddleCustomer {customerId : String} (hΦ : Upward Φ) :
    x.Spec p (Before p Φ) (resolveAccountByPaddleCustomer customerId)
      (fun found => Before p fun h => Φ h ∧
        ∀ account, found = some account → Known x customerId account h)
      fun _ => Fresh p := by
  refine spec_poolRead (s := .selectAccountByCustomer customerId) (A := fun found h => Φ h ∧
    ∀ account, found = some account → Known x customerId account h) rfl hΦ
    (fun found => hΦ.and ?_) ?_
  · exact fun h h' hp hs a ha => upward_known h h' hp (hs a ha)
  · intro g c found ks ws hp hi he
    obtain ⟨rfl, rfl⟩ := selectAccountByCustomer_ok he
    refine ⟨rfl, hp, fun account ha => ⟨g.history, List.prefix_refl _, ?_⟩⟩
    rw [← ha, hi.replayed]
    rfl

/-- **`begin`.** -/
theorem spec_begun {f : DbError → ε} (hΦ : Upward Φ) :
    x.Spec p (Before p Φ) (beginTx (S := schema) f)
      (fun _ l g => ∃ now, Under p now [] (fun _ => True) Φ [] l g) fun _ => Fresh p :=
  spec_attempt (S := schema)
    (fun _ => stable_exists fun _ => stable_under framed_const hΦ) (fun _ => steady_fresh)
    (triple_amid_begin (S := schema) hΦ.steady (fun _ => steady_fresh) fun _ h _ => h)

/-- The inside of a transaction that has committed nothing when it fails. -/
theorem spec_body {Pre : Local schema → Shared schema → Prop}
    {Post : α → Local schema → Shared schema → Prop} {prog : Program schema ε α}
    (hpost : ∀ a, x.Holds p (Post a)) (h : x.Spec p Pre prog Post fun _ => Fresh p) :
    x.Spec p Pre (orRollback prog) Post fun _ => Fresh p :=
  spec_orRollback (S := schema) hpost (fun _ => steady_fresh) (fun _ => steady_fresh)
    (fun _ _ h => h) h

/-! ## Statements inside the transaction -/

/-- **A statement**, with several outcomes for one answer. -/
theorem tries_statement {f : DbError → ε} {s : Sql} {ι : Type} {K : s.Res → ι → List Key}
    {G : s.Res → ι → Tables → Prop} {A : s.Res → ι → History schema → Prop}
    {W : s.Res → ι → List Write} (hs : s.onPool = false) (hF : Framed (S := schema) ks F)
    (hG : ∀ a i, Framed (S := schema) (K a i) (G a i)) (hΦ : Upward Φ) (hA : ∀ a i, Upward (A a i))
    (hok : ∀ (g : Shared schema) c a taken ws, F g.db → Φ g.history → x.Inv g.db g.history →
      x.ok p (.sql s) g →
      s.effect (g.waits p) c now (replay (S := schema) log g.db) = some (.ok (a, taken, ws)) →
        ∃ i, ws = W a i ∧ G a i g.db ∧ A a i g.history ∧ ∀ k ∈ K a i, k ∈ ks ∨ k ∈ taken) :
    x.Tries p (Under p now ks F Φ log) (sql (S := schema) f s)
      (fun a l g => ∃ i, Under p now (K a i) (G a i) (A a i) (log ++ W a i) l g)
      fun _ => Failed p now ks F Φ log := by
  refine tries_amid (S := schema) (A := fun a i g => A a i g.history) hs hF hG hΦ.steady
    (fun a i => (hA a i).steady) fun g c a taken ws hf hp hi hq he => ?_
  obtain ⟨i, hws, hg, ha, hk⟩ := hok g c a taken ws hf hp hi hq he
  exact ⟨i, hws, hg, ha, hk, fun w hw k hkey =>
    Or.inr (covered_effect s (g.waits p) c now _ _ _ _ he w hw k hkey)⟩

/-- **A read.** -/
theorem tries_read {f : DbError → ε} {s : Sql} {A : s.Res → History schema → Prop}
    (hs : s.onPool = false) (hF : Framed (S := schema) ks F) (hΦ : Upward Φ)
    (hA : ∀ a, Upward (A a))
    (hok : ∀ (g : Shared schema) c a taken ws, F g.db → Φ g.history → x.Inv g.db g.history →
      s.effect (g.waits p) c now (replay (S := schema) log g.db) = some (.ok (a, taken, ws)) →
        ws = [] ∧ A a g.history) :
    x.Tries p (Under p now ks F Φ log) (sql (S := schema) f s)
      (fun a => Under p now ks F (A a) log) fun _ => Failed p now ks F Φ log :=
  tries_amid_read (S := schema) (A := fun a g => A a g.history) hs hF hΦ.steady
    (fun a => (hA a).steady) fun g c a taken ws hf hp hi _ he => hok g c a taken ws hf hp hi he

/-- **A write** under locks that are held. -/
theorem tries_write {f : DbError → ε} {s : Sql} {W : List Write} (hs : s.onPool = false)
    (hF : Framed (S := schema) ks F) (hΦ : Upward Φ)
    (hok : ∀ (g : Shared schema) c a taken ws, F g.db →
      s.effect (g.waits p) c now (replay (S := schema) log g.db) = some (.ok (a, taken, ws)) →
        ws = W) :
    x.Tries p (Under p now ks F Φ log) (sql (S := schema) f s)
      (fun _ => Under p now ks F Φ (log ++ W)) fun _ => Failed p now ks F Φ log := by
  refine tries_post (S := schema) (tries_statement (ι := Unit) (K := fun _ _ => ks)
    (G := fun _ _ => F) (A := fun _ _ => Φ) (W := fun _ _ => W) hs hF (fun _ _ => hF) hΦ
    (fun _ _ => hΦ) ?_) (fun a l g h => ?_) fun _ _ _ h => h
  · intro g c a taken ws hf hp hi _ he
    exact ⟨(), hok g c a taken ws hf he, hf, hp, fun k hk => Or.inl hk⟩
  · obtain ⟨-, h⟩ := h
    exact h

/-! ## Claiming a row -/

section Claiming

variable (x p now Φ)
variable (event : PaddleWebhookEvent) (hash : String) (accountId : Option Uuid) (id : Uuid)

/-- The keys of a row of an event. -/
abbrev rowKeys : List Key := [.webhook id, .paddleEvent event.eventId]

/-- The row is stored, or inserted by this transaction. -/
def Claimable (l : Local schema) (g : Shared schema) : Prop :=
  (∃ row : WebhookEventRow, (row.id = id ∧ row.payloadHash = hash) ∧
    Under p now [] (fun _ => True) (fun h => Φ h ∧ Stored x event.eventId row h) [] l g) ∨
  Under p now (rowKeys event id)
    (fun db => db.webhookById? id = none ∧ db.webhook? event.eventId = none) Φ
    [.insertWebhook ⟨id, event.eventId, hash, accountId, event.occurredAt, .received⟩] l g

/-- The writes of a transaction that has claimed its row. -/
abbrev claimedLog (row : WebhookEventRow) (opening middle : List Write) : List Write :=
  opening ++ [.setStatus event.eventId row.id .processing] ++ middle

/-- The row is claimed; `middle` is written since. -/
abbrev Claimed (row : WebhookEventRow) (opening middle : List Write) :
    Local schema → Shared schema → Prop :=
  Under p now (rowKeys event row.id) (fun db => Claims event hash accountId db row opening) Φ
    (claimedLog event row opening middle)

/-- After `mark_processing`: claimed, or not to be had. -/
def Marked (b : Bool) (l : Local schema) (g : Shared schema) : Prop :=
  (∃ row opening, (b = true ∧ row.id = id) ∧
    Claimed p now Φ event hash accountId row opening [] l g) ∨ (b = false ∧ Fresh p g)

variable {x p now Φ event hash accountId id}

theorem framed_free : Framed (S := schema) (rowKeys event id) fun db =>
    Tables.webhookById? db id = none ∧ Tables.webhook? db event.eventId = none := by
  intro db db' hs hf
  rw [webhookById?_same (hs (.webhook id) (by simp)),
    webhook?_same (hs (.paddleEvent event.eventId) (by simp))]
  exact hf

theorem framed_claims {row : WebhookEventRow} {opening : List Write} :
    Framed (S := schema) (rowKeys event row.id) fun db : Tables =>
      Claims event hash accountId db row opening := by
  intro db db' hs hc
  have hid : Tables.webhookById? db' row.id = Tables.webhookById? db row.id :=
    webhookById?_same (hs (.webhook row.id) (by simp))
  have he : Tables.webhook? db' event.eventId = Tables.webhook? db event.eventId :=
    webhook?_same (hs (.paddleEvent event.eventId) (by simp))
  cases hc with
  | inserted h1 h2 hrow => exact .inserted (hid.trans h1) (he.trans h2) hrow
  | found h1 h2 h3 h4 => exact .found (hid.trans h1) h2 h3 h4

theorem stable_claimable (hΦ : Upward Φ) :
    x.Holds p (Claimable x p now Φ event hash accountId id) :=
  stable_or (stable_exists fun _ => stable_and (stable_under framed_const
    (hΦ.and upward_stored))) (stable_under framed_free hΦ)

theorem stable_claimed {row : WebhookEventRow} {opening middle : List Write} (hΦ : Upward Φ) :
    x.Holds p (Claimed p now Φ event hash accountId row opening middle) :=
  stable_under framed_claims hΦ

theorem stable_marked {b : Bool} (hΦ : Upward Φ) :
    x.Holds p (Marked p now Φ event hash accountId id b) :=
  stable_or (stable_exists fun _ => stable_exists fun _ => stable_and (stable_claimed hΦ))
    (stable_and (stable_outside steady_fresh))

/-- A stored row. -/
theorem spec_markStored {row : WebhookEventRow} (hΦ : Upward Φ) (hid : row.id = id)
    (hhash : row.payloadHash = hash) :
    x.Spec p (Under p now [] (fun _ => True) (fun h => Φ h ∧ Stored x event.eventId row h) [])
      (markProcessing id) (Marked p now Φ event hash accountId id) fun _ => Fresh p := by
  refine spec_post (S := schema) (spec_of_shaken (S := schema) (tries_statement
    (s := .markProcessing id) (ι := Option WebhookEventRow)
    (K := fun _ i => if i.isSome then rowKeys event id else [])
    (G := fun _ i db => ∀ row', i = some row' → row'.id = id ∧
      Claims event hash accountId db row' [])
    (A := fun (b : Bool) i h => Φ h ∧ b = i.isSome)
    (W := fun _ i => if i.isSome then [.setStatus event.eventId id .processing] else [])
    rfl framed_const ?_ (hΦ.and upward_stored) (fun b i => hΦ.and upward_const) ?_)) ?_
      fun _ _ h => h
  · intro b i
    cases i with
    | none => exact fun _ _ _ _ _ hr => absurd hr (by simp)
    | some row' =>
      intro db db' hs hf r hr
      obtain rfl := Option.some.inj hr
      obtain ⟨rfl, hc⟩ := hf row' rfl
      exact ⟨rfl, framed_claims db db' hs hc⟩
  · intro g c b taken ws _ hpast hi _ he
    obtain ⟨rfl, rfl⟩ | ⟨rfl, row', hrow', hstatus, rfl, rfl⟩ := markProcessing_ok he
    · exact ⟨none, rfl, fun _ h => absurd h (by simp), ⟨hpast.1, rfl⟩, by simp⟩
    · obtain ⟨r, hr, hsame, he'⟩ := hpast.2.still hi
      rw [hid] at hr
      obtain rfl := Option.some.inj (hr.symm.trans hrow')
      have hevent : r.paddleEventId = event.eventId := hsame.2.1.trans he'
      have hrid : r.id = id := hsame.1.trans hid
      refine ⟨some r, by simp [hevent], fun row' h => ?_, ⟨hpast.1, rfl⟩, ?_⟩
      · obtain rfl := Option.some.inj h
        exact ⟨hrid, .found (hrid.symm ▸ hr) hevent (hsame.2.2.1.trans hhash) hstatus⟩
      · intro k hk
        rw [hevent]
        exact Or.inr hk
  · rintro b l g ⟨i, hi⟩
    have hb := hi.also
    cases i with
    | none => exact Or.inr ⟨hb.2, hi.fresh⟩
    | some row' =>
      obtain ⟨hrid, -⟩ := hi.fact row' rfl
      subst hrid
      exact Or.inl ⟨row', [], ⟨hb.2, rfl⟩,
        amid_mono (S := schema) (fun _ hk => hk) (fun db hf => (hf row' rfl).2) (fun g hg => hg.1) hi⟩

/-- An inserted row. -/
theorem spec_markInserted (hΦ : Upward Φ) :
    x.Spec p (Under p now (rowKeys event id)
        (fun db => db.webhookById? id = none ∧ db.webhook? event.eventId = none) Φ
        [.insertWebhook ⟨id, event.eventId, hash, accountId, event.occurredAt, .received⟩])
      (markProcessing id) (Marked p now Φ event hash accountId id) fun _ => Fresh p := by
  refine spec_post (S := schema) (spec_of_shaken (S := schema) (tries_statement
    (s := .markProcessing id) (ι := Unit) (K := fun _ _ => rowKeys event id)
    (G := fun _ _ db => db.webhookById? id = none ∧ db.webhook? event.eventId = none)
    (A := fun (b : Bool) _ h => b = true ∧ Φ h)
    (W := fun _ _ => [.setStatus event.eventId id .processing])
    rfl framed_free (fun _ _ => framed_free) hΦ (fun b _ => upward_const.and hΦ) ?_)) ?_
      fun _ _ h => h
  · intro g c b taken ws hfree hpast _ _ he
    have hview := @webhookById?_insertWebhook _
      ⟨id, event.eventId, hash, accountId, event.occurredAt, .received⟩ hfree.1
    have he : (Sql.markProcessing id).effect (g.waits p) c now
      ((Write.insertWebhook ⟨id, event.eventId, hash, accountId, event.occurredAt, .received⟩).apply
        g.db) = some (.ok (b, taken, ws)) := he
    obtain ⟨rfl, rfl⟩ | ⟨rfl, row, hrow, -, -, rfl⟩ := markProcessing_ok he
    · simp only [Sql.effect, hview] at he
      exact absurd (takes_ok.mp he).2.1 (by simp)
    · obtain rfl := Option.some.inj (hview.symm.trans hrow)
      exact ⟨(), rfl, hfree, ⟨rfl, hpast⟩, fun k hk => Or.inl hk⟩
  · rintro b l g ⟨-, h⟩
    refine Or.inl ⟨⟨id, event.eventId, hash, accountId, event.occurredAt, .received⟩, _,
      ⟨h.also.1, rfl⟩, amid_mono (S := schema) (fun _ hk => hk)
        (fun db hf => .inserted hf.1 hf.2 rfl) (fun g hg => hg.2) h⟩

/-- **`mark_processing`.** -/
theorem spec_markProcessing (hΦ : Upward Φ) :
    x.Spec p (Claimable x p now Φ event hash accountId id) (markProcessing id)
      (Marked p now Φ event hash accountId id) fun _ => Fresh p := by
  rintro l g (⟨row, ⟨hid, hhash⟩, h⟩ | h) hi
  · exact spec_markStored hΦ hid hhash l g h hi
  · exact spec_markInserted hΦ l g h hi

end Claiming

end EvidentLedger.Paddle
