import EvidentLedger.Lib.Alone
import EvidentLedger.Paddle.Once

/-!
# One request at a time

Runs in which a request begins after the one before has replied: what each does to the billing columns
of an account.

* A `Turn` is a request that runs on its own, with the tables before and after; `Serial` is a sequence of
  them. All choices are those of the concurrent runs, and a request is the same program.
* `Turn.Applies`: an event is processed for an account, and not skipped. `Turn.Transits`: the `UPDATE` of
  the transitions has run.
* `Turn.applied`, `Turn.transited` and `Turn.unaffected` are the steps of an account under a turn: an
  application, a transition, and anything else.
-/

namespace EvidentLedger.Paddle

open Lib.Interleave Lib.Transaction
open Ledger (AccountRow SubscriptionStatus nextPlanId lazyTransition)

/-! ## Turns -/

/-- A request that has the tables for itself. -/
structure Turn where
  request : Request
  /-- When the transitions are looked at. -/
  now : Int
  before : Tables
  reply : Reply
  after : Tables

/-- The `UPDATE` of the transitions runs at `now`. -/
def atTime (now : Int) (_ : Nat) (c : Choice) : Call schema → Shared schema → Bool
  | .sql (.applyLazyBillingTransitions _), _ => c.time == now
  | _, _ => true

/-- The request runs up to its reply. -/
def Turn.Runs (state : State) (turn : Turn) : Prop :=
  ∃ y : PaddleConfig, Reach ((system schema).restrict (atTime turn.now)) (Solo 0)
      (start state (fun _ => turn.request) turn.before) y ∧
    (y.procs 0).1.result = some turn.reply ∧ y.shared.db = turn.after

/-- **One request at a time.** -/
inductive Serial (state : State) (db₀ : Tables) : List Turn → Tables → Prop
  | nil : Serial state db₀ [] db₀
  | concat {turns : List Turn} (turn : Turn) (hturns : Serial state db₀ turns turn.before)
      (hruns : turn.Runs state) : Serial state db₀ (turns ++ [turn]) turn.after

/-- An event is processed for the account, and there is no newer one. -/
def Turn.Applies (state : State) (turn : Turn) (event : PaddleWebhookEvent) (account : Account) :
    Prop :=
  ∃ body customerId, turn.request = .webhook body ∧ state.parse body = some event ∧
    turn.reply = .webhook (.ok .processed) ∧ event.customerId = some customerId ∧
      turn.before.resolve customerId = some account ∧
        ∀ ts, turn.before.lastProcessed account.accountId = some ts → ts ≤ event.occurredAt

/-- The transitions of the account are applied, if they are due. -/
def Turn.Transits (turn : Turn) (accountId : Uuid) : Prop :=
  turn.request = .lazyTransitions accountId ∧ turn.reply = .done (.ok ())

variable {state : State} {turn : Turn} {turns : List Turn} {db db₀ : Tables} {log : List Write}
  {event : PaddleWebhookEvent} {account : Account} {a : Uuid} {body : List UInt8} {customerId : String}

/-! ## Accounts under writes -/

/-- A log that spares the accounts leaves them. -/
theorem accounts_of_spares (hs : Spares log) :
    Tables.accounts (replay (S := schema) log db) = db.accounts := by
  induction log generalizing db with
  | nil => rfl
  | cons w log ih =>
    rw [replay_cons]
    refine (ih fun w' hw' => hs w' (List.mem_cons_of_mem w hw')).trans ?_
    have hw := hs w List.mem_cons_self
    cases w with
    | setBilling | setSubscription | linkCustomer => exact absurd hw (by simp [Write.onAccounts])
    | insertWebhook | setStatus | insertPendingLink | setPrice => rfl

/-- A write that leaves the billing columns of the account. -/
def Write.Leaves (accountId : Uuid) : Write → Prop
  | setBilling b _ => b ≠ accountId
  | _ => True

/-- An account is as it was under writes that leave it. -/
theorem account?_of_leaves (hs : ∀ w ∈ log, w.Leaves a) :
    Tables.account? (replay (S := schema) log db) a = db.account? a := by
  induction log generalizing db with
  | nil => rfl
  | cons w log ih =>
    rw [replay_cons]
    refine (ih fun w' hw' => hs w' (List.mem_cons_of_mem w hw')).trans ?_
    have hw := hs w List.mem_cons_self
    cases w with
    | setBilling b row =>
      have hb : b ≠ a := hw
      refine (@account?_setBilling db _ _ _).trans ?_
      cases hrow : db.account? a with
      | none => rfl
      | some account =>
        have hid : account.accountId = a := by simpa using List.find?_some hrow
        rw [Option.map_some, assign_of_ne (by rw [hid]; exact hb.symm)]
    | insertWebhook | setStatus | insertPendingLink | setSubscription | linkCustomer | setPrice => rfl

/-- The columns of the subscription are not the account's billing. -/
theorem Write.OfSubscription.leaves {w : Write} {b : Uuid} (h : w.OfSubscription b) : w.Leaves a := by
  obtain ⟨old, s, rfl⟩ := h
  exact trivial

/-- An account that is found has the id. -/
theorem account?_accountId (h : db.account? a = some account) : account.accountId = a := by
  simpa using List.find?_some h

/-- The row after a write of its billing columns. -/
theorem account?_setBilling_self {row : AccountRow} (h : db.account? a = some account) :
    Tables.account? ((Write.setBilling a row).apply db) a = some ⟨row, a, account.version + 1⟩ := by
  have hid := account?_accountId h
  rw [account?_setBilling, h]
  simp [Account.assign, hid]

/-! ## The run of a turn -/

/-- The setting in which a turn runs. -/
def Turn.setting (state : State) (turn : Turn) (hok : WebhooksOk turn.before) : Setting where
  state
  requests _ := turn.request
  admits := atTime turn.now
  ok := Solo 0
  db₀ := turn.before
  initial := hok

/-- What is known of a turn: its history is of its own commits, and its reply meets its contract. -/
theorem Turn.Runs.reach (hruns : turn.Runs state) (hok : WebhooksOk turn.before) :
    ∃ h, (turn.setting state hok).Inv turn.after h ∧ ReplyOk (turn.setting state hok) 0 h turn.reply ∧
      ∀ entry ∈ h, entry.1 = 0 ∧ entry.2 ≠ [] := by
  obtain ⟨y, hy, hreply, hafter⟩ := hruns
  obtain ⟨hinv, hcontract⟩ := paddle_reach (x := turn.setting state hok) hy
  obtain ⟨rest, hrest, hown⟩ := history_of_solo hy
  refine ⟨y.shared.history, hafter ▸ hinv, hcontract 0 _ hreply, ?_⟩
  rw [hrest]
  exact hown

/-- A turn keeps the events well formed. -/
theorem Turn.Runs.webhooks (hruns : turn.Runs state) (hok : WebhooksOk turn.before) :
    WebhooksOk turn.after := by
  obtain ⟨h, hinv, -⟩ := hruns.reach hok
  exact Setting.webhooks hinv

/-- **The events are in order** at every turn. -/
theorem Serial.webhooks (empty : db₀.webhookEvents = []) (h : Serial state db₀ turns db) :
    WebhooksOk db := by
  induction h with
  | nil => exact webhooksOk_of_empty empty
  | concat turn _ hruns ih => exact hruns.webhooks ih

/-- **Every turn of a sequence is a run**, from well-formed events. -/
theorem Serial.runs (empty : db₀.webhookEvents = []) (h : Serial state db₀ turns db) :
    ∀ turn ∈ turns, turn.Runs state ∧ WebhooksOk turn.before := by
  induction h with
  | nil => simp
  | concat last hturns hruns ih =>
    intro turn hturn
    rcases List.mem_append.mp hturn with hturn | hturn
    · exact ih turn hturn
    · obtain rfl := List.mem_singleton.mp hturn
      exact ⟨hruns, hturns.webhooks empty⟩

/-! ## Deliveries -/

/-- A claim writes to no account. -/
theorem Claims.spares {hash : String} {accountId : Option Uuid} {row : WebhookEventRow}
    {opening : List Write} (hc : Claims event hash accountId db row opening) : Spares opening := by
  cases hc with
  | inserted =>
    intro w hw
    rw [List.mem_singleton.mp hw]
    rfl
  | found => exact fun w hw => absurd hw (by simp)

/-- What a delivery does to the accounts: it changes the billing columns of one, once. -/
structure Applying (x : Setting) (event : PaddleWebhookEvent) (h : History schema) (log : List Write)
    (account row : Account) (last : Option Int) (change : SubscriptionChange) : Prop where
  read : ∃ customerId, event.customerId = some customerId ∧ Read x customerId account last h
  timely : ∀ ts, last = some ts → ts ≤ event.occurredAt
  decided : Decided x event account.tariffPlanId change h
  found : (tables x.db₀ h).account? account.accountId = some row
  split : ∃ before after, Spares before ∧ (∀ w ∈ after, ∀ a, w.Leaves a) ∧
    log = before ++ .setBilling account.accountId (change.apply row.toAccountRow) :: after
  statuses : ∀ id status, .setStatus event.eventId id status ∈ log →
    status = .processing ∨ status = .processed

/-- **A delivery applies its event**, or spares the accounts. -/
theorem Delivers.applying {x : Setting} {p : Nat} {hash : String} {h : History schema}
    (hd : Delivers x p event hash h log) :
    (Spares log ∧ (Settles event .processed log →
        ∃ customerId account ts, event.customerId = some customerId ∧
          Read x customerId account (some ts) h ∧ event.occurredAt < ts)) ∨
      ∃ account row last change, Applying x event h log account row last change := by
  obtain ⟨accountId, row, opening, middle, status, hclaims, hending⟩ := hd
  have hopening := hclaims.spares
  have hnone : ∀ id status, Write.setStatus event.eventId id status ∉ opening := by
    intro id status hmem
    cases hclaims with
    | inserted => exact absurd hmem (by simp)
    | found => exact absurd hmem (by simp)
  have hspares : Spares middle → Spares (opening ++ [.setStatus event.eventId row.id .processing] ++
      middle ++ [.setStatus event.eventId row.id status]) := by
    intro hmiddle w hw
    simp only [List.mem_append, List.mem_singleton] at hw
    rcases hw with ((hw | rfl) | hw) | rfl
    · exact hopening w hw
    · rfl
    · exact hmiddle w hw
    · rfl
  cases hending with
  | waiting customerId email hcustomer =>
    refine Or.inl ⟨hspares (by simp [Spares, Write.onAccounts]), ?_⟩
    rintro ⟨id, hid⟩
    simp only [List.mem_append, List.mem_singleton, hnone, false_or, Write.setStatus.injEq,
      reduceCtorEq, and_false] at hid
  | failed =>
    refine Or.inl ⟨hspares (by simp [Spares]), ?_⟩
    rintro ⟨id, hid⟩
    simp only [List.append_nil, List.mem_append, List.mem_singleton, hnone, false_or,
      Write.setStatus.injEq, reduceCtorEq, and_false] at hid
  | skipped customerId account ts hcustomer hread hlate =>
    exact Or.inl ⟨hspares (by simp [Spares]), fun _ => ⟨customerId, account, ts, hcustomer, hread, hlate⟩⟩
  | applied customerId account row' last change rest hcustomer hread htimely hdecided hrow hok hrest =>
    refine Or.inr ⟨account, row', last, change, ⟨customerId, hcustomer, hread⟩, htimely, hdecided,
      hrow, ⟨opening ++ [.setStatus event.eventId row.id .processing],
        rest ++ [.setStatus event.eventId row.id .processed], ?_, ?_, by simp⟩, ?_⟩
    · intro w hw
      rcases List.mem_append.mp hw with hw | hw
      · exact hopening w hw
      · rw [List.mem_singleton.mp hw]
        rfl
    · intro w hw a
      rcases List.mem_append.mp hw with hw | hw
      · exact (hrest w hw).leaves
      · rw [List.mem_singleton.mp hw]
        exact trivial
    · intro id status hid
      have hcases : (id = row.id ∧ status = .processing) ∨
          Write.setStatus event.eventId id status ∈ rest ∨ (id = row.id ∧ status = .processed) := by
        simpa [hnone] using hid
      rcases hcases with ⟨-, rfl⟩ | hmem | ⟨-, rfl⟩
      · exact Or.inl rfl
      · obtain ⟨old, s, heq⟩ := hrest _ hmem
        exact absurd heq (by simp)
      · exact Or.inr rfl

/-- **A delivery commits once**, over the tables that it has found. -/
theorem Turn.Runs.delivery (hruns : turn.Runs state) (hok : WebhooksOk turn.before)
    (hreq : turn.request = .webhook body) (hparse : state.parse body = some event) :
    turn.after = turn.before ∧ turn.reply ≠ .webhook (.ok .processed) ∨
      ∃ log, Delivers (turn.setting state hok) 0 event (payloadHash state body) [] log ∧
        turn.after = replay (S := schema) log turn.before ∧
          (turn.reply ≠ .webhook (.ok .processed) → Spares log) ∧
            (turn.reply = .webhook (.ok .processed) → Settles event .processed log) := by
  obtain ⟨h, hinv, hreply, hown⟩ := hruns.reach hok
  cases h with
  | nil =>
    refine Or.inl ⟨hinv.replayed, fun hr => ?_⟩
    rw [hr] at hreply
    obtain ⟨body', event', -, -, h', log, -, -, hp⟩ := hreply
    exact absurd (List.prefix_nil.mp hp) (by simp)
  | cons entry rest =>
    obtain ⟨p, log⟩ := entry
    obtain ⟨rfl, hne⟩ := hown _ List.mem_cons_self
    have hsingle : rest = [] := by
      cases rest with
      | nil => rfl
      | cons entry' rest =>
        obtain ⟨p', log'⟩ := entry'
        obtain ⟨rfl, -⟩ := hown (p', log') (by simp)
        have hc := hinv.commits [(0, log)] 0 log' ⟨rest, rfl⟩
        obtain ⟨-, -, -, -, -, hfresh, -⟩ := hc.delivers (e := event.eventId) (by
          change turn.request.eventId? state = _
          rw [hreq, Request.eventId?, hparse]
          rfl)
        rw [writesOf_singleton, if_pos rfl] at hfresh
        exact absurd hfresh hne
    subst hsingle
    have hc := hinv.commits [] 0 log (List.prefix_refl _)
    obtain ⟨body', event', hreq', hparse', -, -, hd⟩ := hc.delivers (e := event.eventId) (by
      change turn.request.eventId? state = _
      rw [hreq, Request.eventId?, hparse]
      rfl)
    obtain rfl : body = body' := Request.webhook.inj (hreq.symm.trans hreq')
    obtain rfl := Option.some.inj (hparse.symm.trans hparse')
    have hwrites : writesOf 0 [((0 : Nat), log)] = log := by rw [writesOf_singleton, if_pos rfl]
    refine Or.inr ⟨log, hd, hinv.replayed, fun hr => ?_, fun hr => ?_⟩
    swap
    · rw [hr] at hreply
      obtain ⟨body', event', hreq', hparse', h', log', hsettles, hlog', -⟩ := hreply
      obtain rfl : body = body' := Request.webhook.inj (hreq.symm.trans hreq')
      obtain rfl := Option.some.inj (hparse.symm.trans hparse')
      rw [hwrites] at hlog'
      rwa [hlog']
    cases hreply' : turn.reply with
    | invalidPayload =>
      rw [hreply'] at hreply
      exact absurd (hwrites.symm.trans hreply) hne
    | link | customer | done =>
      rw [hreply'] at hreply
      exact absurd hreq (hreply body)
    | webhook result =>
      rw [hreply'] at hreply hr
      obtain ⟨body', event', hreq', hparse', hresult⟩ := hreply
      obtain rfl : body = body' := Request.webhook.inj (hreq.symm.trans hreq')
      obtain rfl := Option.some.inj (hparse.symm.trans hparse')
      cases result with
      | error err => exact hwrites ▸ hresult
      | ok outcome =>
        cases outcome with
        | processed => exact absurd rfl hr
        | idempotent => exact absurd (hwrites.symm.trans hresult) hne
        | ignored => exact absurd (hwrites.symm.trans hresult.1) hne
        | waitingForAccountLink =>
          obtain ⟨h', log', ⟨id, hid⟩, hlog', -⟩ := hresult
          rw [hwrites] at hlog'
          subst hlog'
          rcases hd.applying with ⟨hspares, -⟩ | ⟨account, row, last, change, happ⟩
          · exact hspares
          · exact absurd (happ.statuses id _ hid) (by simp)

/-! ## What a turn does to an account -/

/-- Before the first commit the tables are those of the start. -/
theorem prefix_nil_tables {x : Setting} {h : History schema} (hp : h <+: []) :
    tables x.db₀ h = x.db₀ := by
  rw [List.prefix_nil.mp hp]
  rfl

/-- What a delivery has read that nobody disturbs. -/
theorem read_nil {x : Setting} {last : Option Int} (hr : Read x customerId account last []) :
    x.db₀.resolve customerId = some account ∧ x.db₀.lastProcessed account.accountId = last := by
  obtain ⟨hr, hm, hp, hp', hresolve, hlast⟩ := hr
  rw [prefix_nil_tables (hp.trans hp')] at hresolve
  rw [prefix_nil_tables hp'] at hlast
  exact ⟨hresolve, hlast⟩

/-- What was decided before the first commit was decided by the tables of the start. -/
theorem decided_nil {x : Setting} {planId : Uuid} {change : SubscriptionChange}
    (hd : Decided x event planId change []) :
    event.change? (event.priceId.bind x.db₀.planByPrice?) (x.db₀.plan? planId) = some change := by
  obtain ⟨hp, hc, hpp, hpc, hchange⟩ := hd
  rwa [prefix_nil_tables hpp, prefix_nil_tables hpc] at hchange

/-- **An application**: the change is that for the account and the plans before, and the account is the
account before with that change. -/
theorem Turn.Runs.applied (hruns : turn.Runs state) (hok : WebhooksOk turn.before)
    (happ : turn.Applies state event account) :
    ∃ change, event.change? (event.priceId.bind turn.before.planByPrice?)
        (turn.before.plan? account.tariffPlanId) = some change ∧
      turn.after.account? account.accountId =
        some ⟨change.apply account.toAccountRow, account.accountId, account.version + 1⟩ := by
  obtain ⟨body, customerId, hreq, hparse, hreply, hcustomer, hresolve, htimely⟩ := happ
  obtain ⟨-, hne⟩ | ⟨log, hd, hafter, -, hsettles⟩ := hruns.delivery hok hreq hparse
  · exact absurd hreply hne
  obtain ⟨-, hskipped⟩ | ⟨account', row, last, change, happ⟩ := hd.applying
  · obtain ⟨customerId', account', ts, hcustomer', hread, hlate⟩ := hskipped (hsettles hreply)
    obtain rfl := Option.some.inj (hcustomer.symm.trans hcustomer')
    obtain ⟨hresolve', hlast⟩ := read_nil hread
    obtain rfl := Option.some.inj (hresolve.symm.trans hresolve')
    have hle := htimely ts hlast
    omega
  · obtain ⟨customerId', hcustomer', hread⟩ := happ.read
    obtain rfl := Option.some.inj (hcustomer.symm.trans hcustomer')
    obtain ⟨hresolve', -⟩ := read_nil hread
    obtain rfl := Option.some.inj (hresolve.symm.trans hresolve')
    obtain ⟨b, -, hb⟩ := Option.bind_eq_some_iff.mp hresolve
    obtain rfl := account?_accountId hb
    obtain rfl := Option.some.inj (hb.symm.trans happ.found)
    obtain ⟨before, after, hbefore, hleaves, rfl⟩ := happ.split
    refine ⟨change, decided_nil happ.decided, ?_⟩
    rw [hafter, replay_append, replay_cons, account?_of_leaves fun w hw => hleaves w hw _]
    refine account?_setBilling_self ?_
    unfold Tables.account?
    rw [accounts_of_spares hbefore]
    exact hb

/-- What comes of a request for the transitions of an account. -/
def Turn.Transited (turn : Turn) (accountId : Uuid) : Prop :=
  (∃ e, turn.reply = .done (.error e) ∧ turn.after = turn.before) ∨
    turn.reply = .done (.ok ()) ∧
      ((turn.after = turn.before ∧ ∀ row, turn.before.account? accountId = some row →
          (row.pendingDue turn.now || row.cancelDue turn.now) = false) ∨
        ∃ row planId, turn.before.account? accountId = some row ∧
          (row.pendingDue turn.now || row.cancelDue turn.now) = true ∧
          nextPlanId turn.now turn.before.billing row.toAccountRow = some planId ∧
          turn.after = (Write.setBilling accountId
            (lazyTransition turn.now row.toAccountRow planId)).apply turn.before)

/-- The `UPDATE` on its own. -/
theorem alone_transitions :
    Alone ((system schema).restrict (atTime turn.now)) 0 (fun _ g => g.db = turn.before)
      ((Request.lazyTransitions a).run state)
      fun reply _ g => Turn.Transited { turn with reply, after := g.db } a := by
  refine triple_bind (M := fun r _ g => Turn.Transited { turn with reply := .done r, after := g.db } a)
    (alone_call ?_) fun r => alone_ret fun _ _ h => h
  rintro l g c r g' l' hdb he
  obtain ⟨hadm, he⟩ := System.exec_of_restrict he
  have hnow : c.time = turn.now := beq_iff_eq.mp hadm
  have he' : execPool (S := schema) 0 c (.applyLazyBillingTransitions a) g l = some (r, g', l') :=
    (exec_sql_pool (S := schema) rfl).symm.trans he
  unfold execPool at he'
  split_ifs at he' with hf
  · cases he'
    exact Or.inl ⟨.io, rfl, hdb⟩
  · cases heff : schema.effect (.applyLazyBillingTransitions a) (g.waits 0) c (schema.time c) g.db with
    | none => rw [heff] at he'; exact absurd he' (by simp)
    | some out =>
      rw [heff] at he'
      cases out with
      | error e =>
        cases he'
        exact Or.inl ⟨e, rfl, hdb⟩
      | ok out =>
        obtain ⟨u, ks, ws⟩ := out
        cases he'
        have heff : (Sql.applyLazyBillingTransitions a).effect (g.waits 0) c c.time g.db =
          some (.ok (u, ks, ws)) := heff
        rw [hdb, hnow] at heff
        refine Or.inr ⟨rfl, ?_⟩
        obtain ⟨rfl, hdue⟩ | ⟨row, planId, hrow, hdue, hplan, rfl⟩ := applyLazyBillingTransitions_ok heff
        · exact Or.inl ⟨hdb, hdue⟩
        · refine Or.inr ⟨row, planId, hrow, hdue, hplan, ?_⟩
          rw [← hdb]
          rfl

/-- **A transition**, or nothing. -/
theorem Turn.Runs.transited (hruns : turn.Runs state) (hreq : turn.request = .lazyTransitions a) :
    turn.Transited a := by
  obtain ⟨y, hy, hreply, hafter⟩ := hruns
  have halone : Alone ((system schema).restrict (atTime turn.now)) 0 (fun _ g => g.db = turn.before)
      (turn.request.run state) fun reply _ g =>
        Turn.Transited { turn with reply, after := g.db } a := by
    rw [hreq]
    exact alone_transitions
  have h : Turn.Transited { turn with after := y.shared.db } a :=
    Alone.reach (x := start state (fun _ => turn.request) turn.before) halone rfl hy hreply
  rwa [hafter] at h

/-- A history of commits that leave the account. -/
theorem account?_tables {x : Setting} {h : History schema}
    (hleaves : ∀ entry ∈ h, ∀ w ∈ entry.2, w.Leaves a) :
    (tables x.db₀ h).account? a = x.db₀.account? a := by
  induction h using List.reverseRecOn with
  | nil => rfl
  | append_singleton h entry ih =>
    obtain ⟨p, log⟩ := entry
    rw [tables_concat, account?_of_leaves (hleaves (p, log) (by simp))]
    exact ih fun entry hentry => hleaves entry (List.mem_append_left _ hentry)

/-- **Any other turn leaves the account.** -/
theorem Turn.Runs.unaffected (hruns : turn.Runs state) (hok : WebhooksOk turn.before)
    (happ : ∀ event account, turn.Applies state event account → account.accountId ≠ a)
    (htransit : turn.Transits a → ∀ row, turn.before.account? a = some row →
      (row.pendingDue turn.now || row.cancelDue turn.now) = false) :
    turn.after.account? a = turn.before.account? a := by
  by_cases hlazy : turn.request = .lazyTransitions a
  · obtain ⟨e, -, hafter⟩ | ⟨hreply, ⟨hafter, -⟩ | ⟨row, planId, hrow, hdue, -⟩⟩ :=
      hruns.transited hlazy
    · rw [hafter]
    · rw [hafter]
    · exact absurd ((htransit ⟨hlazy, hreply⟩ row hrow).symm.trans hdue) (by simp)
  by_cases hwebhook : ∃ body event, turn.request = .webhook body ∧ state.parse body = some event
  · obtain ⟨body, event, hreq, hparse⟩ := hwebhook
    obtain ⟨hafter, -⟩ | ⟨log, hd, hafter, hspares, hsettles⟩ := hruns.delivery hok hreq hparse
    · rw [hafter]
    obtain ⟨hspares', -⟩ | ⟨account, row, last, change, happlying⟩ := hd.applying
    · unfold Tables.account?
      rw [hafter, accounts_of_spares hspares']
    · by_cases hreply : turn.reply = .webhook (.ok .processed)
      · obtain ⟨customerId, hcustomer, hread⟩ := happlying.read
        obtain ⟨hresolve, hlast⟩ := read_nil hread
        have hne := happ event account ⟨body, customerId, hreq, hparse, hreply, hcustomer, hresolve,
          fun ts hts => happlying.timely ts (hlast.symm.trans hts)⟩
        obtain ⟨before, after, hbefore, hleaves, rfl⟩ := happlying.split
        rw [hafter]
        refine account?_of_leaves fun w hw => ?_
        rcases List.mem_append.mp hw with hw | hw
        · have hon := hbefore w hw
          cases w with
          | setBilling => exact absurd hon (by simp [Write.onAccounts])
          | insertWebhook | setStatus | insertPendingLink | setSubscription | linkCustomer
          | setPrice => exact trivial
        · rcases List.mem_cons.mp hw with rfl | hw
          · exact hne
          · exact hleaves w hw a
      · unfold Tables.account?
        rw [hafter, accounts_of_spares (hspares hreply)]
  · obtain ⟨h, hinv, -⟩ := hruns.reach hok
    have hafter : turn.after = tables turn.before h := hinv.replayed
    rw [hafter]
    refine account?_tables (x := turn.setting state hok) ?_
    rintro ⟨p, log⟩ hentry
    obtain ⟨before, after, rfl⟩ := List.append_of_mem hentry
    have hc := hinv.commits before p log ⟨after, by simp⟩
    cases hc with
    | webhook hreq hparse => exact absurd ⟨_, _, hreq, hparse⟩ hwebhook
    | link => simp [Write.Leaves]
    | price => simp [Write.Leaves]
    | lazy hreq =>
      intro w hw
      rw [List.mem_singleton.mp hw]
      rintro rfl
      exact hlazy hreq

/-! ## Running a sequence -/

/-- Requests with the steps of each, one after the other. -/
def runTurns (state : State) :
    List (Request × Int × List (Nat × Choice)) → List Turn → Tables → Option (List Turn × Tables)
  | [], turns, db => some (turns, db)
  | (request, now, steps) :: rest, turns, db =>
    match (start state (fun _ => request) db).run ((system schema).restrict (atTime now)) (Solo 0)
      steps with
    | none => none
    | some y =>
      match (y.procs 0).1.result with
      | none => none
      | some reply =>
        runTurns state rest (turns ++ [⟨request, now, db, reply, y.shared.db⟩]) y.shared.db

/-- Turns that are run one after another are a sequence. -/
theorem serial_runTurns {todo : List (Request × Int × List (Nat × Choice))} {turns' : List Turn}
    {db' : Tables} (h : Serial state db₀ turns db)
    (hrun : runTurns state todo turns db = some (turns', db')) :
    Serial state db₀ turns' db' := by
  induction todo generalizing turns db with
  | nil =>
    obtain ⟨rfl, rfl⟩ := Prod.mk.inj (Option.some.inj hrun)
    exact h
  | cons first rest ih =>
    obtain ⟨request, now, steps⟩ := first
    unfold runTurns at hrun
    cases hy : (start state (fun _ => request) db).run ((system schema).restrict (atTime now)) (Solo 0)
        steps with
    | none => rw [hy] at hrun; exact absurd hrun (by simp)
    | some y =>
      rw [hy] at hrun
      simp only at hrun
      cases hreply : (y.procs 0).1.result with
      | none => rw [hreply] at hrun; exact absurd hrun (by simp)
      | some reply =>
        rw [hreply] at hrun
        exact ih (.concat ⟨request, now, db, reply, y.shared.db⟩ h ⟨y, .of_run hy, hreply, rfl⟩) hrun

/-- What such a sequence computes. -/
theorem exists_serial {γ : Type} {todo : List (Request × Int × List (Nat × Choice))}
    {f : List Turn × Tables → γ} {c : γ} (h : (runTurns state todo [] db₀).map f = some c) :
    ∃ turns db, Serial state db₀ turns db ∧ f (turns, db) = c := by
  obtain ⟨⟨turns, db⟩, hrun, hc⟩ := Option.map_eq_some_iff.mp h
  exact ⟨turns, db, serial_runTurns .nil hrun, hc⟩

/-- A turn of a delivery, with the account `account` of the customer before and the account after. -/
def Turn.delivers (turn : Turn) (n : Nat) (occurredAt : Int) (account after : Account) : Bool :=
  turn.request == sampleDelivery n && turn.reply == .webhook (.ok .processed) &&
    turn.before.resolve "ctm" == some account &&
      (turn.before.lastProcessed account.accountId).all (· ≤ occurredAt) &&
        turn.after.account? account.accountId == some after

/-- A turn that is computed to deliver an event does. -/
theorem applies_of_delivers {events : List PaddleWebhookEvent} {n : Nat} {after : Account}
    (he : events[n]? = some event) (hcustomer : event.customerId = some "ctm")
    (h : turn.delivers n event.occurredAt account after = true) :
    turn.Applies (sampleState events) event account ∧
      turn.after.account? account.accountId = some after := by
  simp only [Turn.delivers, Bool.and_eq_true, beq_iff_eq] at h
  obtain ⟨⟨⟨⟨hreq, hreply⟩, hresolve⟩, htimely⟩, hafter⟩ := h
  refine ⟨⟨_, "ctm", hreq, by simpa [sampleState] using he, hreply, hcustomer, hresolve, ?_⟩, hafter⟩
  intro ts hts
  rw [hts] at htimely
  simpa using htimely

end EvidentLedger.Paddle
