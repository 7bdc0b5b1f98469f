import EvidentLedger.Ledger.Idempotency

/-!
# Who owns a chain

A chain gets its owner by `POST /chains`, by the first event submitted to it, or by an event
submitted to a chain without an owner (`ensure_chain_access_in_tx`, `service/ledger.rs:90-141`).

* `Commit.owner`: a commit leaves the owner of a chain, and adds events of that owner only.
* `Commit.claims`: after an event the chain is owned by the account that submitted it.
* **`ownership_isolation`**: so an owner is for good, from any tables, and all events that requests
  add to a chain are of one account.
-/

namespace EvidentLedger.Ledger

open Lib.Interleave Lib.Transaction

/-- The account of a request. -/
def Request.accountId : Request → Uuid
  | .createChain accountId => accountId
  | .submitEvent accountId _ => accountId
  | .submitV1Event accountId _ _ => accountId

/-- The request has committed this event. -/
def Submitted (p : Nat) (c eventId : Uuid) (h : History schema) : Prop :=
  .event c eventId ∈ effects (writesOf p h)

instance (p : Nat) (c eventId : Uuid) (h : History schema) : Decidable (Submitted p c eventId h) :=
  inferInstanceAs (Decidable (Effect.event c eventId ∈ effects (writesOf p h)))

variable {state : AppState} {requests : Nat → Request} {ok : Nat → Call schema → Shared schema → Prop}
  {db₀ db : Db} {h h' : History schema} {p q : Nat} {log : List Write} {c eventId account : Uuid}

/-- The owner after an event: the account on its chain, unchanged elsewhere. -/
theorem Addition.Valid.owner?_all {a : Addition} {after : List Write} (ha : a.Valid db)
    (hafter : RecordOnly db after) (c : Uuid) :
    Db.owner? (replay (S := schema) (a.log state db ++ after) db) c =
      if c = a.event.chainId then some a.account else db.owner? c := by
  rw [Db.owner?, ha.chain?_all hafter]
  split_ifs <;> rfl

/-- The only event of a commit is that of its addition. -/
theorem Addition.Valid.event_mem {a : Addition} {after : List Write} (ha : a.Valid db)
    (hafter : RecordOnly db after)
    (hmem : .event c eventId ∈ effects (a.log state db ++ after)) :
    c = a.event.chainId ∧ eventId = a.event.eventId := by
  rw [effects_append, ha.effects_log] at hmem
  rcases hafter with rfl | ⟨r, rfl, -⟩
  · simpa [effects] using hmem
  · simpa [effects, Write.effect?] using hmem

/-- A commit with an event is of the account of its request. -/
theorem Commit.event (hc : Commit state requests ok db₀ h p log)
    (hmem : .event c eventId ∈ effects log) :
    ∃ req a after, Adds ok db₀ p (requests p).accountId req a (tables db₀ h) ∧
      RecordOnly (tables db₀ h) after ∧ log = a.log state (tables db₀ h) ++ after ∧
      c = a.event.chainId ∧ eventId = a.event.eventId := by
  have hkind := hc.kind
  cases hc with
  | chain => exact absurd hmem (by simp [effects, Write.effect?])
  | token => exact absurd hmem (by simp [effects, Write.effect?])
  | legacy hreq _ hadds =>
    rw [hreq]
    have hafter : RecordOnly (tables db₀ h) [] := Or.inl rfl
    rw [← List.append_nil (Addition.log _ _ _)] at hmem ⊢
    exact ⟨_, _, [], hadds, hafter, rfl, hadds.valid.event_mem hafter hmem⟩
  | v1 hreq _ _ hadds hrecord hnew =>
    rw [hreq]
    have hafter : RecordOnly (tables db₀ h) [.insertRecord _] := Or.inr ⟨_, rfl, by
      rw [hrecord.accountId, hrecord.idempotencyKey]
      exact hnew⟩
    exact ⟨_, _, _, hadds, hafter, rfl, hadds.valid.event_mem hafter hmem⟩

/-- **A commit leaves the owner of a chain.** -/
theorem Kind.owner (hk : Kind state ok db₀ p db log) (howner : db.owner? c = some account) :
    Db.owner? (replay (S := schema) log db) c = some account := by
  cases hk with
  | token => exact howner
  | @chain account' c' hnew =>
    have hne : c' ≠ c := fun heq => by
      rw [Db.owner?, ← heq, hnew] at howner
      exact absurd howner (by simp)
    rw [replay_write, replay_none, Db.owner?, chain?_insertChain, if_neg (by simpa using hne),
      Option.or_none]
    exact howner
  | event hadds hafter =>
    rw [hadds.valid.owner?_all hafter]
    split_ifs with heq
    · subst heq
      exact congrArg some (hadds.valid.access.owner howner).symm
    · exact howner

/-- **An event leaves its chain to the account that submitted it.** -/
theorem Commit.claims (hc : Commit state requests ok db₀ h p log)
    (hmem : .event c eventId ∈ effects log) :
    Db.owner? (replay (S := schema) log (tables db₀ h)) c = some (requests p).accountId := by
  obtain ⟨req, a, after, hadds, hafter, rfl, rfl, rfl⟩ := hc.event hmem
  rw [hadds.valid.owner?_all hafter, if_pos rfl, hadds.owner]

/-- Only the owner of a chain adds to it. -/
theorem Commit.owner (hc : Commit state requests ok db₀ h p log)
    (howner : (tables db₀ h).owner? c = some account)
    (hmem : .event c eventId ∈ effects log) : (requests p).accountId = account := by
  have hkept := hc.kind.owner howner
  rw [hc.claims hmem] at hkept
  exact Option.some.inj hkept

theorem submitted_concat :
    Submitted p c eventId (h ++ [(q, log)]) ↔
      Submitted p c eventId h ∨ q = p ∧ .event c eventId ∈ effects log := by
  rw [Submitted, writesOf_concat, effects_append, List.mem_append]
  refine or_congr Iff.rfl ?_
  split_ifs with hq
  · simp [hq]
  · simp [hq]

/-- Whoever adds an event owns the chain from then on. -/
theorem Recorded.owner_of_submitted (hr : Recorded state requests ok db₀ db h)
    (hs : Submitted p c eventId h) : db.owner? c = some (requests p).accountId := by
  rw [hr.replayed]
  refine hr.induction (motive := fun h => Submitted p c eventId h →
    (tables db₀ h).owner? c = some (requests p).accountId)
    (fun h0 => absurd h0 (by simp [Submitted, writesOf])) ?_ hs
  intro h q log _ hc ih hs
  rw [tables_concat]
  rcases submitted_concat.mp hs with hs | ⟨rfl, hmem⟩
  · exact hc.kind.owner (ih hs)
  · exact hc.claims hmem

/-- **An owner is for good**, and what is added later is the owner's. -/
theorem Recorded.owned (hr : Recorded state requests ok db₀ db (h ++ h'))
    (howner : (tables db₀ h).owner? c = some account) :
    db.owner? c = some account ∧
      ∀ p eventId, Submitted p c eventId h' → (requests p).accountId = account := by
  obtain ⟨rfl, hcommits⟩ := hr
  induction h' using List.reverseRecOn with
  | nil =>
    rw [List.append_nil]
    exact ⟨howner, fun p eventId hs => absurd hs (by simp [Submitted, writesOf])⟩
  | append_singleton h' entry ih =>
    obtain ⟨q, log⟩ := entry
    rw [← List.append_assoc] at hcommits ⊢
    obtain ⟨hinit, hlast⟩ := Recorded.init ⟨rfl, hcommits⟩
    obtain ⟨hown, hsub⟩ := ih hinit.commits
    rw [tables_concat]
    refine ⟨hlast.kind.owner hown, fun p eventId hs => ?_⟩
    rcases submitted_concat.mp hs with hs | ⟨rfl, hmem⟩
    · exact hsub p eventId hs
    · exact hlast.owner hown hmem

/-- Every event that was added was added by someone. -/
theorem Recorded.added (hr : Recorded state requests ok db₀ db (h ++ h')) {e : EventRecord}
    (he : e ∈ db.eventsOf c) :
    e ∈ (tables db₀ h).eventsOf c ∨ ∃ p, Submitted p c e.eventId h' := by
  obtain ⟨rfl, hcommits⟩ := hr
  induction h' using List.reverseRecOn with
  | nil =>
    rw [List.append_nil] at he
    exact Or.inl he
  | append_singleton h' entry ih =>
    obtain ⟨q, log⟩ := entry
    rw [← List.append_assoc] at hcommits he
    obtain ⟨hinit, hlast⟩ := Recorded.init ⟨rfl, hcommits⟩
    have hpast : e ∈ (tables db₀ (h ++ h')).eventsOf c → e ∈ (tables db₀ h).eventsOf c ∨
        ∃ p, Submitted p c e.eventId (h' ++ [(q, log)]) := fun he =>
      (ih hinit.commits he).imp_right fun ⟨p, hs⟩ => ⟨p, submitted_concat.mpr (Or.inl hs)⟩
    rw [tables_concat] at he
    have hkind := hlast.kind
    generalize tables db₀ (h ++ h') = db at he hkind hpast
    cases hkind with
    | chain | token => exact hpast he
    | event hadds hafter =>
      rw [hadds.valid.eventsOf_all hafter] at he
      rcases List.mem_append.mp he with he | he
      · exact hpast he
      · split_ifs at he with hc
        · obtain rfl := List.mem_singleton.mp he
          refine Or.inr ⟨q, submitted_concat.mpr (Or.inr ⟨rfl, ?_⟩)⟩
          rw [effects_append, hadds.valid.effects_log, hc]
          exact List.mem_append_left _ List.mem_cons_self
        · exact absurd he (by simp)

/-- **A submission writes nothing before its event.** -/
theorem Recorded.submitted_of_writes (hr : Recorded state requests ok db₀ db h)
    (hsubmit : ∀ account, requests p ≠ .createChain account) (hne : writesOf p h ≠ []) :
    ∃ c eventId, Submitted p c eventId h := by
  refine hr.induction (motive := fun h => writesOf p h ≠ [] → ∃ c eventId, Submitted p c eventId h)
    (fun h0 => absurd rfl h0) ?_ hne
  intro h q log _ hc ih hne
  by_cases hpast : writesOf p h = []
  swap
  · obtain ⟨c, eventId, hs⟩ := ih hpast
    exact ⟨c, eventId, submitted_concat.mpr (Or.inl hs)⟩
  have hq : q = p := by
    by_contra hq
    rw [writesOf_concat, hpast, if_neg hq] at hne
    exact hne rfl
  subst hq
  cases hc with
  | chain hreq => exact absurd hreq (hsubmit _)
  | token _ hlanded => exact absurd hpast hlanded.writes_ne
  | @legacy _ _ a _ _ hadds =>
    refine ⟨a.event.chainId, a.event.eventId, submitted_concat.mpr (Or.inr ⟨rfl, ?_⟩)⟩
    rw [hadds.valid.effects_log]
    exact List.mem_cons_self
  | @v1 _ _ _ _ a _ _ _ _ hadds =>
    refine ⟨a.event.chainId, a.event.eventId, submitted_concat.mpr (Or.inr ⟨rfl, ?_⟩)⟩
    rw [effects_append, hadds.valid.effects_log]
    exact List.mem_append_left _ List.mem_cons_self

/-- A request that has written nothing is not missed. -/
theorem Recorded.without (hr : Recorded state requests ok db₀ db h) (hnone : writesOf p h = []) :
    db = tables db₀ (without p h) := by
  rw [tables, committed_without hnone]
  exact hr.replayed

/-- **A submission has added an event, or nothing.** -/
theorem Recorded.traceless (hr : Recorded state requests ok db₀ db h)
    (hsubmit : ∀ account, requests p ≠ .createChain account) :
    (∃ c eventId, Submitted p c eventId h) ∨ db = tables db₀ (Ledger.without p h) := by
  by_cases hnone : writesOf p h = []
  · exact Or.inr (hr.without hnone)
  · exact Or.inl (hr.submitted_of_writes hsubmit hnone)

/-- A reply that denies access to a chain. -/
def Reply.denied : Reply → Bool
  | .event (.error .chainAccessDenied) => true
  | .v1 (.error err) => err == mapLedgerError .chainAccessDenied
  | _ => false

/-- Who is denied has committed nothing. -/
theorem ReplyOk.denied {x : Setting} {reply : Reply} (hok : ReplyOk x p h reply)
    (hdenied : reply.denied = true) : writesOf p h = [] := by
  cases reply with
  | chain result => exact absurd hdenied (by simp [Reply.denied])
  | event result =>
    obtain ⟨account, req, -, hresult⟩ := hok
    cases result with
    | ok response => exact absurd hdenied (by simp [Reply.denied])
    | error err =>
      rcases hresult with hnone | ⟨-, rfl⟩
      · exact hnone
      · exact absurd hdenied (by simp [Reply.denied])
  | v1 result =>
    obtain ⟨account, key, body, -, hresult⟩ := hok
    cases result with
    | ok response => exact absurd hdenied (by simp [Reply.denied])
    | error err => exact hresult

/-- **What holds between two moments of a run**: an owner stays, the events added to an owned chain
are the owner's, the events added to any chain are of one account, and a request that is denied has
changed nothing. -/
structure Isolated (requests : Nat → Request) (db₀ : Db) (y z : LedgerConfig)
    (later : History schema) : Prop where
  history : z.shared.history = y.shared.history ++ later
  owner : ∀ c account, y.shared.db.owner? c = some account →
    z.shared.db.owner? c = some account
  added : ∀ c e, e ∈ z.shared.db.eventsOf c →
    e ∈ y.shared.db.eventsOf c ∨ ∃ p, Submitted p c e.eventId later
  owned : ∀ c account, y.shared.db.owner? c = some account →
    ∀ p eventId, Submitted p c eventId later → (requests p).accountId = account
  raced : ∀ c p q eventId eventId', Submitted p c eventId z.shared.history →
    Submitted q c eventId' z.shared.history → (requests p).accountId = (requests q).accountId
  denied : ∀ p reply, (z.procs p).1.result = some reply → reply.denied = true →
    writesOf p z.shared.history = [] ∧ z.shared.db = tables db₀ (without p z.shared.history)

/-- **Ownership isolation**, from any tables. -/
theorem ownership_isolation (state : AppState) (requests : Nat → Request) (db₀ : Db)
    (y z : LedgerConfig) (hy : Reach (system schema) (fun _ _ _ => True) (start state requests db₀) y)
    (hz : Reach (system schema) (fun _ _ _ => True) y z) :
    ∃ later, Isolated requests db₀ y z later := by
  have hx : (Setting.all state requests db₀).Reach (start state requests db₀) y := hy
  obtain ⟨hinv, -⟩ := ledger_reach hx
  obtain ⟨hinv', hreplies⟩ := ledger_reach (hx.trans hz)
  obtain ⟨later, hlater⟩ := ledger_history hx hz
  have hrec := hinv'
  rw [← hlater] at hrec
  have htables : tables db₀ y.shared.history = y.shared.db := hinv.replayed.symm
  have howned : ∀ c account, y.shared.db.owner? c = some account →
      z.shared.db.owner? c = some account ∧
        ∀ p eventId, Submitted p c eventId later → (requests p).accountId = account := by
    intro c account howner
    rw [← htables] at howner
    exact hrec.owned howner
  refine ⟨later, hlater.symm, fun c account howner => (howned c account howner).1, ?_,
    fun c account howner => (howned c account howner).2, ?_, ?_⟩
  · intro c e he
    rw [← htables]
    exact hrec.added he
  · intro c p q eventId eventId' hp hq
    have hp' := hinv'.owner_of_submitted hp
    rw [hinv'.owner_of_submitted hq] at hp'
    exact (Option.some.inj hp').symm
  · intro p reply hreply hdenied
    have hnone := (hreplies p reply hreply).denied hdenied
    exact ⟨hnone, hinv'.without hnone⟩

/-- Two accounts submit to one chain that is there without an owner. -/
def sampleRivals (p : Nat) : Request :=
  .submitEvent (Uuid.small (if p = 0 then 1 else 2))
    (sampleRequest (if p = 0 then "first" else "second"))

def sampleOwnerless : Db :=
  { Db.empty sampleCapabilities [] with chains := [⟨Uuid.small 9, none, none⟩] }

/-- The second has begun before the first adopts the chain. -/
theorem ownership_isolation_sampleRace :
    ∃ y z : LedgerConfig, (y.shared.db.owner? (Uuid.small 9) = some (Uuid.small 1) ∧
      (z.procs 1).1.result.any Reply.denied = true) ∧
        ∃ later, Isolated sampleRivals sampleOwnerless y z later := by
  have hrun : (((start sampleState sampleRivals sampleOwnerless).run (system schema)
      (fun _ _ _ => True) (sampleSteps 1 2 21 none ++ sampleSteps 0 17 20 none)).bind fun y =>
        (y.run (system schema) (fun _ _ _ => True) (sampleSteps 1 2 21 none)).map fun z =>
          (y.shared.db.owner? (Uuid.small 9), (z.procs 1).1.result.any Reply.denied)) =
            some (some (Uuid.small 1), true) := by decide +kernel
  obtain ⟨y, hy, hz⟩ := Option.bind_eq_some_iff.mp hrun
  obtain ⟨z, hz, hfacts⟩ := Reach.exists_of_run hz
  obtain ⟨howner, hdenied⟩ := Prod.mk.inj hfacts
  exact ⟨y, z, ⟨howner, hdenied⟩,
    ownership_isolation sampleState sampleRivals sampleOwnerless y z (.of_run hy) hz⟩

end EvidentLedger.Ledger
