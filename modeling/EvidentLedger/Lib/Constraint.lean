import EvidentLedger.Lib.Service

/-!
# What the row locks protect

A constraint speaks of one key at a time: a fact of the rows under the key, and a relation between
these rows at two moments. Where every statement that is issued, on tables that satisfy the constraint,
writes what satisfies it again and what is related to what was there, the committed tables satisfy it in
every state reached, whatever the programs are and however their statements interleave.

* `Guards` is the invariant. A transaction holds the keys of what it has written, and its view
  satisfies the constraint. Under a key of its own the committed rows do not change before it commits,
  and under any other key its view has the committed rows.
* A statement on the pool writes nothing here. It would not wait for the locks of an open transaction
  of the same program.

## Results

* `guards_step`: every call that issues no other statement keeps `Guards`.
* **`reach_constraint`**: the committed tables of two moments of a run satisfy the constraint and are
  related by it.
-/

namespace Lib.Transaction

open Lib.Interleave

variable {S : Schema} {α : Type}

/-- A fact of the rows under a key, and a relation between them at two moments. -/
structure Constraint (S : Schema) where
  Holds : S.Key → S.Db → Prop
  Rel : S.Key → S.Db → S.Db → Prop
  rel_refl : ∀ k db, Rel k db db
  rel_trans : ∀ {k db₁ db₂ db₃}, Rel k db₁ db₂ → Rel k db₂ db₃ → Rel k db₁ db₃
  holds_congr : ∀ {k db db'}, S.same k db db' → Holds k db → Holds k db'
  rel_congr : ∀ {k db₁ db₁' db₂ db₂'}, S.same k db₁ db₁' → S.same k db₂ db₂' → Rel k db₁ db₂ →
    Rel k db₁' db₂'

/-- Every statement with `P` keeps a constraint, and every statement locks what it writes and writes
nothing on the pool. -/
structure Constraint.Kept (R : Constraint S) (P : S.Sql → Prop) : Prop where
  holds : ∀ {s waits c now db a ks ws}, P s → S.effect s waits c now db = some (.ok (a, ks, ws)) →
    (∀ k, R.Holds k db) → ∀ k, R.Holds k (replay ws db)
  rel : ∀ {s waits c now db a ks ws}, P s → S.effect s waits c now db = some (.ok (a, ks, ws)) →
    (∀ k, R.Holds k db) → ∀ k, R.Rel k db (replay ws db)
  covered : ∀ {s waits c now db a ks ws}, S.effect s waits c now db = some (.ok (a, ks, ws)) →
    ∀ w ∈ ws, ∀ k ∈ S.keys w, k ∈ ks
  pool : ∀ {s waits c now db a ks ws}, S.onPool s = true →
    S.effect s waits c now db = some (.ok (a, ks, ws)) → ws = []

/-- An open transaction holds the keys of its writes, and its view satisfies the constraint. -/
structure Constraint.Views (R : Constraint S) (g : Shared S) (p : Nat) (tx : Tx S) : Prop where
  held : ∀ w ∈ tx.log, ∀ k ∈ S.keys w, g.holder k = some p
  holds : ∀ k, R.Holds k (view tx g)
  rel : ∀ k, R.Rel k g.db (view tx g)

/-- The committed tables satisfy the constraint, and so does every view. -/
structure Constraint.Guards (R : Constraint S) (g : Shared S) (locals : Nat → Local S) : Prop where
  holds : ∀ k, R.Holds k g.db
  views : ∀ p, ∀ tx ∈ locals p, R.Views g p tx

section Steps

variable {R : Constraint S} {P : S.Sql → Prop} {g g' : Shared S} {locals : Nat → Local S} {p q : Nat} {tx tx' : Tx S}
  {l l' : Local S} {log : List S.Write}

theorem same_replay_congr {k : S.Key} {db db' : S.Db} (h : S.same k db db') (log : List S.Write) :
    S.same k (replay log db) (replay log db') := by
  induction log generalizing db db' with
  | nil => exact h
  | cons w log ih => exact ih (S.same_congr h)

/-- A transaction that has written nothing. -/
theorem Constraint.views_nil (hg : ∀ k, R.Holds k g.db) (hlog : tx.log = []) : R.Views g p tx where
  held w hw := by
    rw [hlog] at hw
    exact absurd hw List.not_mem_nil
  holds k := by
    rw [view, hlog]
    exact hg k
  rel k := by
    rw [view, hlog]
    exact R.rel_refl k g.db

/-- The tables have not changed, and what is held stays held. -/
theorem Constraint.Views.of_db (h : R.Views g p tx) (hdb : g'.db = g.db)
    (hheld : ∀ k, g.holder k = some p → g'.holder k = some p) (hlog : tx'.log = tx.log) :
    R.Views g' p tx' where
  held w hw k hk := by
    rw [hlog] at hw
    exact hheld k (h.held w hw k hk)
  holds k := by
    rw [view, hlog, hdb]
    exact h.holds k
  rel k := by
    rw [view, hlog, hdb]
    exact h.rel k

/-- **Another transaction commits**: nothing has changed under the keys that are held here, and under
the others the view has what is committed. -/
theorem Constraint.Views.install (h : R.Views g p tx) (hnew : ∀ k, R.Holds k (replay log g.db))
    (hother : ∀ w ∈ log, ∀ k ∈ S.keys w, g.holder k ≠ some p) :
    R.Views (g.install q log) p tx := by
  have hsame : ∀ k, g.holder k = some p → S.same k g.db (replay log g.db) :=
    fun k hk => same_replay fun w hw hmem => hother w hw k hmem hk
  have huntouched : ∀ k, g.holder k ≠ some p →
      S.same k (replay log g.db) (view tx (g.install q log)) :=
    fun k hk => same_replay fun w hw hmem => hk (h.held w hw k hmem)
  refine ⟨h.held, fun k => ?_, fun k => ?_⟩
  · by_cases hk : g.holder k = some p
    · exact R.holds_congr (same_replay_congr (hsame k hk) tx.log) (h.holds k)
    · exact R.holds_congr (huntouched k hk) (hnew k)
  · by_cases hk : g.holder k = some p
    · exact R.rel_congr (hsame k hk) (same_replay_congr (hsame k hk) tx.log) (h.rel k)
    · exact R.rel_congr (S.same_refl k _) (huntouched k hk) (R.rel_refl k _)

/-- **A statement inside the transaction.** -/
theorem Constraint.Views.statement (hR : R.Kept P) (h : R.Views g p tx) {s : S.Sql} (hs : P s)
    {waits : S.Key → Bool} {c : S.Choice} {now : Int} {a : S.Res s} {ks : List S.Key}
    {ws : List S.Write} (he : S.effect s waits c now (view tx g) = some (.ok (a, ks, ws))) :
    R.Views (g.acquire p ks) p { tx with log := tx.log ++ ws } where
  held w hw k hk := by
    rcases List.mem_append.mp hw with hw | hw
    · exact acquire_held (h.held w hw k hk)
    · rw [acquire_holder, if_pos (hR.covered he w hw k hk)]
  holds k := by
    rw [view, acquire_db, replay_append]
    exact hR.holds hs he h.holds k
  rel k := by
    rw [view, acquire_db, replay_append]
    exact R.rel_trans (h.rel k) (hR.rel hs he h.holds k)

/-- The locks that `p` takes are not held by others. -/
theorem holder_acquire {ks : List S.Key} (hfree : ∀ k ∈ ks, g.waits p k = false) (hq : q ≠ p)
    {k : S.Key} (hk : g.holder k = some q) : (g.acquire p ks).holder k = some q := by
  rw [acquire_holder]
  by_cases hmem : k ∈ ks
  · rcases waits_eq_false.mp (hfree k hmem) with hnone | hown
    · rw [hnone] at hk
      exact absurd hk (by simp)
    · exact absurd (Option.some.inj (hk.symm.trans hown)) hq
  · rw [if_neg hmem]
    exact hk

/-- The state after a call, if the other transactions and the own one still have their views. -/
theorem Constraint.Guards.update (h : R.Guards g locals) (hg : ∀ k, R.Holds k g'.db)
    (hothers : ∀ q, q ≠ p → ∀ tx, R.Views g q tx → R.Views g' q tx)
    (hown : ∀ tx ∈ l', R.Views g' p tx) : R.Guards g' (Function.update locals p l') := by
  refine ⟨hg, fun q tx hq => ?_⟩
  by_cases hqp : q = p
  · subst hqp
    rw [Function.update_self] at hq
    exact hown tx hq
  · rw [Function.update_of_ne hqp] at hq
    exact hothers q hqp tx (h.views q tx hq)

/-- Nothing has changed in the tables, and nobody else has lost a lock. -/
theorem Constraint.Guards.calm (h : R.Guards g locals) (hdb : g'.db = g.db)
    (hheld : ∀ q, q ≠ p → ∀ k, g.holder k = some q → g'.holder k = some q)
    (hown : ∀ tx ∈ l', R.Views g' p tx) : R.Guards g' (Function.update locals p l') :=
  h.update (fun k => by rw [hdb]; exact h.holds k)
    (fun q hq _ hv => hv.of_db hdb (hheld q hq) rfl) hown

/-- **Every call with `P` keeps `Guards`**, and what is committed is related to what was. -/
theorem guards_step (hR : R.Kept P) (h : R.Guards g locals) {c : S.Choice} {call : Call S}
    {r : call.Answer} (hP : ∀ s, call = .sql s → P s) (he : exec p c call g (locals p) = some (r, g', l')) :
    R.Guards g' (Function.update locals p l') ∧ ∀ k, R.Rel k g.db g'.db := by
  have hrefl : ∀ k, R.Rel k g.db g.db := fun k => R.rel_refl k g.db
  have hnone : ∀ g' : Shared S, ∀ tx ∈ (none : Local S), R.Views g' p tx := fun _ _ h => nomatch h
  have hrelease : ∀ q, q ≠ p → ∀ k, g.holder k = some q → (g.release p).holder k = some q :=
    fun q hq k hk => (release_other hq k).mp hk
  cases call with
  | begin =>
    simp only [exec] at he
    split_ifs at he with hf
    · obtain ⟨-, rfl, rfl⟩ := he
      exact ⟨h.calm rfl (fun _ _ _ hk => hk) (h.views p), hrefl⟩
    · obtain ⟨-, rfl, rfl⟩ := he
      refine ⟨h.calm rfl (fun _ _ _ hk => hk) fun tx htx => ?_, hrefl⟩
      obtain rfl := Option.mem_some.mp htx
      exact Constraint.views_nil h.holds rfl
  | commit =>
    cases hl : locals p with
    | none =>
      rw [hl] at he
      obtain ⟨-, rfl, rfl⟩ := he
      exact ⟨h.calm rfl (fun _ _ _ hk => hk) (hnone _), hrefl⟩
    | some tx =>
      rw [hl] at he
      simp only [exec] at he
      split_ifs at he with hf ha
      · obtain ⟨-, rfl, rfl⟩ := he
        exact ⟨h.calm rfl hrelease (hnone _), hrefl⟩
      · obtain ⟨-, rfl, rfl⟩ := he
        exact ⟨h.calm rfl hrelease (hnone _), hrefl⟩
      · obtain ⟨-, rfl, rfl⟩ := he
        have hv := h.views p tx hl
        refine ⟨h.update hv.holds (fun q hq tx' hv' => ?_) (hnone _), hv.rel⟩
        have hinstalled : R.Views (g.install p tx.log) q tx' := by
          refine hv'.install hv.holds fun w hw k hk hheld => hq ?_
          exact Option.some.inj (hheld.symm.trans (hv.held w hw k hk))
        exact hinstalled.of_db rfl (fun k hk => (release_other hq k).mp hk) rfl
  | rollback =>
    obtain ⟨-, rfl, rfl⟩ := he
    exact ⟨h.calm rfl hrelease (hnone _), hrefl⟩
  | ask a =>
    obtain ⟨-, rfl, rfl⟩ := he
    exact ⟨h.calm rfl (fun _ _ _ hk => hk) (h.views p), hrefl⟩
  | sql s =>
    cases hs : S.onPool s with
    | true =>
      rw [exec_sql_pool hs] at he
      unfold execPool at he
      split_ifs at he
      · obtain ⟨-, rfl, rfl⟩ := he
        exact ⟨h.calm rfl (fun _ _ _ hk => hk) (h.views p), hrefl⟩
      · split at he
        · exact absurd he (by simp)
        · obtain ⟨-, rfl, rfl⟩ := he
          exact ⟨h.calm rfl (fun _ _ _ hk => hk) (h.views p), hrefl⟩
        · rename_i heff
          obtain ⟨-, rfl, rfl⟩ := he
          rw [hR.pool hs heff, install_nil]
          exact ⟨h.calm rfl (fun _ _ _ hk => hk) (h.views p), hrefl⟩
    | false =>
      cases hl : locals p with
      | none =>
        rw [hl] at he
        simp only [exec, hs] at he
        obtain ⟨-, rfl, rfl⟩ := he
        exact ⟨h.calm rfl (fun _ _ _ hk => hk) (hnone _), hrefl⟩
      | some tx =>
        rw [hl, exec_sql_tx hs] at he
        have hv := h.views p tx hl
        rcases execTx_cases he with ⟨a, ks, ws, heff, -, rfl, rfl⟩ | ⟨e, -, rfl, ⟨tx', rfl, hlog⟩, -⟩
        · refine ⟨h.calm rfl (fun q hq k hk => holder_acquire (S.effect_waits heff) hq hk)
            fun tx' htx => ?_, hrefl⟩
          obtain rfl := Option.mem_some.mp htx
          exact hv.statement hR (hP s rfl) heff
        · refine ⟨h.calm rfl (fun _ _ _ hk => hk) fun tx'' htx => ?_, hrefl⟩
          obtain rfl := Option.mem_some.mp htx
          exact hv.of_db rfl (fun _ hk => hk) hlog

end Steps

section Runs

variable {R : Constraint S} {P : S.Sql → Prop} {db₀ : S.Db} {prog : Nat → Prog (Call.Answer (S := S)) α}
  {ok : Nat → Call S → Shared S → Prop}
  {x y z : Config (Call.Answer (S := S)) (Shared S) (Local S) α}

/-- The invariant of a configuration. -/
abbrev Constraint.Safe (R : Constraint S)
    (x : Config (Call.Answer (S := S)) (Shared S) (Local S) α) : Prop :=
  R.Guards x.shared fun p => (x.procs p).2

theorem guards_reach (hR : R.Kept P) (hP : ∀ p s g, ok p (.sql s) g → P s) (h : R.Safe x)
    (hxy : Reach (system S) ok x y) :
    R.Safe y ∧ ∀ k, R.Rel k x.shared.db y.shared.db := by
  induction hxy with
  | refl => exact ⟨h, fun k => R.rel_refl k _⟩
  | @tail y z _ hstep ih =>
    obtain ⟨hy, hrel⟩ := ih
    cases hstep with
    | @mk g l l' q k r p c hp hok he =>
      have hl : (y.procs p).2 = l := by rw [hp]
      rw [← hl] at he
      have hissued : ∀ s, q = .sql s → P s := by
        rintro s rfl
        exact hP p s _ hok
      obtain ⟨hg, hrel'⟩ := guards_step hR hy hissued he
      refine ⟨?_, fun k => R.rel_trans (hrel k) (hrel' k)⟩
      have hlocals : (fun q => (Function.update y.procs p (k r, l') q).2) =
          Function.update (fun q => (y.procs q).2) p l' := by
        funext q
        by_cases hq : q = p
        · subst hq
          rw [Function.update_self, Function.update_self]
        · rw [Function.update_of_ne hq, Function.update_of_ne hq]
      rw [Constraint.Safe, hlocals]
      exact hg

theorem safe_startOn_constraint (h : ∀ k, R.Holds k db₀) : R.Safe (startOn db₀ prog) :=
  ⟨h, fun _ _ htx => nomatch htx⟩

/-- **The committed tables of two moments.** -/
theorem reach_constraint (hR : R.Kept P) (hP : ∀ p s g, ok p (.sql s) g → P s)
    (h : ∀ k, R.Holds k db₀)
    (hy : Reach (system S) ok (startOn db₀ prog) y) (hz : Reach (system S) ok y z) :
    (∀ k, R.Holds k y.shared.db) ∧ (∀ k, R.Holds k z.shared.db) ∧
      ∀ k, R.Rel k y.shared.db z.shared.db := by
  obtain ⟨hsafe, -⟩ := guards_reach hR hP (safe_startOn_constraint h) hy
  obtain ⟨hsafe', hrel⟩ := guards_reach hR hP hsafe hz
  exact ⟨hsafe.holds, hsafe'.holds, hrel⟩

end Runs

end Lib.Transaction
