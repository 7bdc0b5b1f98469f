import EvidentLedger.Lib.Held

/-!
# One program on its own

What a program does when no other takes a step: between its calls nothing changes, so an assertion
may say exactly what the tables are.

* `solitude` is the discipline of such a run, and `Alone` a triple under it; `Alone.reach` says that
  it holds of every run in which only this program steps.
* `exec_history` says what a call commits, and `history_of_solo` what is in the history of such a run.
* `Body` is the triple of the inside of one transaction over the tables `db`: its log so far, and of
  an early return its error. The rules `body_sql`, `body_pool` and `body_ask` reduce a call to the
  effect of its statement on one view, with all its answers and all its errors.
* `Computes` relates the inside of a transaction to a pure verdict: it ends early exactly with the
  error of the verdict. `computes_bind` says that the verdict of a sequence is the sequence of the
  verdicts, so a whole body is compared with one `do` block over the tables.
-/

namespace Lib.Transaction

open Lib.Interleave

/-! ## Solitude -/

section Solitude

variable {Q : Type} {R : Q → Type} {G L C α β : Type}

/-- Only program `p` steps. -/
def Solo (p : Nat) (j : Nat) (_ : Q) (_ : G) : Prop := j = p

instance (p j : Nat) (q : Q) (g : G) : Decidable (Solo p j q g) := inferInstanceAs (Decidable (j = p))

/-- Between the calls of `p` nothing changes. -/
def solitude (p : Nat) : Discipline G where
  Inv _ := True
  Rely j g g' := j = p → g' = g
  refl _ _ _ := rfl
  trans h h' hj := (h' hj).trans (h hj)

theorem stable_solitude {p : Nat} {P : L → G → Prop} : Stable (solitude p) p P := by
  intro l g g' hp _ hr _
  rw [hr rfl]
  exact hp

/-- Safe on its own. -/
abbrev Alone (sys : System R G L C) (p : Nat) (Pre : L → G → Prop) (prog : Prog R α)
    (Post : α → L → G → Prop) : Prop :=
  Triple sys (Solo p) (solitude p) p Pre prog Post

variable {sys : System R G L C} {p : Nat} {Pre : L → G → Prop}

theorem alone_ret {Post : α → L → G → Prop} {a : α} (h : ∀ l g, Pre l g → Post a l g) :
    Alone sys p Pre (.ret a) Post :=
  triple_ret stable_solitude fun l g hp _ => h l g hp

theorem alone_call {q : Q} {Mid : R q → L → G → Prop}
    (h : ∀ l g c r g' l', Pre l g → sys.exec p c q g l = some (r, g', l') → Mid r l' g') :
    Alone sys p Pre (Prog.call q) Mid :=
  triple_call stable_solitude (fun _ => stable_solitude) fun l g c r g' l' hp _ _ he =>
    ⟨⟨trivial, fun _ hj hp => absurd hp hj⟩, h l g c r g' l' hp he⟩

/-- What a program does is its own. -/
theorem alone_any {Q' : Prop} : ∀ {prog : Prog R α}, Alone sys p (fun _ _ => Q') prog fun _ _ _ => Q'
  | .ret _ => alone_ret fun _ _ hq => hq
  | .stmt _ _ => triple_stmt (M := fun _ _ _ => Q') stable_solitude
      (fun _ _ _ _ _ _ hq _ _ _ => ⟨⟨trivial, fun _ hj hp => absurd hp hj⟩, hq⟩)
      fun _ => alone_any

/-- **A run in which only `p` steps.** -/
theorem Alone.reach {x y : Config R G L α} {Post : α → L → G → Prop}
    (h : Alone sys p Pre (x.procs p).1 Post) (hx : Pre (x.procs p).2 x.shared)
    (hy : Reach sys (Solo p) x y) {a : α} (ha : (y.procs p).1.result = some a) :
    Post a (y.procs p).2 y.shared := by
  have hsafe : ∀ j, Safe sys (Solo p) (solitude p) j (fun a l g => j = p → Post a l g)
      (x.procs j).1 (x.procs j).2 x.shared := by
    intro j
    by_cases hj : j = p
    · subst hj
      exact (h _ _ hx trivial).mono fun _ _ _ hpost _ => hpost
    · exact safe_of_idle (fun _ _ hq => hj hq) fun _ _ _ hp => absurd hp hj
  obtain ⟨-, hsafe⟩ := reach_safe (D := solitude p) trivial hsafe hy
  exact (hsafe p).result trivial ha rfl

end Solitude

/-! ## Histories -/

section Histories

variable {S : Schema} {admits : Nat → S.Choice → Call S → Shared S → Bool} {p : Nat} {α : Type}

theorem record_cases (p : Nat) (log : List S.Write) (h : History S) :
    record p log h = h ∨ log ≠ [] ∧ record p log h = h ++ [(p, log)] := by
  unfold record
  by_cases hlog : log = []
  · exact Or.inl (if_pos (by simp [hlog]))
  · exact Or.inr ⟨hlog, if_neg (by simpa using hlog)⟩

/-- **A call commits for its own program**, or not at all. -/
theorem exec_history {c : S.Choice} {q : Call S} {g g' : Shared S} {l l' : Local S} {r : q.Answer}
    (he : exec p c q g l = some (r, g', l')) :
    g'.history = g.history ∨ ∃ log, log ≠ [] ∧ g'.history = g.history ++ [(p, log)] := by
  have hcases : ∀ ws, record p ws g.history = g.history ∨
      ∃ log, log ≠ [] ∧ record p ws g.history = g.history ++ [(p, log)] := fun ws =>
    (record_cases p ws g.history).imp id fun h => ⟨ws, h⟩
  cases q with
  | begin =>
    simp only [exec] at he
    split_ifs at he <;> exact Or.inl (by cases he; rfl)
  | rollback => exact Or.inl (by cases he; rfl)
  | ask a => exact Or.inl (by cases he; rfl)
  | commit =>
    cases l with
    | none => exact Or.inl (by cases he; rfl)
    | some tx =>
      simp only [exec] at he
      split_ifs at he
      · exact Or.inl (by cases he; rfl)
      · exact Or.inl (by cases he; rfl)
      · cases he
        exact hcases tx.log
  | sql s =>
    cases hs : S.onPool s with
    | true =>
      rw [exec_sql_pool hs] at he
      unfold execPool at he
      split_ifs at he
      · exact Or.inl (by cases he; rfl)
      · split at he
        · exact absurd he (by simp)
        · exact Or.inl (by cases he; rfl)
        · cases he
          exact hcases _
    | false =>
      cases l with
      | none =>
        simp only [exec, hs] at he
        exact Or.inl (by cases he; rfl)
      | some tx =>
        rw [exec_sql_tx hs] at he
        rcases execTx_cases he with ⟨a, ks, ws, -, -, rfl, -⟩ | ⟨e, -, rfl, -, -⟩
        · exact Or.inl rfl
        · exact Or.inl rfl

/-- **What a program has committed on its own**: the history since has its entries. -/
theorem history_of_solo {x y : Config (Call.Answer (S := S)) (Shared S) (Local S) α}
    (h : Reach ((system S).restrict admits) (Solo p) x y) :
    ∃ rest, y.shared.history = x.shared.history ++ rest ∧ ∀ entry ∈ rest, entry.1 = p ∧ entry.2 ≠ [] := by
  induction h with
  | refl => exact ⟨[], (List.append_nil _).symm, by simp⟩
  | tail _ hstep ih =>
    obtain ⟨rest, hrest, hown⟩ := ih
    cases hstep with
    | mk j c hp hok he =>
      obtain rfl : j = p := hok
      rcases exec_history (System.exec_of_restrict he).2 with hsame | ⟨log, hne, hmore⟩
      · exact ⟨rest, hsame.trans hrest, hown⟩
      · refine ⟨rest ++ [(j, log)], ?_, ?_⟩
        · rw [← List.append_assoc, ← hrest]
          exact hmore
        · intro entry hentry
          rcases List.mem_append.mp hentry with hentry | hentry
          · exact hown entry hentry
          · obtain rfl := List.mem_singleton.mp hentry
            exact ⟨rfl, hne⟩
end Histories

/-! ## One transaction -/

section Body

variable {S : Schema} {admits : Nat → S.Choice → Call S → Shared S → Bool} {p : Nat} {now : Int}
  {db : S.Db} {h : History S} {ε ε' α β : Type}

/-- Inside a transaction over the tables `db`, with this log. -/
structure At (now : Int) (db : S.Db) (h : History S) (log : List S.Write) (l : Local S)
    (g : Shared S) : Prop where
  tx : l = some ⟨log, now, false⟩
  db : g.db = db
  history : g.history = h

/-- What the end of the inside of a transaction says. -/
def Ends (now : Int) (db : S.Db) (h : History S) (Post : α → List S.Write → Prop) (E : ε → Prop) :
    Except ε α → Local S → Shared S → Prop
  | .ok a, l, g => ∃ log, Post a log ∧ At now db h log l g
  | .error e, _, g => E e ∧ g.db = db ∧ g.history = h

/-- **The inside of a transaction on its own**: from a log in `Pre` to a value and a log in `Post`, or
to an error in `E`. -/
def Body (admits : Nat → S.Choice → Call S → Shared S → Bool) (p : Nat) (now : Int) (db : S.Db)
    (h : History S) (Pre : List S.Write → Prop) (prog : Program S ε α)
    (Post : α → List S.Write → Prop) (E : ε → Prop) : Prop :=
  Alone ((system S).restrict admits) p (fun l g => ∃ log, Pre log ∧ At now db h log l g) prog.run
    (Ends now db h Post E)

variable {Pre : List S.Write → Prop} {Post : α → List S.Write → Prop} {E : ε → Prop}

theorem body_pure {a : α} (hpost : ∀ log, Pre log → Post a log) :
    Body admits p now db h Pre (pure a : Program S ε α) Post E :=
  alone_ret fun _ _ ⟨log, hpre, hat⟩ => ⟨log, hpost log hpre, hat⟩

theorem body_throw {e : ε} (herr : ∀ log, Pre log → E e) :
    Body admits p now db h Pre (throw e : Program S ε α) Post E :=
  alone_ret fun _ _ ⟨log, hpre, hat⟩ => ⟨herr log hpre, hat.db, hat.history⟩

/-- **Sequence with early return.** -/
theorem body_bind {Mid : α → List S.Write → Prop} {Post : β → List S.Write → Prop}
    {prog : Program S ε α} {f : α → Program S ε β} (hprog : Body admits p now db h Pre prog Mid E)
    (hf : ∀ a, Body admits p now db h (Mid a) (f a) Post E) :
    Body admits p now db h Pre (prog >>= f) Post E := by
  unfold Body
  rw [ExceptT.run_bind]
  refine triple_bind hprog fun r => ?_
  cases r with
  | ok a => exact hf a
  | error e => exact alone_ret fun _ _ hend => hend

theorem body_pre {Pre' : List S.Write → Prop} {prog : Program S ε α}
    (hpre : ∀ log, Pre' log → Pre log) (hprog : Body admits p now db h Pre prog Post E) :
    Body admits p now db h Pre' prog Post E :=
  triple_pre (fun _ _ ⟨log, hlog, hat⟩ _ => ⟨log, hpre log hlog, hat⟩) hprog

theorem body_post {Post' : α → List S.Write → Prop} {E' : ε → Prop} {prog : Program S ε α}
    (hprog : Body admits p now db h Pre prog Post E) (hpost : ∀ a log, Post a log → Post' a log)
    (herr : ∀ e, E e → E' e) : Body admits p now db h Pre prog Post' E' := by
  refine triple_post hprog fun r l g hend => ?_
  cases r with
  | ok a =>
    obtain ⟨log, hlog, hat⟩ := hend
    exact ⟨log, hpost a log hlog, hat⟩
  | error e => exact ⟨herr e hend.1, hend.2⟩

theorem body_and {P : Prop} {prog : Program S ε α}
    (hprog : P → Body admits p now db h Pre prog Post E) :
    Body admits p now db h (fun log => P ∧ Pre log) prog Post E :=
  triple_pre (fun _ _ ⟨log, ⟨hP, hlog⟩, hat⟩ _ => ⟨hP, log, hlog, hat⟩)
    (triple_and hprog)

theorem body_mapErr {f : ε → ε'} {E : ε' → Prop} {prog : Program S ε α}
    (hprog : Body admits p now db h Pre prog Post fun e => E (f e)) :
    Body admits p now db h Pre (ExceptT.mk (prog.run >>= fun r => pure (r.mapError f)) :
      Program S ε' α) Post E := by
  refine triple_bind hprog fun r => ?_
  cases r with
  | ok a => exact alone_ret fun _ _ hend => hend
  | error e => exact alone_ret fun _ _ hend => hend

/-- A call whose failure ends the program. -/
theorem body_attempt {f : DbError → ε} {prog : Prog (Call.Answer (S := S)) (Except DbError α)}
    (hprog : Alone ((system S).restrict admits) p (fun l g => ∃ log, Pre log ∧ At now db h log l g)
      prog (Ends now db h Post fun e => E (f e))) :
    Body admits p now db h Pre (attempt f prog) Post E := by
  refine triple_bind hprog fun r => ?_
  cases r with
  | ok a => exact alone_ret fun _ _ hend => hend
  | error e => exact alone_ret fun _ _ hend => hend

/-- **A statement**, where no admitted choice fails it. -/
theorem body_sql {s : S.Sql} {f : DbError → ε} {Post : S.Res s → List S.Write → Prop}
    (hs : S.onPool s = false) (hfails : ∀ c g, admits p c (.sql s) g = true → S.fails c = false)
    (hok : ∀ log waits c a ks ws, Pre log →
      S.effect s waits c now (replay log db) = some (.ok (a, ks, ws)) → Post a (log ++ ws))
    (herr : ∀ log waits c e, Pre log →
      S.effect s waits c now (replay log db) = some (.error e) → E (f e)) :
    Body admits p now db h Pre (sql f s) Post E := by
  refine body_attempt (alone_call ?_)
  rintro l g c r g' l' ⟨log, hpre, rfl, rfl, rfl⟩ he
  obtain ⟨hadm, he⟩ := System.exec_of_restrict he
  have he' : execTx p c s g ⟨log, now, false⟩ = some (r, g', l') := (exec_sql_tx hs).symm.trans he
  rcases execTx_cases he' with ⟨a, ks, ws, heff, rfl, rfl, rfl⟩ | ⟨e, rfl, rfl, -, ⟨hf, -⟩ | heff⟩
  · exact ⟨log ++ ws, hok log _ c a ks ws hpre heff, rfl, rfl, rfl⟩
  · rw [hfails c _ hadm] at hf
    exact absurd hf (by simp)
  · exact ⟨herr log _ c e hpre heff, rfl, rfl⟩

/-- **A read on the pool.** -/
theorem body_pool {s : S.Sql} {f : DbError → ε} {Post : S.Res s → List S.Write → Prop}
    (hs : S.onPool s = true) (hfails : ∀ c g, admits p c (.sql s) g = true → S.fails c = false)
    (hok : ∀ log waits c a ks ws, Pre log →
      S.effect s waits c (S.time c) db = some (.ok (a, ks, ws)) → ws = [] ∧ Post a log)
    (herr : ∀ log waits c e, Pre log →
      S.effect s waits c (S.time c) db = some (.error e) → E (f e)) :
    Body admits p now db h Pre (sql f s) Post E := by
  refine body_attempt (alone_call ?_)
  rintro l g c r g' l' ⟨log, hpre, rfl, rfl, rfl⟩ he
  obtain ⟨hadm, he⟩ := System.exec_of_restrict he
  have he' : execPool p c s g (some ⟨log, now, false⟩) = some (r, g', l') :=
    (exec_sql_pool hs).symm.trans he
  unfold execPool at he'
  rw [hfails c _ hadm] at he'
  cases heff : S.effect s (g.waits p) c (S.time c) g.db with
  | none => rw [heff] at he'; exact absurd he' (by simp)
  | some out =>
    rw [heff] at he'
    cases out with
    | error e =>
      obtain ⟨rfl, rfl, rfl⟩ := he'
      exact ⟨herr log _ c e hpre heff, rfl, rfl⟩
    | ok out =>
      obtain ⟨a, ks, ws⟩ := out
      obtain ⟨rfl, rfl, rfl⟩ := he'
      obtain ⟨rfl, hpost⟩ := hok log _ c a ks ws hpre heff
      exact ⟨log, hpost, rfl, rfl, rfl⟩

theorem body_ask {a : S.Ask} {Post : S.Ans a → List S.Write → Prop}
    (hpost : ∀ log c g, Pre log → admits p c (.ask a) g = true → Post (S.answer c a) log) :
    Body admits p now db h Pre (ask a : Program S ε (S.Ans a)) Post E := by
  have hcall : Alone ((system S).restrict admits) p (fun l g => ∃ log, Pre log ∧
      At now db h log l g) (Prog.call (Call.ask a))
        fun r l g => ∃ log, Post r log ∧ At now db h log l g := by
    refine alone_call ?_
    rintro l g c r g' l' ⟨log, hpre, hat⟩ he
    obtain ⟨hadm, he⟩ := System.exec_of_restrict he
    have he' : some (S.answer c a, g, l) = some (r, g', l') := he
    obtain ⟨rfl, rfl, rfl⟩ := he'
    exact ⟨log, hpost log c g hpre hadm, hat⟩
  exact triple_bind hcall fun r => alone_ret fun _ _ hend => hend

/-- **An early return drops the transaction.** -/
theorem body_orRollback {prog : Program S ε α} (hprog : Body admits p now db h Pre prog Post E) :
    Body admits p now db h Pre (orRollback prog) Post E := by
  refine triple_bind hprog fun r => ?_
  cases r with
  | ok a => exact alone_ret fun _ _ hend => hend
  | error e =>
    have hcall : Alone ((system S).restrict admits) p (Ends now db h Post E (.error e))
        (Prog.call Call.rollback) fun _ => Ends now db h Post E (.error e) := by
      refine alone_call ?_
      rintro l g c r g' l' hend he
      obtain ⟨-, he⟩ := System.exec_of_restrict he
      have he' : some ((), g.release p, (none : Local S)) = some (r, g', l') := he
      obtain ⟨rfl, rfl, rfl⟩ := he'
      exact hend
    exact triple_bind hcall fun _ => alone_ret fun _ _ hend => hend

theorem body_exists {ι : Type} {Pre : ι → List S.Write → Prop} {prog : Program S ε α}
    (hprog : ∀ i, Body admits p now db h (Pre i) prog Post E) :
    Body admits p now db h (fun log => ∃ i, Pre i log) prog Post E :=
  triple_pre (fun _ _ ⟨log, ⟨i, hlog⟩, hat⟩ _ => ⟨i, log, hlog, hat⟩) (triple_exists hprog)

end Body

/-! ## Verdicts -/

section Computes

variable {S : Schema} {admits : Nat → S.Choice → Call S → Shared S → Bool} {p : Nat} {now : Int}
  {db : S.Db} {h : History S} {ε ε' α β γ δ : Type}

/-- **The program ends as the verdict says**: early with its error, or with a value and a view of the
tables that `Post` relates to the value of the verdict. -/
def Computes (admits : Nat → S.Choice → Call S → Shared S → Bool) (p : Nat) (now : Int) (db : S.Db)
    (h : History S) (Pre : S.Db → Prop) (verdict : Except ε γ) (prog : Program S ε α)
    (Post : γ → α → S.Db → Prop) : Prop :=
  Body admits p now db h (fun log => Pre (replay log db)) prog
    (fun a log => ∃ v, verdict = .ok v ∧ Post v a (replay log db)) fun e => verdict = .error e

variable {Pre : S.Db → Prop} {verdict : Except ε γ} {prog : Program S ε α}
  {Post : γ → α → S.Db → Prop}

theorem computes_pure {v : γ} {a : α} (hpost : ∀ view, Pre view → Post v a view) :
    Computes admits p now db h Pre (.ok v : Except ε γ) (pure a) Post :=
  body_pure fun _ hpre => ⟨v, rfl, hpost _ hpre⟩

/-- **The verdict of a sequence is the sequence of the verdicts.** -/
theorem computes_bind {o : Except ε γ} {n : γ → Except ε δ} {M : γ → α → S.Db → Prop}
    {f : α → Program S ε β} {Post : δ → β → S.Db → Prop}
    (hprog : Computes admits p now db h Pre o prog M)
    (hf : ∀ v a, o = .ok v → Computes admits p now db h (M v a) (n v) (f a) Post) :
    Computes admits p now db h Pre (o >>= n) (prog >>= f) Post := by
  refine body_bind (body_post hprog (fun _ _ hmid => hmid) ?_) fun a =>
    body_exists fun v => body_and fun hv => ?_
  · rintro e rfl
    rfl
  · rw [hv]
    exact hf v a hv

theorem computes_pre {P Pre' : S.Db → Prop} (hpre : ∀ view, Pre' view → P view)
    (hprog : Computes admits p now db h P verdict prog Post) :
    Computes admits p now db h Pre' verdict prog Post :=
  body_pre (fun _ hlog => hpre _ hlog) hprog

theorem computes_post {Post' : γ → α → S.Db → Prop}
    (hprog : Computes admits p now db h Pre verdict prog Post)
    (hpost : ∀ v a view, Post v a view → Post' v a view) :
    Computes admits p now db h Pre verdict prog Post' :=
  body_post hprog (fun _ _ ⟨v, hv, hlog⟩ => ⟨v, hv, hpost _ _ _ hlog⟩) fun _ he => he

theorem computes_and {P : Prop} (hprog : P → Computes admits p now db h Pre verdict prog Post) :
    Computes admits p now db h (fun view => P ∧ Pre view) verdict prog Post :=
  body_and hprog

theorem computes_mapErr {f : ε → ε'} (hprog : Computes admits p now db h Pre verdict prog Post) :
    Computes admits p now db h Pre (verdict.mapError f) (ExceptT.mk (prog.run >>= fun r =>
      pure (r.mapError f)) : Program S ε' α) Post := by
  refine body_mapErr (body_post hprog ?_ ?_)
  · rintro a log ⟨v, rfl, hlog⟩
    exact ⟨v, rfl, hlog⟩
  · rintro e rfl
    rfl

/-- **A statement.** -/
theorem computes_sql {s : S.Sql} {f : DbError → ε} {Post : γ → S.Res s → S.Db → Prop}
    (hs : S.onPool s = false) (hfails : ∀ c g, admits p c (.sql s) g = true → S.fails c = false)
    (hok : ∀ view waits c a ks ws, Pre view →
      S.effect s waits c now view = some (.ok (a, ks, ws)) →
        ∃ v, verdict = .ok v ∧ Post v a (replay ws view))
    (herr : ∀ view waits c e, Pre view → S.effect s waits c now view = some (.error e) →
      verdict = .error (f e)) :
    Computes admits p now db h Pre verdict (sql f s) Post := by
  refine body_sql hs hfails (fun log waits c a ks ws hpre he => ?_) fun log waits c e hpre he =>
    herr _ waits c e hpre he
  rw [replay_append]
  exact hok _ waits c a ks ws hpre he

theorem computes_pool {s : S.Sql} {f : DbError → ε} {Post : γ → S.Res s → S.Db → Prop}
    (hs : S.onPool s = true) (hfails : ∀ c g, admits p c (.sql s) g = true → S.fails c = false)
    (hok : ∀ view waits c a ks ws, Pre view →
      S.effect s waits c (S.time c) db = some (.ok (a, ks, ws)) →
        ws = [] ∧ ∃ v, verdict = .ok v ∧ Post v a view)
    (herr : ∀ waits c e, S.effect s waits c (S.time c) db = some (.error e) →
      verdict = .error (f e)) :
    Computes admits p now db h Pre verdict (sql f s) Post :=
  body_pool hs hfails (fun _ waits c a ks ws hpre he => hok _ waits c a ks ws hpre he)
    fun _ waits c e _ he => herr waits c e he

theorem computes_ask {a : S.Ask} {v : γ} {Post : γ → S.Ans a → S.Db → Prop}
    (hpost : ∀ view c g, Pre view → admits p c (.ask a) g = true → Post v (S.answer c a) view) :
    Computes admits p now db h Pre (.ok v : Except ε γ) (ask a) Post :=
  body_ask fun _ c g hpre hadm => ⟨v, rfl, hpost _ c g hpre hadm⟩

end Computes

/-! ## Around the transaction -/

section Outside

variable {S : Schema} {admits : Nat → S.Choice → Call S → Shared S → Bool} {p : Nat} {now : Int}
  {db : S.Db} {h : History S} {ε α β γ : Type}

/-- Outside any transaction, over these tables. -/
structure Idle (db : S.Db) (h : History S) (l : Local S) (g : Shared S) : Prop where
  tx : l = none
  db : g.db = db
  history : g.history = h

/-- A program that ends early, or goes on. -/
theorem alone_then {Pre : Local S → Shared S → Prop} {M : Except ε α → Local S → Shared S → Prop}
    {Post : Except ε β → Local S → Shared S → Prop} {prog : Program S ε α}
    {f : α → Program S ε β} (hprog : Alone ((system S).restrict admits) p Pre prog.run M)
    (hf : ∀ a, Alone ((system S).restrict admits) p (M (.ok a)) (f a).run Post)
    (herr : ∀ e l g, M (.error e) l g → Post (.error e) l g) :
    Alone ((system S).restrict admits) p Pre (prog >>= f).run Post := by
  rw [ExceptT.run_bind]
  refine triple_bind hprog fun r => ?_
  cases r with
  | ok a => exact hf a
  | error e => exact alone_ret fun l g hmid => herr e l g hmid

/-- A read on the pool. -/
theorem alone_read {s : S.Sql} {f : DbError → ε} {Q : Except ε (S.Res s) → Prop}
    (hs : S.onPool s = true) (hfails : ∀ c g, admits p c (.sql s) g = true → S.fails c = false)
    (hok : ∀ waits c a ks ws, S.effect s waits c (S.time c) db = some (.ok (a, ks, ws)) →
      ws = [] ∧ Q (.ok a))
    (herr : ∀ waits c e, S.effect s waits c (S.time c) db = some (.error e) → Q (.error (f e))) :
    Alone ((system S).restrict admits) p (Idle db h) (sql f s).run
      fun r l g => Q r ∧ Idle db h l g := by
  refine triple_bind (M := fun r l g => Q (r.mapError f) ∧ Idle db h l g)
    (alone_call ?_) fun r => alone_ret fun _ _ hpost => hpost
  rintro l g c r g' l' ⟨rfl, rfl, rfl⟩ he
  obtain ⟨hadm, he⟩ := System.exec_of_restrict he
  have he' : execPool p c s g none = some (r, g', l') := (exec_sql_pool hs).symm.trans he
  unfold execPool at he'
  rw [hfails c _ hadm] at he'
  cases heff : S.effect s (g.waits p) c (S.time c) g.db with
  | none => rw [heff] at he'; exact absurd he' (by simp)
  | some out =>
    rw [heff] at he'
    cases out with
    | error e =>
      obtain ⟨rfl, rfl, rfl⟩ := he'
      exact ⟨herr _ c e heff, rfl, rfl, rfl⟩
    | ok out =>
      obtain ⟨a, ks, ws⟩ := out
      obtain ⟨rfl, rfl, rfl⟩ := he'
      obtain ⟨rfl, hQ⟩ := hok _ c a ks ws heff
      exact ⟨hQ, rfl, rfl, rfl⟩

/-- **`begin`**, at its time. -/
theorem alone_begin {f : DbError → ε}
    (hadm : ∀ c g, admits p c .begin g = true → S.fails c = false ∧ S.time c = now) :
    Alone ((system S).restrict admits) p (Idle db h) (beginTx f).run
      fun r l g => r = .ok () ∧ At now db h [] l g := by
  refine triple_bind (M := fun r l g => r = .ok () ∧ At now db h [] l g) (alone_call ?_)
    fun r => alone_ret ?_
  · rintro l g c r g' l' ⟨rfl, rfl, rfl⟩ he
    obtain ⟨ha, he⟩ := System.exec_of_restrict he
    obtain ⟨hf, rfl⟩ := hadm c g ha
    have he' : exec p c .begin g none = some (r, g', l') := he
    simp only [exec, hf, Bool.false_eq_true, if_false] at he'
    obtain ⟨rfl, rfl, rfl⟩ := he'
    exact ⟨rfl, rfl, rfl, rfl⟩
  · rintro l g ⟨rfl, hat⟩
    exact ⟨rfl, hat⟩

/-- **`commit`**: the view becomes the tables. -/
theorem alone_commit {f : DbError → ε} {P : S.Db → Prop}
    (hfails : ∀ c g, admits p c .commit g = true → S.fails c = false) :
    Alone ((system S).restrict admits) p
      (fun l g => ∃ log, P (replay log db) ∧ At now db h log l g) (commitTx f).run
      fun r _ g => r = .ok () ∧ P g.db := by
  refine triple_bind (M := fun r _ g => r = .ok () ∧ P g.db) (alone_call ?_)
    fun r => alone_ret ?_
  · rintro l g c r g' l' ⟨log, hpre, rfl, rfl, rfl⟩ he
    obtain ⟨ha, he⟩ := System.exec_of_restrict he
    have he' : exec p c .commit g (some ⟨log, now, false⟩) = some (r, g', l') := he
    simp only [exec, hfails c g ha, Bool.false_eq_true, if_false] at he'
    obtain ⟨rfl, rfl, rfl⟩ := he'
    exact ⟨rfl, hpre⟩
  · rintro l g ⟨rfl, hpre⟩
    exact ⟨rfl, hpre⟩

end Outside

end Lib.Transaction
