import EvidentLedger.Lib.Held

/-!
# The shape of a program

What can be read off a program without running it: which calls it issues, which values it may
return, and what an answer leads to. These are predicates over all answers, so they hold in every
run, also where no contract of the answers is known.

* `Only P`: every call satisfies `P`. `Once P`: after a call with `P` there is no other.
* `Leaves P`: every value it may return satisfies `P`.
* `Leads T P`: after an answer with `T` it returns a value with `P`, whatever it is told then.
* Each has a rule for a sequence; the rules for programs with early returns follow, where
  `Fails C` says that such a program ends with an error in `C`.
* `reach_shape`: what a program keeps from call to call it keeps along a run.
* `reach_of_only`: a run of programs whose calls satisfy `P` is a run under `P`.
-/

namespace Lib.Interleave

variable {Q : Type} {R : Q → Type} {α β : Type}

namespace Prog

/-- Every call satisfies `P`. -/
def Only (P : Q → Prop) : Prog R α → Prop
  | ret _ => True
  | stmt q k => P q ∧ ∀ r, Only P (k r)

/-- Every value that may be returned satisfies `P`. -/
def Leaves (P : α → Prop) : Prog R α → Prop
  | ret a => P a
  | stmt _ k => ∀ r, Leaves P (k r)

/-- After an answer with `T` a value with `P` is returned. -/
def Leads (T : (q : Q) → R q → Prop) (P : α → Prop) : Prog R α → Prop
  | ret _ => True
  | stmt q k => ∀ r, (T q r → Leaves P (k r)) ∧ Leads T P (k r)

/-- After a call with `P` there is no other. -/
def Once (P : Q → Prop) : Prog R α → Prop
  | ret _ => True
  | stmt q k => ∀ r, (P q → Only (fun q => ¬ P q) (k r)) ∧ Once P (k r)

variable {P P' : Q → Prop} {T : (q : Q) → R q → Prop} {C : α → Prop} {C' : β → Prop}

theorem Only.mono (hP : ∀ q, P q → P' q) : ∀ {prog : Prog R α}, Only P prog → Only P' prog
  | ret _, _ => trivial
  | stmt q _, h => ⟨hP q h.1, fun r => Only.mono hP (h.2 r)⟩

theorem only_bind {f : α → Prog R β} (hf : ∀ a, Only P (f a)) :
    ∀ {prog : Prog R α}, Only P prog → Only P (prog >>= f)
  | ret a, _ => hf a
  | stmt _ _, h => ⟨h.1, fun r => only_bind hf (h.2 r)⟩

theorem leaves_bind {f : α → Prog R β} (hf : ∀ a, C a → Leaves C' (f a)) :
    ∀ {prog : Prog R α}, Leaves C prog → Leaves C' (prog >>= f)
  | ret a, h => hf a h
  | stmt _ _, h => fun r => leaves_bind hf (h r)

theorem leads_bind {f : α → Prog R β} (hC : ∀ a, C a → Leaves C' (f a))
    (hf : ∀ a, Leads T C' (f a)) : ∀ {prog : Prog R α}, Leads T C prog → Leads T C' (prog >>= f)
  | ret a, _ => hf a
  | stmt _ _, h => fun r => ⟨fun ht => leaves_bind hC ((h r).1 ht), leads_bind hC hf (h r).2⟩

theorem leads_of_only : ∀ {prog : Prog R α}, Only (fun q => ∀ r, ¬ T q r) prog → Leads T C prog
  | ret _, _ => trivial
  | stmt _ _, h => fun r => ⟨fun ht => absurd ht (h.1 r), leads_of_only (h.2 r)⟩

theorem once_of_only : ∀ {prog : Prog R α}, Only (fun q => ¬ P q) prog → Once P prog
  | ret _, _ => trivial
  | stmt _ _, h => fun r => ⟨fun hq => absurd hq h.1, once_of_only (h.2 r)⟩

/-- Nothing after it. -/
theorem once_bind {f : α → Prog R β} (hf : ∀ a, Only (fun q => ¬ P q) (f a)) :
    ∀ {prog : Prog R α}, Once P prog → Once P (prog >>= f)
  | ret a, _ => once_of_only (hf a)
  | stmt _ _, h => fun r => ⟨fun hq => only_bind hf ((h r).1 hq), once_bind hf (h r).2⟩

/-- Nothing before it. -/
theorem once_bind_of_only {f : α → Prog R β} (hf : ∀ a, Once P (f a)) :
    ∀ {prog : Prog R α}, Only (fun q => ¬ P q) prog → Once P (prog >>= f)
  | ret a, _ => hf a
  | stmt _ _, h => fun r => ⟨fun hq => absurd hq h.1, once_bind_of_only hf (h.2 r)⟩

theorem Leaves.result {prog : Prog R α} {a : α} (h : Leaves C prog) (ha : prog.result = some a) :
    C a := by
  cases prog with
  | ret b =>
    obtain rfl := Option.some.inj ha
    exact h
  | stmt q k => exact absurd ha (by simp [Prog.result])

end Prog

/-- **What a program keeps from call to call it keeps along a run**, with its local state. -/
theorem reach_shape {G L C : Type} {sys : System R G L C} {ok : Nat → Q → G → Prop} {p : Nat}
    {Φ : Prog R α → L → Prop} (hstep : ∀ c q k r g g' l l', Φ (.stmt q k) l →
      sys.exec p c q g l = some (r, g', l') → Φ (k r) l')
    {x y : Config R G L α} (h : Reach sys ok x y) (hx : Φ (x.procs p).1 (x.procs p).2) :
    Φ (y.procs p).1 (y.procs p).2 := by
  induction h with
  | refl => exact hx
  | tail _ hs ih =>
    cases hs with
    | mk q c hp hok he =>
      by_cases hq : p = q
      · subst hq
        rw [hp] at ih
        simpa using hstep _ _ _ _ _ _ _ _ ih he
      · simpa [Function.update_of_ne hq] using ih

/-- **A run of programs whose calls satisfy `P`** is a run under `P`. -/
theorem reach_of_only {G L C : Type} {sys : System R G L C} {ok : Nat → Q → G → Prop} {P : Q → Prop}
    {x y : Config R G L α} (hx : ∀ p, (x.procs p).1.Only P) (h : Reach sys ok x y) :
    Reach sys (fun p q g => ok p q g ∧ P q) x y := by
  induction h with
  | refl => exact .refl
  | @tail y z hy hs ih =>
    have hprogs : ∀ p, (y.procs p).1.Only P := fun p =>
      reach_shape (Φ := fun prog _ => prog.Only P) (fun _ _ _ _ _ _ _ _ hprog _ => hprog.2 _) hy (hx p)
    refine ih.tail ?_
    cases hs with
    | mk p c hp hok he =>
      have hcall := hprogs p
      rw [hp] at hcall
      exact .mk p c hp ⟨hok, hcall.1⟩ he

end Lib.Interleave

namespace Lib.Transaction

open Lib.Interleave Lib.Interleave.Prog

variable {S : Schema} {ε α β : Type} {P : Call S → Prop} {T : (q : Call S) → q.Answer → Prop}
  {C : ε → Prop}

/-! ## Programs with early returns -/

/-- An error in `C`. -/
def Fails (C : ε → Prop) (r : Except ε α) : Prop := ∃ e, r = .error e ∧ C e

theorem only_seq {prog : Program S ε α} {f : α → Program S ε β} (h : Only P prog.run)
    (hf : ∀ a, Only P (f a).run) : Only P (prog >>= f).run := by
  rw [ExceptT.run_bind]
  refine only_bind (fun r => ?_) h
  cases r with
  | ok a => exact hf a
  | error e => exact trivial

theorem only_call {q : Call S} (h : P q) : Only P (Prog.call (R := Call.Answer (S := S)) q) :=
  ⟨h, fun _ => trivial⟩

theorem only_attempt {f : DbError → ε} {prog : Prog (Call.Answer (S := S)) (Except DbError α)}
    (h : Only P prog) : Only P (attempt f prog).run := by
  refine only_bind (fun r => ?_) h
  exact trivial

theorem only_sql {f : DbError → ε} {s : S.Sql} (h : P (.sql s)) : Only P (sql f s).run :=
  only_attempt (only_call h)

theorem only_lift {prog : Prog (Call.Answer (S := S)) α} (h : Only P prog) :
    Only P (ExceptT.lift prog : Program S ε α).run := by
  refine only_bind (fun a => ?_) h
  exact trivial

theorem only_ask {a : S.Ask} (h : P (.ask a)) : Only P (ask a : Program S ε (S.Ans a)).run :=
  only_lift (only_call h)

theorem only_require {b : Bool} {e : ε} : Only P (require b e : Program S ε Unit).run := by
  cases b <;> exact trivial

theorem only_orRollback {prog : Program S ε α} (h : Only P prog.run) (hq : P .rollback) :
    Only P (orRollback prog).run := by
  refine only_bind (fun r => ?_) h
  cases r with
  | ok a => exact trivial
  | error e => exact ⟨hq, fun _ => trivial⟩

theorem once_seq {prog : Program S ε α} {f : α → Program S ε β} (h : Once P prog.run)
    (hf : ∀ a, Only (fun q => ¬ P q) (f a).run) : Once P (prog >>= f).run := by
  rw [ExceptT.run_bind]
  refine once_bind (fun r => ?_) h
  cases r with
  | ok a => exact hf a
  | error e => exact trivial

theorem once_seq_of_only {prog : Program S ε α} {f : α → Program S ε β}
    (h : Only (fun q => ¬ P q) prog.run) (hf : ∀ a, Once P (f a).run) :
    Once P (prog >>= f).run := by
  rw [ExceptT.run_bind]
  refine once_bind_of_only (fun r => ?_) h
  cases r with
  | ok a => exact hf a
  | error e => exact trivial

theorem once_sql {f : DbError → ε} {s : S.Sql} : Once P (sql f s).run :=
  fun _ => ⟨fun _ => trivial, trivial⟩

theorem once_orRollback {prog : Program S ε α} (h : Once P prog.run) (hq : ¬ P .rollback) :
    Once P (orRollback prog).run := by
  refine once_bind (fun r => ?_) h
  cases r with
  | ok a => exact trivial
  | error e => exact ⟨hq, fun _ => trivial⟩

theorem leaves_throw {e : ε} (h : C e) : Leaves (Fails C) (throw e : Program S ε α).run :=
  ⟨e, rfl, h⟩

/-- An error stays. -/
theorem leaves_seq {prog : Program S ε α} {f : α → Program S ε β}
    (h : Leaves (Fails C) prog.run) : Leaves (Fails C) (prog >>= f).run := by
  rw [ExceptT.run_bind]
  refine leaves_bind ?_ h
  rintro r ⟨e, rfl, he⟩
  exact ⟨e, rfl, he⟩

theorem leads_seq {prog : Program S ε α} {f : α → Program S ε β}
    (h : Leads T (Fails C) prog.run) (hf : ∀ a, Leads T (Fails C) (f a).run) :
    Leads T (Fails C) (prog >>= f).run := by
  rw [ExceptT.run_bind]
  refine leads_bind ?_ (fun r => ?_) h
  · rintro r ⟨e, rfl, he⟩
    exact ⟨e, rfl, he⟩
  · cases r with
    | ok a => exact hf a
    | error e => exact trivial

/-- **A statement**: its errors in question, and its answers in question. -/
theorem leads_sql_seq {f : DbError → ε} {s : S.Sql} {g : S.Res s → Program S ε α}
    (herr : ∀ e, T (.sql s) (.error e) → C (f e))
    (hok : ∀ a, T (.sql s) (.ok a) → Leaves (Fails C) (g a).run)
    (hg : ∀ a, Leads T (Fails C) (g a).run) : Leads T (Fails C) (sql f s >>= g).run := by
  intro r
  cases r with
  | ok a => exact ⟨hok a, hg a⟩
  | error e => exact ⟨fun ht => ⟨f e, rfl, herr e ht⟩, trivial⟩

theorem leads_sql {f : DbError → ε} {s : S.Sql} (herr : ∀ e, T (.sql s) (.error e) → C (f e))
    (hok : ∀ a, ¬ T (.sql s) (.ok a)) : Leads T (Fails C) (sql f s).run := by
  intro r
  cases r with
  | ok a => exact ⟨fun ht => absurd ht (hok a), trivial⟩
  | error e => exact ⟨fun ht => ⟨f e, rfl, herr e ht⟩, trivial⟩

theorem leads_orRollback {prog : Program S ε α} (h : Leads T (Fails C) prog.run)
    (hq : ∀ r, ¬ T .rollback r) : Leads T (Fails C) (orRollback prog).run := by
  refine leads_bind ?_ (fun r => ?_) h
  · rintro r ⟨e, rfl, he⟩
    exact fun _ => ⟨e, rfl, he⟩
  · cases r with
    | ok a => exact trivial
    | error e => exact leads_of_only ⟨hq, fun _ => trivial⟩

end Lib.Transaction
