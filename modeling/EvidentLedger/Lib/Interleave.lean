import Mathlib.Logic.Function.Basic
import Mathlib.Logic.Relation
import Mathlib.Tactic.SplitIfs

/-!
# Interleaved programs over a shared state

Any number of sequential programs, each with a local state, take turns: one statement of one program
at a time acts on the shared state. What a statement does besides is a choice (a clock reading, a
fresh identifier, a failure), so a step is a pair of a program and a choice.

* `Prog` is a program: it returns, or it issues a statement and goes on with the answer. It is a
  monad; `ExceptT` over it gives early returns.
* `System` is the meaning of the statements, `Config` a state of the whole, `Config.step` one step,
  `Reach` any number of them.
* `Discipline` states what every step keeps: an invariant of the shared state, and for each program a
  relation (`Rely`) that the steps of the *others* satisfy.
* `Safe` is the proof obligation of one program on its own: whatever the others do within the rely
  between its statements, each of its statements keeps the invariant and satisfies the rely of every
  other program, and on return the postcondition holds.
* `Triple` packages `Safe` under a precondition, with the rules for a return, a sequence, a
  statement, a weaker precondition and a stronger postcondition.
* **`reach_safe`**: if every program of a configuration is safe, then so it is in every
  configuration reached, where the invariant holds and every returned value meets its postcondition.

`ok` restricts the runs considered: a step is taken only in a state where it holds of the statement.
`System.restrict` restricts the choices: which failures, clocks and answers a run may have.
-/

namespace Lib.Interleave

variable {Q : Type} {R : Q → Type} {α β ε : Type}

/-- A program over statements `Q` with answers `R`. -/
inductive Prog (R : Q → Type) (α : Type) : Type where
  | ret (a : α)
  | stmt (q : Q) (k : R q → Prog R α)

namespace Prog

def bind : Prog R α → (α → Prog R β) → Prog R β
  | ret a, f => f a
  | stmt q k, f => stmt q fun r => (k r).bind f

instance : Monad (Prog R) where
  pure := ret
  bind := bind

/-- A single statement. -/
def call (q : Q) : Prog R (R q) := stmt q ret

@[simp] theorem pure_eq (a : α) : (pure a : Prog R α) = ret a := rfl

@[simp] theorem ret_bind (a : α) (f : α → Prog R β) : (ret a >>= f) = f a := rfl

@[simp] theorem stmt_bind (q : Q) (k : R q → Prog R α) (f : α → Prog R β) :
    (stmt q k >>= f) = stmt q fun r => k r >>= f := rfl

@[simp] theorem call_bind (q : Q) (f : R q → Prog R β) : (call q >>= f) = stmt q f := rfl

/-- The value of a program that has returned. -/
def result : Prog R α → Option α
  | ret a => some a
  | stmt _ _ => none

end Prog

/-! ## Systems and runs -/

/-- The meaning of the statements: program number, choice, statement, shared and local state; no
value where the statement has to wait. -/
structure System (R : Q → Type) (G L C : Type) where
  exec : Nat → C → (q : Q) → G → L → Option (R q × G × L)

/-- The system with some of its choices only. -/
def System.restrict {G L C : Type} (sys : System R G L C) (admits : Nat → C → Q → G → Bool) :
    System R G L C :=
  ⟨fun p c q g l => if admits p c q g then sys.exec p c q g l else none⟩

/-- The shared state and the programs, each with its local state. -/
structure Config (R : Q → Type) (G L α : Type) where
  shared : G
  procs : Nat → Prog R α × L

variable {G L C : Type}

/-- A step in a state where `ok` holds of the statement. -/
inductive Step (sys : System R G L C) (ok : Nat → Q → G → Prop) :
    Config R G L α → Config R G L α → Prop
  | mk {x : Config R G L α} {g : G} {l l' : L} {q : Q} {k : R q → Prog R α} {r : R q} (p : Nat)
      (c : C) (hp : x.procs p = (.stmt q k, l)) (hok : ok p q x.shared)
      (hexec : sys.exec p c q x.shared l = some (r, g, l')) :
      Step sys ok x ⟨g, Function.update x.procs p (k r, l')⟩

/-- Any number of steps. -/
def Reach (sys : System R G L C) (ok : Nat → Q → G → Prop) :
    Config R G L α → Config R G L α → Prop :=
  Relation.ReflTransGen (Step sys ok)

theorem System.exec_of_restrict {sys : System R G L C} {admits : Nat → C → Q → G → Bool} {p : Nat}
    {c : C} {q : Q} {g : G} {l : L} {out : R q × G × L}
    (h : (sys.restrict admits).exec p c q g l = some out) :
    admits p c q g = true ∧ sys.exec p c q g l = some out := by
  change (if admits p c q g then sys.exec p c q g l else none) = some out at h
  split_ifs at h with ha
  exact ⟨ha, h⟩

section Schedules

variable {sys : System R G L C} {ok : Nat → Q → G → Prop} [∀ p q g, Decidable (ok p q g)]
  {x y : Config R G L α}

variable (sys ok) in
/-- One statement of program `p`. -/
def Config.step (p : Nat) (c : C) (x : Config R G L α) : Option (Config R G L α) :=
  match x.procs p with
  | (.ret _, _) => none
  | (.stmt q k, l) =>
    if ok p q x.shared then
      match sys.exec p c q x.shared l with
      | none => none
      | some (r, g, l) => some ⟨g, Function.update x.procs p (k r, l)⟩
    else none

variable (sys ok) in
/-- Running a schedule. -/
def Config.run : List (Nat × C) → Config R G L α → Option (Config R G L α)
  | [], x => some x
  | (p, c) :: schedule, x =>
    match x.step sys ok p c with
    | none => none
    | some y => y.run schedule

/-- The steps computed by `Config.step` are the steps of the relation. -/
theorem Step.of_step {p : Nat} {c : C} (h : x.step sys ok p c = some y) : Step sys ok x y := by
  unfold Config.step at h
  cases hp : x.procs p with
  | mk prog l =>
    rw [hp] at h
    cases prog with
    | ret a => exact absurd h (by simp)
    | stmt q k =>
      simp only at h
      split_ifs at h with hok
      cases he : sys.exec p c q x.shared l with
      | none => rw [he] at h; exact absurd h (by simp)
      | some out =>
        obtain ⟨r, g, l'⟩ := out
        rw [he] at h
        rw [← Option.some.inj h]
        exact .mk p c hp hok he

theorem Reach.of_run {schedule : List (Nat × C)} (h : x.run sys ok schedule = some y) :
    Reach sys ok x y := by
  induction schedule generalizing x with
  | nil =>
    rw [← Option.some.inj h]
    exact .refl
  | cons pc schedule ih =>
    unfold Config.run at h
    cases hs : x.step sys ok pc.1 pc.2 with
    | none => rw [hs] at h; exact absurd h (by simp)
    | some z =>
      rw [hs] at h
      exact .head (.of_step hs) (ih h)

/-- What a schedule computes is reached. -/
theorem Reach.exists_of_run {γ : Type} {schedule : List (Nat × C)} {f : Config R G L α → γ} {c : γ}
    (h : (x.run sys ok schedule).map f = some c) : ∃ y, Reach sys ok x y ∧ f y = c := by
  obtain ⟨y, hy, hc⟩ := Option.map_eq_some_iff.mp h
  exact ⟨y, .of_run hy, hc⟩

/-- A program without a turn stays as it is. -/
theorem Config.procs_of_step {p q : Nat} {c : C} (h : x.step sys ok q c = some y) (hp : q ≠ p) :
    y.procs p = x.procs p := by
  unfold Config.step at h
  split at h
  · exact absurd h (by simp)
  · split_ifs at h
    split at h
    · exact absurd h (by simp)
    · rw [← Option.some.inj h]
      exact Function.update_of_ne hp.symm _ _

theorem Config.procs_of_run {p : Nat} {schedule : List (Nat × C)}
    (h : x.run sys ok schedule = some y) (hp : ∀ pc ∈ schedule, pc.1 ≠ p) :
    y.procs p = x.procs p := by
  induction schedule generalizing x with
  | nil => rw [← Option.some.inj h]
  | cons pc schedule ih =>
    unfold Config.run at h
    cases hs : x.step sys ok pc.1 pc.2 with
    | none => rw [hs] at h; exact absurd h (by simp)
    | some z =>
      rw [hs] at h
      exact (ih h fun pc' hpc => hp pc' (List.mem_cons_of_mem pc hpc)).trans
        (Config.procs_of_step hs (hp pc List.mem_cons_self))

/-- **Two schedules**, the second after the first: what a program without a turn in the first is then. -/
theorem Reach.exists_of_runs {γ : Type} {before after : List (Nat × C)}
    {f : Config R G L α → Config R G L α → γ} {c : γ}
    (h : ((x.run sys ok before).bind fun y => (y.run sys ok after).map (f y)) = some c) :
    ∃ y z, Reach sys ok x y ∧ Reach sys ok y z ∧ f y z = c ∧
      ∀ p, (∀ pc ∈ before, pc.1 ≠ p) → y.procs p = x.procs p := by
  obtain ⟨y, hy, hrest⟩ := Option.bind_eq_some_iff.mp h
  obtain ⟨z, hz, hc⟩ := Reach.exists_of_run hrest
  exact ⟨y, z, .of_run hy, hz, hc, fun p hp => Config.procs_of_run hy hp⟩

end Schedules

/-! ## Disciplines -/

/-- What every step keeps: an invariant, and between the statements of `p` the relation `Rely p`. -/
structure Discipline (G : Type) where
  Inv : G → Prop
  Rely : Nat → G → G → Prop
  refl : ∀ p g, Rely p g g
  trans : ∀ {p g₁ g₂ g₃}, Rely p g₁ g₂ → Rely p g₂ g₃ → Rely p g₁ g₃

variable (sys : System R G L C) (ok : Nat → Q → G → Prop) (D : Discipline G) (p : Nat)

/-- What a step of `p` owes to the others. -/
def Discipline.Keeps (D : Discipline G) (p : Nat) (g g' : G) : Prop :=
  D.Inv g' ∧ ∀ j, j ≠ p → D.Rely j g g'

/-- Safe on its own, among programs that keep the discipline. -/
def Safe (Post : α → L → G → Prop) : Prog R α → L → G → Prop
  | .ret a, l, g => ∀ g', D.Rely p g g' → D.Inv g' → Post a l g'
  | .stmt q k, l, g => ∀ g', D.Rely p g g' → D.Inv g' → ok p q g' →
      ∀ c r g'' l', sys.exec p c q g' l = some (r, g'', l') →
        D.Keeps p g' g'' ∧ Safe Post (k r) l' g''

variable {sys ok D p}

/-- Safety survives the steps of the others. -/
theorem Safe.rely {Post : α → L → G → Prop} {prog : Prog R α} {l : L} {g g' : G}
    (h : Safe sys ok D p Post prog l g) (hr : D.Rely p g g') : Safe sys ok D p Post prog l g' := by
  cases prog with
  | ret a => exact fun g'' hr' hi => h g'' (D.trans hr hr') hi
  | stmt q k => exact fun g'' hr' hi => h g'' (D.trans hr hr') hi

theorem Safe.bind {Mid : α → L → G → Prop} {Post : β → L → G → Prop} {f : α → Prog R β} :
    ∀ {prog : Prog R α} {l : L} {g : G}, D.Inv g → Safe sys ok D p Mid prog l g →
      (∀ a l g, Mid a l g → D.Inv g → Safe sys ok D p Post (f a) l g) →
        Safe sys ok D p Post (prog >>= f) l g
  | .ret a, l, g, hi, h, hf => hf a l g (h g (D.refl p g) hi) hi
  | .stmt q k, l, g, hi, h, hf => fun g' hr hi' hok c r g'' l' he => by
    obtain ⟨hkeep, hsafe⟩ := h g' hr hi' hok c r g'' l' he
    exact ⟨hkeep, Safe.bind hkeep.1 hsafe hf⟩

theorem Safe.mono {Post Post' : α → L → G → Prop} (hpost : ∀ a l g, Post a l g → Post' a l g) :
    ∀ {prog : Prog R α} {l : L} {g : G}, Safe sys ok D p Post prog l g →
      Safe sys ok D p Post' prog l g
  | .ret _, _, _, h => fun g' hr hi => hpost _ _ _ (h g' hr hi)
  | .stmt _ _, _, _, h => fun g' hr hi hok c r g'' l' he => by
    obtain ⟨hkeep, hsafe⟩ := h g' hr hi hok c r g'' l' he
    exact ⟨hkeep, Safe.mono hpost hsafe⟩

/-- With fewer choices a safe program stays safe. -/
theorem Safe.restrict {admits : Nat → C → Q → G → Bool} {Post : α → L → G → Prop} :
    ∀ {prog : Prog R α} {l : L} {g : G}, Safe sys ok D p Post prog l g →
      Safe (sys.restrict admits) ok D p Post prog l g
  | .ret _, _, _, h => h
  | .stmt _ _, _, _, h => fun g' hr hi hok c r g'' l' he => by
    obtain ⟨hkeep, hsafe⟩ := h g' hr hi hok c r g'' l' (System.exec_of_restrict he).2
    exact ⟨hkeep, Safe.restrict hsafe⟩

/-- A program that never steps keeps every discipline. -/
theorem safe_of_idle {Post : α → L → G → Prop} (hok : ∀ q g, ¬ ok p q g)
    (hpost : ∀ a l g, Post a l g) : ∀ {prog : Prog R α} {l : L} {g : G}, Safe sys ok D p Post prog l g
  | .ret _, _, _ => fun _ _ _ => hpost _ _ _
  | .stmt _ _, _, _ => fun _ _ _ hq => absurd hq (hok _ _)

/-- **Soundness.** In every configuration reached from safe programs the invariant holds, every
program is safe, and what happened in between satisfies the rely of a program that did not step. -/
theorem reach_safe {Post : Nat → α → L → G → Prop} {x y : Config R G L α} (hi : D.Inv x.shared)
    (hs : ∀ p, Safe sys ok D p (Post p) (x.procs p).1 (x.procs p).2 x.shared)
    (h : Reach sys ok x y) : D.Inv y.shared ∧
      ∀ p, Safe sys ok D p (Post p) (y.procs p).1 (y.procs p).2 y.shared := by
  induction h with
  | refl => exact ⟨hi, hs⟩
  | tail _ hstep ih =>
    obtain ⟨hi', hs'⟩ := ih
    cases hstep with
    | mk p c hp hok he =>
      have hsp := hs' p
      rw [hp] at hsp
      obtain ⟨hkeep, hnext⟩ := hsp _ (D.refl p _) hi' hok c _ _ _ he
      refine ⟨hkeep.1, fun j => ?_⟩
      by_cases hj : j = p
      · subst hj
        simpa using hnext
      · simp only [Function.update_of_ne hj]
        exact (hs' j).rely (hkeep.2 j hj)

/-- A program that has returned meets its postcondition. -/
theorem Safe.result {Post : α → L → G → Prop} {prog : Prog R α} {l : L} {g : G} {a : α}
    (h : Safe sys ok D p Post prog l g) (hi : D.Inv g) (ha : prog.result = some a) :
    Post a l g := by
  cases prog with
  | ret b =>
    obtain rfl := Option.some.inj ha
    exact h g (D.refl p g) hi
  | stmt q k => exact absurd ha (by simp [Prog.result])

/-- **A program that is safe for another postcondition** in a configuration reached meets it, too. -/
theorem reach_result {q : Nat} {Post : Nat → α → L → G → Prop} {F : α → L → G → Prop}
    {x y : Config R G L α} (hi : D.Inv x.shared)
    (hs : ∀ p, Safe sys ok D p (Post p) (x.procs p).1 (x.procs p).2 x.shared)
    (hq : Safe sys ok D q F (x.procs q).1 (x.procs q).2 x.shared) (h : Reach sys ok x y) {a : α}
    (ha : (y.procs q).1.result = some a) : F a (y.procs q).2 y.shared := by
  have hs' : ∀ p, Safe sys ok D p (fun a l g => p = q → F a l g) (x.procs p).1 (x.procs p).2
      x.shared := by
    intro p
    by_cases hp : p = q
    · subst hp
      exact hq.mono fun _ _ _ h _ => h
    · exact (hs p).mono fun _ _ _ _ h => absurd h hp
  obtain ⟨hi', hsafe⟩ := reach_safe hi hs' h
  exact (hsafe q).result hi' ha rfl

/-- A relation between the shared states that every step satisfies holds along every run. -/
theorem reach_relation {Post : Nat → α → L → G → Prop} (Rel : G → G → Prop)
    (hrefl : ∀ g, Rel g g) (htrans : ∀ g₁ g₂ g₃, Rel g₁ g₂ → Rel g₂ g₃ → Rel g₁ g₃)
    (hrely : ∀ p g g', D.Rely p g g' → Rel g g') {x y : Config R G L α} (hi : D.Inv x.shared)
    (hs : ∀ p, Safe sys ok D p (Post p) (x.procs p).1 (x.procs p).2 x.shared)
    (h : Reach sys ok x y) : Rel x.shared y.shared := by
  induction h with
  | refl => exact hrefl _
  | tail hxy hstep ih =>
    obtain ⟨hi', hs'⟩ := reach_safe hi hs hxy
    refine htrans _ _ _ ih ?_
    cases hstep with
    | mk p c hp hok he =>
      have hsp := hs' p
      rw [hp] at hsp
      obtain ⟨hkeep, -⟩ := hsp _ (D.refl p _) hi' hok c _ _ _ he
      exact hrely (p + 1) _ _ (hkeep.2 (p + 1) (Nat.succ_ne_self p))

/-- **A program that nothing keeps waiting returns**, running alone: in a quiet state each of its
calls is answered, and leaves a quiet state. -/
theorem Reach.exists_result {Φ : G → Prop} (hstep : ∀ q g l, Φ g → ok p q g ∧
      ∃ c r g' l', sys.exec p c q g l = some (r, g', l') ∧ Φ g') {x : Config R G L α}
    (hx : Φ x.shared) : ∃ y, Reach sys ok x y ∧ ((y.procs p).1.result).isSome = true := by
  rcases hp : x.procs p with ⟨prog, l⟩
  induction prog generalizing x l with
  | ret a => exact ⟨x, .refl, by rw [hp]; rfl⟩
  | stmt q k ih =>
    obtain ⟨hok, c, r, g', l', he, hg'⟩ := hstep q x.shared l hx
    obtain ⟨y, hy, hres⟩ := ih r (x := ⟨g', Function.update x.procs p (k r, l')⟩) hg' l' (by simp)
    exact ⟨y, .head (.mk p c hp hok he) hy, hres⟩

/-! ## Triples -/

variable (sys ok D p) in
/-- Safe from every state that satisfies the precondition and the invariant. -/
def Triple (Pre : L → G → Prop) (prog : Prog R α) (Post : α → L → G → Prop) : Prop :=
  ∀ l g, Pre l g → D.Inv g → Safe sys ok D p Post prog l g

variable (D p) in
/-- An assertion that the others cannot break. -/
def Stable (P : L → G → Prop) : Prop :=
  ∀ l g g', P l g → D.Inv g → D.Rely p g g' → D.Inv g' → P l g'

variable {Pre : L → G → Prop}

theorem triple_ret {Post : α → L → G → Prop} {a : α} (hst : Stable D p Pre)
    (h : ∀ l g, Pre l g → D.Inv g → Post a l g) : Triple sys ok D p Pre (.ret a) Post :=
  fun l g hp hi g' hr hi' => h l g' (hst l g g' hp hi hr hi') hi'

/-- **Sequence.** -/
theorem triple_bind {M : α → L → G → Prop} {Post : β → L → G → Prop} {prog : Prog R α}
    {f : α → Prog R β} (h : Triple sys ok D p Pre prog M)
    (hf : ∀ a, Triple sys ok D p (M a) (f a) Post) :
    Triple sys ok D p Pre (prog >>= f) Post :=
  fun l g hp hi => Safe.bind hi (h l g hp hi) fun a l g hm hi' => hf a l g hm hi'

/-- **Statement.** -/
theorem triple_stmt {Post : α → L → G → Prop} {q : Q} {k : R q → Prog R α}
    {M : R q → L → G → Prop} (hst : Stable D p Pre)
    (h : ∀ l g c r g' l', Pre l g → D.Inv g → ok p q g → sys.exec p c q g l = some (r, g', l') →
      D.Keeps p g g' ∧ M r l' g')
    (hk : ∀ r, Triple sys ok D p (M r) (k r) Post) :
    Triple sys ok D p Pre (.stmt q k) Post :=
  fun l g hp hi g' hr hi' hok c r g'' l' he => by
    obtain ⟨hkeep, hmid⟩ := h l g' c r g'' l' (hst l g g' hp hi hr hi') hi' hok he
    exact ⟨hkeep, hk r l' g'' hmid hkeep.1⟩

/-- **Call**: a statement on its own. -/
theorem triple_call {q : Q} {Mid : R q → L → G → Prop} (hst : Stable D p Pre)
    (hmid : ∀ r, Stable D p (Mid r))
    (h : ∀ l g c r g' l', Pre l g → D.Inv g → ok p q g → sys.exec p c q g l = some (r, g', l') →
      D.Keeps p g g' ∧ Mid r l' g') :
    Triple sys ok D p Pre (Prog.call q) Mid :=
  triple_stmt hst h fun r => triple_ret (hmid r) fun _ _ hm _ => hm

theorem triple_pre {P Pre' : L → G → Prop} {Post : α → L → G → Prop} {prog : Prog R α}
    (hpre : ∀ l g, Pre' l g → D.Inv g → P l g) (h : Triple sys ok D p P prog Post) :
    Triple sys ok D p Pre' prog Post :=
  fun l g hp hi => h l g (hpre l g hp hi) hi

theorem triple_post {Post F : α → L → G → Prop} {prog : Prog R α}
    (h : Triple sys ok D p Pre prog Post) (hpost : ∀ a l g, Post a l g → F a l g) :
    Triple sys ok D p Pre prog F :=
  fun l g hp hi => (h l g hp hi).mono hpost

/-- A precondition that fixes a value. -/
theorem triple_exists {ι : Type} {Pre : ι → L → G → Prop} {Post : α → L → G → Prop}
    {prog : Prog R α} (h : ∀ i, Triple sys ok D p (Pre i) prog Post) :
    Triple sys ok D p (fun l g => ∃ i, Pre i l g) prog Post :=
  fun l g ⟨i, hp⟩ hi => h i l g hp hi

theorem triple_and {P : Prop} {Post : α → L → G → Prop} {prog : Prog R α}
    (h : P → Triple sys ok D p Pre prog Post) :
    Triple sys ok D p (fun l g => P ∧ Pre l g) prog Post :=
  fun l g ⟨hP, hp⟩ hi => h hP l g hp hi

end Lib.Interleave
