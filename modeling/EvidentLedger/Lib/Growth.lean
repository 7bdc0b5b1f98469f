import EvidentLedger.Lib.Interleave

/-!
# Shared states that grow

Statements that commit by themselves, over tables in which nothing that matters is undone: every step,
of whichever program, leads up in one order of the shared states. What a program has learned is then a
lasting fact, and its proof follows its text: no assertion has to be shown stable twice.

* `World` is an invariant and the order. `Lasting F`: what holds goes on holding.
* `Meets` is a triple whose assertions are about the shared state alone, and `Learns` is one of a program
  that may end early: if it returns a value, it has learned something of it.
* `learns_bind`, `learns_query`, `learns_try`, `learns_ask` are the rules of its steps, `learns_orElse` and
  `learns_require` those of its early returns.
* **`reach_learns`**: in every state reached the invariant holds, and every program that has returned has
  learned what it was to learn. `reach_later`: a program that begins later relies on what holds by then.
-/

namespace Lib.Growth

open Lib.Interleave

variable {α β ε D G L C : Type}

/-- An invariant, and the order in which every step leads up. -/
structure World (G : Type) where
  Inv : G → Prop
  le : G → G → Prop
  refl : ∀ g, le g g
  trans : ∀ {a b c}, le a b → le b c → le a c

namespace World

/-- The same order is what every program may rely on. -/
def discipline (W : World G) : Discipline G where
  Inv := W.Inv
  Rely _ := W.le
  refl _ := W.refl
  trans := W.trans

/-- What holds goes on holding. -/
structure Lasting (W : World G) (F : G → Prop) : Prop where
  of_le : ∀ {g g'}, W.le g g' → F g → F g'

variable {W : World G} {F F' : G → Prop}

theorem Lasting.and (h : W.Lasting F) (h' : W.Lasting F') : W.Lasting fun g => F g ∧ F' g :=
  ⟨fun hle hF => ⟨h.of_le hle hF.1, h'.of_le hle hF.2⟩⟩

theorem Lasting.imp {P : Prop} (h : W.Lasting F) : W.Lasting fun g => P → F g :=
  ⟨fun hle hF hP => h.of_le hle (hF hP)⟩

theorem keeps (p : Nat) {g g' : G} (hi : W.Inv g') (hle : W.le g g') :
    W.discipline.Keeps p g g' := ⟨hi, fun _ _ => hle⟩

end World

open World

section Meets

variable {Q : Type} {R : Q → Type}

/-- A program, run where `P` holds, returns values with `Post`. -/
def Meets (sys : System R G L C) (ok : Nat → Q → G → Prop) (W : World G) (p : Nat) (P : G → Prop)
    (prog : Prog R α) (Post : α → G → Prop) : Prop :=
  Triple sys ok W.discipline p (fun _ g => P g) prog fun a _ g => Post a g

theorem Meets.post {sys : System R G L C} {ok : Nat → Q → G → Prop} {W : World G} {p : Nat}
    {P : G → Prop} {prog : Prog R α} {Post Post' : α → G → Prop} (h : Meets sys ok W p P prog Post)
    (hpost : ∀ a g, Post a g → Post' a g) : Meets sys ok W p P prog Post' :=
  triple_post h fun a _ g => hpost a g

end Meets

/-! ## Programs -/

section Programs

variable {S A : Type} {Res : S → Type} {Ans : A → Type}

/-- A statement, which may fail, or a question to the outside. -/
inductive Call (S A : Type) where
  | sql (s : S)
  | ask (a : A)

variable (D Res Ans) in
def Call.Answer : Call S A → Type
  | .sql s => Except D (Res s)
  | .ask a => Ans a

variable (D Res Ans) in
/-- A program with early returns. -/
abbrev Program (ε α : Type) := ExceptT ε (Prog (Call.Answer D Res Ans)) α

/-- A statement whose failure ends the program. -/
def query (f : D → ε) (s : S) : Program D Res Ans ε (Res s) :=
  ExceptT.mk (.stmt (.sql s) fun r : Except D (Res s) => .ret (r.mapError f))

def ask (a : A) : Program D Res Ans ε (Ans a) :=
  ExceptT.mk (.stmt (.ask a) fun r : Ans a => .ret (.ok r))

/-- A statement whose failure is looked at. -/
def try_ (s : S) : Program D Res Ans ε (Except D (Res s)) :=
  ExceptT.mk (.stmt (.sql s) fun r : Except D (Res s) => .ret (.ok r))

/-- A program whose errors are none. -/
def toOption {ε' : Type} (prog : Program D Res Ans ε' α) : Program D Res Ans ε (Option α) :=
  ExceptT.mk (prog.run >>= fun r => .ret (.ok r.toOption))

def mapError {ε' : Type} (f : ε' → ε) (prog : Program D Res Ans ε' α) : Program D Res Ans ε α :=
  ExceptT.mk (prog.run >>= fun r => .ret (r.mapError f))

/-- A condition without which the program ends. -/
def require (b : Bool) (e : ε) : Program D Res Ans ε Unit := if b then pure () else throw e

/-- A value without which the program ends. -/
def orElse (o : Option α) (e : ε) : Program D Res Ans ε α :=
  match o with
  | none => throw e
  | some a => pure a

theorem orElse_some_bind {a : α} {e : ε} {f : α → Program D Res Ans ε β} :
    ((orElse (some a) e : Program D Res Ans ε α) >>= f) = f a := rfl

theorem orElse_none_bind {e : ε} {f : α → Program D Res Ans ε β} :
    ((orElse none e : Program D Res Ans ε α) >>= f) = throw e := rfl

variable {sys : System (Call.Answer D Res Ans) G L C}
  {ok : Nat → Call S A → G → Prop} {W : World G} {p : Nat} {P : G → Prop} {M : α → G → Prop}
  {N : β → G → Prop}

variable (sys ok W p) in
/-- A program that returns a value has learned `M` of it. -/
def Learns (P : G → Prop) (prog : Program D Res Ans ε α) (M : α → G → Prop) : Prop :=
  Meets sys ok W p P prog.run fun r g => ∀ a, r = .ok a → M a g

theorem Learns.mono {prog : Program D Res Ans ε α} {P' : G → Prop} {M' : α → G → Prop}
    (h : Learns sys ok W p P prog M) (hP : ∀ g, W.Inv g → P' g → P g)
    (hM : ∀ a g, M a g → M' a g) : Learns sys ok W p P' prog M' :=
  fun l g hp hi => (h l g (hP g hi hp) hi).mono fun _ _ _ hpost a ha => hM a _ (hpost a ha)

/-- What does not depend on the state is a hypothesis. -/
theorem learns_and {φ : Prop} {prog : Program D Res Ans ε α} (h : φ → Learns sys ok W p P prog M) :
    Learns sys ok W p (fun g => φ ∧ P g) prog M :=
  fun l g hp hi => h hp.1 l g hp.2 hi

theorem learns_pure {a : α} (hP : W.Lasting P) (h : ∀ g, W.Inv g → P g → M a g) :
    Learns sys ok W p P (pure a : Program D Res Ans ε α) M :=
  fun _ _ hp _ g' hr hi' a' ha => by
    rw [← Except.ok.inj ha]
    exact h g' hi' (hP.of_le hr hp)

theorem learns_throw {e : ε} : Learns sys ok W p P (throw e : Program D Res Ans ε α) M :=
  fun _ _ _ _ _ _ _ _ ha => nomatch ha

theorem learns_bind {prog : Program D Res Ans ε α} {f : α → Program D Res Ans ε β}
    (h : Learns sys ok W p P prog M) (hf : ∀ a, Learns sys ok W p (M a) (f a) N) :
    Learns sys ok W p P (prog >>= f) N := by
  unfold Learns
  rw [ExceptT.run_bind]
  refine triple_bind h fun r => ?_
  cases r with
  | error e => exact fun _ _ _ _ _ _ _ b hb => nomatch hb
  | ok a => exact triple_pre (fun l g hm _ => hm a rfl) (hf a)

/-- **A statement.** -/
theorem learns_query {s : S} {f : D → ε} {M : Res s → G → Prop} (hP : W.Lasting P)
    (hM : ∀ a, W.Lasting (M a))
    (h : ∀ l g c r g' l', P g → W.Inv g → sys.exec p c (.sql s) g l = some (r, g', l') →
      (W.Inv g' ∧ W.le g g') ∧ ∀ a, r = .ok a → M a g') :
    Learns sys ok W p P (query (ε := ε) f s) M := by
  refine triple_stmt (M := fun r _ g => ∀ a, r = .ok a → M a g)
    (fun _ _ _ hp _ hr _ => hP.of_le hr hp) (fun l g c r g' l' hp hi _ he => ?_) fun r => ?_
  · obtain ⟨⟨hi', hle⟩, hpost⟩ := h l g c r g' l' hp hi he
    exact ⟨keeps p hi' hle, hpost⟩
  · refine triple_ret (fun _ _ _ hp _ hr _ a ha => (hM a).of_le hr (hp a ha)) fun l g hp _ a ha => ?_
    cases r with
    | error d => exact nomatch ha
    | ok b =>
      rw [← Except.ok.inj ha]
      exact hp b rfl

/-- **A statement whose failure is looked at.** -/
theorem learns_try {s : S} {M : Except D (Res s) → G → Prop} (hP : W.Lasting P)
    (hM : ∀ a, W.Lasting (M a))
    (h : ∀ l g c r g' l', P g → W.Inv g → sys.exec p c (.sql s) g l = some (r, g', l') →
      (W.Inv g' ∧ W.le g g') ∧ M r g') :
    Learns sys ok W p P (try_ s : Program D Res Ans ε _) M := by
  refine triple_stmt (M := fun r _ g => M r g) (fun _ _ _ hp _ hr _ => hP.of_le hr hp)
    (fun l g c r g' l' hp hi _ he => ?_) fun r => ?_
  · obtain ⟨⟨hi', hle⟩, hpost⟩ := h l g c r g' l' hp hi he
    exact ⟨keeps p hi' hle, hpost⟩
  · refine triple_ret (fun _ _ _ hp _ hr _ => (hM r).of_le hr hp) fun l g hp _ a ha => ?_
    rw [← Except.ok.inj ha]
    exact hp

/-- **A question** changes nothing. -/
theorem learns_ask {a : A} (hP : W.Lasting P)
    (h : ∀ l g c r g' l', sys.exec p c (.ask a) g l = some (r, g', l') → g' = g) :
    Learns sys ok W p P (ask a : Program D Res Ans ε _) fun _ g => P g := by
  refine triple_stmt (M := fun _ _ g => P g) (fun _ _ _ hp _ hr _ => hP.of_le hr hp)
    (fun l g c r g' l' hp hi _ he => ?_) fun r => ?_
  · obtain rfl := h l g c r g' l' he
    exact ⟨keeps p hi (W.refl g'), hp⟩
  · exact triple_ret (fun _ _ _ hp _ hr _ => hP.of_le hr hp) fun l g hp _ a ha => hp

theorem learns_require {b : Bool} {e : ε} (hP : W.Lasting P) :
    Learns sys ok W p P (require b e : Program D Res Ans ε Unit) fun _ g => b = true ∧ P g := by
  cases b with
  | false => exact learns_throw
  | true => exact learns_pure hP fun g _ hp => ⟨rfl, hp⟩

theorem learns_orElse {o : Option α} {e : ε} (hP : W.Lasting P) :
    Learns sys ok W p P (orElse o e : Program D Res Ans ε α) fun a g => o = some a ∧ P g := by
  cases o with
  | none => exact learns_throw
  | some a => exact learns_pure hP fun g _ hp => ⟨rfl, hp⟩

theorem learns_toOption {ε' : Type} {prog : Program D Res Ans ε' α} (hM : ∀ a, W.Lasting (M a))
    (h : Learns sys ok W p P prog M) :
    Learns sys ok W p P (toOption prog : Program D Res Ans ε (Option α))
      fun o g => ∀ a, o = some a → M a g := by
  refine triple_bind h fun r => triple_ret (fun _ _ _ hp _ hr _ a ha => (hM a).of_le hr (hp a ha))
    fun l g hp _ o ho a ha => hp a ?_
  rw [← Except.ok.inj ho] at ha
  cases r with
  | error e => exact nomatch ha
  | ok b => exact congrArg Except.ok (Option.some.inj ha)

theorem learns_mapError {ε' : Type} {f : ε' → ε} {prog : Program D Res Ans ε' α}
    (hM : ∀ a, W.Lasting (M a)) (h : Learns sys ok W p P prog M) :
    Learns sys ok W p P (mapError f prog) M := by
  refine triple_bind h fun r => triple_ret (fun _ _ _ hp _ hr _ a ha => (hM a).of_le hr (hp a ha))
    fun l g hp _ a ha => hp a ?_
  cases r with
  | error e => exact nomatch ha
  | ok b => rw [← Except.ok.inj ha]

/-- A program, and what is made of its result. -/
def finish (f : Except ε α → β) (prog : Program D Res Ans ε α) : Prog (Call.Answer D Res Ans) β :=
  prog.run >>= fun r => .ret (f r)

theorem meets_finish {f : Except ε α → β} {prog : Program D Res Ans ε α}
    (hM : ∀ a, W.Lasting (M a)) (h : Learns sys ok W p P prog M) :
    Meets sys ok W p P (finish f prog) fun b g => ∃ r, b = f r ∧ ∀ a, r = .ok a → M a g :=
  triple_bind h fun r => triple_ret (fun _ _ _ hp _ hr _ a ha => (hM a).of_le hr (hp a ha))
    fun _ _ hp _ => ⟨r, rfl, hp⟩

end Programs

/-! ## Runs -/

section Runs

variable {Q : Type} {R : Q → Type} {sys : System R G L C} {ok : Nat → Q → G → Prop} {W : World G}
  {x y z : Config R G L α} {Post : Nat → α → G → Prop}

theorem safe_of_meets (hi : W.Inv x.shared)
    (hs : ∀ p, Meets sys ok W p (fun _ => True) (x.procs p).1 (Post p)) (p : Nat) :
    Safe sys ok W.discipline p (fun a _ g => Post p a g) (x.procs p).1 (x.procs p).2 x.shared :=
  hs p _ _ trivial hi

/-- **In every state reached** the invariant holds, and every program that has returned has learned
what it was to learn. -/
theorem reach_learns (hi : W.Inv x.shared)
    (hs : ∀ p, Meets sys ok W p (fun _ => True) (x.procs p).1 (Post p)) (hy : Reach sys ok x y) :
    W.Inv y.shared ∧ ∀ p a, (y.procs p).1.result = some a → Post p a y.shared := by
  obtain ⟨hi', hsafe⟩ := reach_safe hi (safe_of_meets hi hs) hy
  exact ⟨hi', fun p a ha => (hsafe p).result hi' ha⟩

/-- **The states grow.** -/
theorem reach_le (hi : W.Inv x.shared)
    (hs : ∀ p, Meets sys ok W p (fun _ => True) (x.procs p).1 (Post p)) (hy : Reach sys ok x y)
    (hz : Reach sys ok y z) : W.le y.shared z.shared := by
  obtain ⟨hi', hsafe⟩ := reach_safe hi (safe_of_meets hi hs) hy
  exact reach_relation W.le W.refl (fun _ _ _ h h' => W.trans h h') (fun _ _ _ h => h) hi' hsafe hz

/-- **A program that has not begun yet** relies on what holds by then. -/
theorem reach_later {q : Nat} {F : G → Prop} {Later : α → G → Prop} (hi : W.Inv x.shared)
    (hs : ∀ p, Meets sys ok W p (fun _ => True) (x.procs p).1 (Post p))
    (hq : Meets sys ok W q F (x.procs q).1 Later)
    (hy : Reach sys ok x y) (hidle : y.procs q = x.procs q) (hF : F y.shared) (hz : Reach sys ok y z)
    {a : α} (ha : (z.procs q).1.result = some a) : Later a z.shared := by
  obtain ⟨hi', hsafe⟩ := reach_safe hi (safe_of_meets hi hs) hy
  have hlater : Safe sys ok W.discipline q (fun a _ g => Later a g) (y.procs q).1 (y.procs q).2
      y.shared := by
    rw [hidle]
    exact hq _ _ hF hi'
  exact reach_result hi' hsafe hlater hz ha

end Runs

-- A program is not to be run where only its rules are wanted.
attribute [irreducible] Meets Learns

end Lib.Growth
