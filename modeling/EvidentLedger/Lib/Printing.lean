import Mathlib.Logic.Function.Basic

/-!
# Texts with one reading

Printers without length prefixes, over any characters. The text of a value is followed by nothing or by a
`stop`, a character that closes or separates; that is enough to tell where it ends.

* `ReadsOnce`: no other text, followed by a stop, begins the same.
* `append_inj_of_plain`: a text without stops ends at the first of them.
* `join_inj`: texts that are read once are read once when they are joined by a separator and closed.
-/

namespace Lib.Printing

variable {α γ : Type} {stop : γ → Bool} {text : α → List γ}

/-- What follows a text: nothing, or a stop and anything. -/
def Stopped (stop : γ → Bool) (rest : List γ) : Prop := ∀ c ∈ rest.head?, stop c = true

theorem stopped_nil : Stopped stop [] := by
  intro c hc
  exact absurd hc (by simp)

theorem stopped_cons {c : γ} {rest : List γ} (h : stop c = true) : Stopped stop (c :: rest) := by
  intro d hd
  obtain rfl : c = d := by simpa using hd
  exact h

/-- **One reading** of the text of `x`. -/
def ReadsOnce (stop : γ → Bool) (text : α → List γ) (x : α) : Prop :=
  ∀ y rest rest', Stopped stop rest → Stopped stop rest' → text x ++ rest = text y ++ rest' →
    x = y ∧ rest = rest'

/-! ## Plain texts -/

/-- A text without stops is what comes before the first stop. -/
theorem takeWhile_plain {t rest : List γ} (ht : ∀ c ∈ t, stop c = false) (hrest : Stopped stop rest) :
    (t ++ rest).takeWhile (fun c => !stop c) = t := by
  induction t with
  | nil =>
    cases rest with
    | nil => rfl
    | cons c rest => simp [hrest c (by simp)]
  | cons c t ih =>
    have hc := ht c List.mem_cons_self
    rw [List.cons_append, List.takeWhile_cons_of_pos (by simp [hc]),
      ih fun d hd => ht d (List.mem_cons_of_mem c hd)]

/-- **Texts without stops** are told apart by what comes before the first stop. -/
theorem append_inj_of_plain {t t' rest rest' : List γ} (ht : ∀ c ∈ t, stop c = false)
    (ht' : ∀ c ∈ t', stop c = false) (hrest : Stopped stop rest) (hrest' : Stopped stop rest')
    (h : t ++ rest = t' ++ rest') : t = t' ∧ rest = rest' := by
  have heq : t = t' := by
    rw [← takeWhile_plain ht hrest, h, takeWhile_plain ht' hrest']
  subst heq
  exact ⟨rfl, List.append_cancel_left h⟩

/-! ## Joined texts -/

section Join

variable {sep close : γ}

/-- All elements but the first have a separator before them. -/
theorem intercalate_cons (x : α) (xs : List α) :
    [sep].intercalate ((x :: xs).map text) = text x ++ xs.flatMap fun y => sep :: text y := by
  induction xs generalizing x with
  | nil => simp
  | cons y xs ih =>
    rw [List.map_cons, List.map_cons, List.intercalate_cons_cons, ← List.map_cons, ih y]
    simp

/-- What follows an element begins with the separator or the closing character. -/
theorem stopped_separated (hsep : stop sep = true) (hclose : stop close = true) (xs : List α)
    (rest : List γ) : Stopped stop ((xs.flatMap fun x => sep :: text x) ++ close :: rest) := by
  cases xs with
  | nil => exact stopped_cons hclose
  | cons x xs => exact stopped_cons hsep

/-- The elements after the first, up to the closing character. -/
theorem separated_inj (hsep : stop sep = true) (hclose : stop close = true) (hne : sep ≠ close)
    {xs ys : List α} (hxs : ∀ x ∈ xs, ReadsOnce stop text x) {rest rest' : List γ}
    (h : (xs.flatMap fun x => sep :: text x) ++ close :: rest =
      (ys.flatMap fun y => sep :: text y) ++ close :: rest') : xs = ys ∧ rest = rest' := by
  induction xs generalizing ys with
  | nil =>
    cases ys with
    | nil => exact ⟨rfl, (List.cons.inj h).2⟩
    | cons y ys => exact absurd (List.cons.inj h).1.symm hne
  | cons x xs ih =>
    cases ys with
    | nil => exact absurd (List.cons.inj h).1 hne
    | cons y ys =>
      simp only [List.flatMap_cons, List.cons_append, List.append_assoc, List.cons.injEq,
        true_and] at h
      obtain ⟨rfl, htail⟩ := hxs x List.mem_cons_self y _ _ (stopped_separated hsep hclose xs rest)
        (stopped_separated hsep hclose ys rest') h
      obtain ⟨rfl, hrest⟩ := ih (fun z hz => hxs z (List.mem_cons_of_mem x hz)) htail
      exact ⟨rfl, hrest⟩

/-- **Joined texts are told apart**, if no element begins with the closing character. -/
theorem join_inj (hsep : stop sep = true) (hclose : stop close = true) (hne : sep ≠ close)
    (hbegin : ∀ x, ∃ c t, text x = c :: t ∧ c ≠ close) {xs ys : List α}
    (hxs : ∀ x ∈ xs, ReadsOnce stop text x) {rest rest' : List γ}
    (h : [sep].intercalate (xs.map text) ++ close :: rest =
      [sep].intercalate (ys.map text) ++ close :: rest') : xs = ys ∧ rest = rest' := by
  have hfirst : ∀ (y : α) (l m : List γ), close :: l ≠ text y ++ m := by
    intro y l m heq
    obtain ⟨c, t, htext, hc⟩ := hbegin y
    rw [htext] at heq
    exact hc (List.cons.inj heq).1.symm
  cases xs with
  | nil =>
    cases ys with
    | nil => exact ⟨rfl, (List.cons.inj h).2⟩
    | cons y ys =>
      rw [intercalate_cons, List.append_assoc] at h
      exact absurd h (hfirst y _ _)
  | cons x xs =>
    cases ys with
    | nil =>
      rw [intercalate_cons, List.append_assoc] at h
      exact absurd h.symm (hfirst x _ _)
    | cons y ys =>
      rw [intercalate_cons, intercalate_cons, List.append_assoc, List.append_assoc] at h
      obtain ⟨rfl, htail⟩ := hxs x List.mem_cons_self y _ _ (stopped_separated hsep hclose xs rest)
        (stopped_separated hsep hclose ys rest') h
      obtain ⟨rfl, hrest⟩ := separated_inj hsep hclose hne
        (fun z hz => hxs z (List.mem_cons_of_mem x hz)) htail
      exact ⟨rfl, hrest⟩

end Join

end Lib.Printing
