import Mathlib.Data.List.Induction

/-!
# Rows that come and go

A log of events, each of which adds some rows and ends some of those that are there. `replay` is the
table after a log.

* `mem_replay_iff`: a row is there if and only if an event has added it and none has ended it since.
* **`added_after`**: a row that is there although an event has ended its like was added after that
  event.
* `Chronicle`: every event of a log was sound when it happened, given the log before it.
-/

namespace Lib.Lifetime

/-- What an event does to the rows. -/
structure Effect (E R : Type) where
  adds : E → List R
  ends : E → R → Bool

variable {E R : Type} {x : Effect E R} {t t' before after : List E} {e : E} {r : R}

/-- The rows after one more event. -/
def Effect.apply (x : Effect E R) (rows : List R) (e : E) : List R :=
  rows.filter (fun r => !x.ends e r) ++ x.adds e

/-- The rows after a log. -/
def Effect.replay (x : Effect E R) (t : List E) : List R := t.foldl x.apply []

@[simp] theorem replay_nil : x.replay [] = [] := rfl

theorem replay_concat : x.replay (t ++ [e]) = x.apply (x.replay t) e := by
  rw [Effect.replay, List.foldl_append]
  rfl

/-- **A row is there** if and only if it was added, and not ended since. -/
theorem mem_replay_iff : r ∈ x.replay t ↔ ∃ before e after, t = before ++ e :: after ∧ r ∈ x.adds e ∧
    ∀ e' ∈ after, x.ends e' r = false := by
  induction t using List.reverseRecOn with
  | nil => simp
  | append_singleton t e ih =>
    rw [replay_concat, Effect.apply, List.mem_append, List.mem_filter, ih]
    constructor
    · rintro (⟨⟨before, e', after, rfl, hadd, hkept⟩, hend⟩ | hadd)
      · refine ⟨before, e', after ++ [e], by simp, hadd, fun e'' hmem => ?_⟩
        rcases List.mem_append.mp hmem with hmem | hmem
        · exact hkept e'' hmem
        · obtain rfl := List.mem_singleton.mp hmem
          simpa using hend
      · exact ⟨t, e, [], rfl, hadd, fun e' hmem => absurd hmem List.not_mem_nil⟩
    · rintro ⟨before, e', after, heq, hadd, hkept⟩
      rcases List.eq_nil_or_concat after with rfl | ⟨after, last, rfl⟩
      · obtain ⟨-, hlast⟩ := List.append_inj' heq rfl
        obtain rfl := List.singleton_inj.mp hlast
        exact Or.inr hadd
      · have heq' : t ++ [e] = (before ++ e' :: after) ++ [last] := by simpa using heq
        obtain ⟨rfl, hlast⟩ := List.append_inj' heq' rfl
        obtain rfl := List.singleton_inj.mp hlast
        refine Or.inl ⟨⟨before, e', after, rfl, hadd, fun e'' hmem => hkept e'' ?_⟩, ?_⟩
        · simp [hmem]
        · simp [hkept e (by simp)]

/-- **What is there although an event has ended it was added later.** -/
theorem added_after (hr : r ∈ x.replay t) (ht : before ++ [e] <+: t) (hend : x.ends e r = true)
    (hadd : r ∉ x.adds e) : ∃ middle e' after, t = before ++ e :: (middle ++ e' :: after) ∧
      r ∈ x.adds e' ∧ ∀ e'' ∈ after, x.ends e'' r = false := by
  obtain ⟨rest, rfl⟩ := ht
  obtain ⟨first, e', after, heq, hadded, hkept⟩ := mem_replay_iff.mp hr
  rw [List.append_assoc, List.singleton_append] at heq
  rcases List.append_eq_append_iff.mp heq with ⟨middle, hfirst, hrest⟩ | ⟨middle, hbefore, hrest⟩
  · cases middle with
    | nil =>
      obtain ⟨rfl, -⟩ := List.cons.inj hrest
      exact absurd hadded hadd
    | cons e'' middle =>
      obtain ⟨rfl, rfl⟩ := List.cons.inj hrest
      exact ⟨middle, e', after, by simp, hadded, hkept⟩
  · have hmem : e ∈ after := by
      cases middle with
      | nil =>
        obtain ⟨rfl, -⟩ := List.cons.inj hrest
        exact absurd hadded hadd
      | cons e'' middle =>
        obtain ⟨rfl, rfl⟩ := List.cons.inj hrest
        simp
    rw [hkept e hmem] at hend
    exact absurd hend Bool.false_ne_true

/-! ## What was so when it happened -/

/-- **Every event was sound when it happened.** -/
def Chronicle (C : List E → E → Prop) (t : List E) : Prop :=
  ∀ before e, before ++ [e] <+: t → C before e

variable {C : List E → E → Prop}

theorem chronicle_nil : Chronicle C [] := fun before e h => by
  have hnil := List.prefix_nil.mp h
  exact absurd hnil (by simp)

theorem Chronicle.concat (h : Chronicle C t) (he : C t e) : Chronicle C (t ++ [e]) := by
  intro before e' hp
  rcases List.prefix_concat_iff.mp hp with heq | hp
  · obtain ⟨rfl, hlast⟩ := List.append_inj' heq rfl
    obtain rfl := List.singleton_inj.mp hlast
    exact he
  · exact h before e' hp

theorem Chronicle.of_mem (h : Chronicle C t) (he : e ∈ t) :
    ∃ before, before ++ [e] <+: t ∧ C before e := by
  obtain ⟨before, after, rfl⟩ := List.append_of_mem he
  have hp : before ++ [e] <+: before ++ e :: after := ⟨after, by simp⟩
  exact ⟨before, hp, h before e hp⟩

end Lib.Lifetime
