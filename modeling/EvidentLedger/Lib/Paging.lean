import Mathlib.Order.Lattice
import Mathlib.Data.List.Nodup

/-!
# Keyset pagination

Pages of rows in descending order of a key, over any rows. A page has at most `limit` rows below the
cursor; one row more is asked for to know whether there is another page, and then the last row of the page
is the next cursor.

* `filter_below`: what is below a row is what stands after it.
* **`visit_eq`**: following the cursors from the start ends, and the pages put together are all rows in
  descending order, whatever the limit.
-/

namespace Lib.Paging

variable {α κ : Type} [LinearOrder κ] (key : α → κ)

/-- `ORDER BY key DESC`. -/
def sortDesc (rows : List α) : List α := rows.mergeSort fun a b => decide (key b ≤ key a)

/-- Below the cursor, if there is one. -/
def below (cursor : Option α) (a : α) : Bool :=
  match cursor with
  | none => true
  | some c => decide (key a < key c)

/-- A page, and the cursor of the next one. -/
def page (limit : Nat) (rows : List α) (cursor : Option α) : List α × Option α :=
  let found := (sortDesc key (rows.filter (below key cursor))).take (limit + 1)
  if limit < found.length then (found.take limit, (found.take limit).getLast?) else (found, none)

/-- The pages from a cursor on, if there are less than `fuel`. -/
def visit (limit : Nat) (rows : List α) : Nat → Option α → Option (List (List α))
  | 0, _ => none
  | fuel + 1, cursor =>
    match page key limit rows cursor with
    | (found, none) => some [found]
    | (found, some c) => (visit limit rows fuel (some c)).map (found :: ·)

section Sorted

variable {key} {rows : List α}

theorem perm_sortDesc : (sortDesc key rows).Perm rows := List.mergeSort_perm _ _

theorem pairwise_sortDesc : (sortDesc key rows).Pairwise fun a b => key b ≤ key a := by
  refine (List.pairwise_mergeSort ?_ ?_ rows).imp fun hab => of_decide_eq_true hab
  · intro a b c hab hbc
    exact decide_eq_true (le_trans (of_decide_eq_true hbc) (of_decide_eq_true hab))
  · intro a b
    simpa using le_total (key b) (key a)

/-- **Rows with keys of their own** descend strictly. -/
theorem strict_sortDesc (h : (rows.map key).Nodup) :
    (sortDesc key rows).Pairwise fun a b => key b < key a := by
  have hne : (sortDesc key rows).Pairwise fun a b => key a ≠ key b :=
    List.pairwise_map.mp ((perm_sortDesc.map key).nodup_iff.mpr h)
  exact (pairwise_sortDesc.and hne).imp fun hab => lt_of_le_of_ne hab.1 hab.2.symm

/-- Selecting rows commutes with sorting them. -/
theorem sortDesc_filter (h : (rows.map key).Nodup) (p : α → Bool) :
    sortDesc key (rows.filter p) = (sortDesc key rows).filter p := by
  refine List.Perm.eq_of_pairwise ?_ pairwise_sortDesc (pairwise_sortDesc.filter p)
    (perm_sortDesc.trans (perm_sortDesc.filter p).symm)
  intro a b ha hb hba hab
  have ha := (List.mem_filter.mp (perm_sortDesc.mem_iff.mp ha)).1
  have hb := perm_sortDesc.mem_iff.mp (List.mem_filter.mp hb).1
  exact List.inj_on_of_nodup_map h ha hb (le_antisymm hab hba)

/-- **What is below a row** stands after it. -/
theorem filter_below {before rest : List α} {c : α}
    (h : (before ++ c :: rest).Pairwise fun a b => key b < key a) :
    (before ++ c :: rest).filter (below key (some c)) = rest := by
  rw [List.pairwise_append] at h
  obtain ⟨-, hrest, hbefore⟩ := h
  have hout : before.filter (below key (some c)) = [] := by
    refine List.filter_eq_nil_iff.mpr fun a ha => ?_
    simpa [below] using le_of_lt (hbefore a ha c List.mem_cons_self)
  have hin : rest.filter (below key (some c)) = rest := by
    refine List.filter_eq_self.mpr fun a ha => ?_
    simpa [below] using (List.pairwise_cons.mp hrest).1 a ha
  rw [List.filter_append, hout, List.nil_append, List.filter_cons_of_neg (by simp [below]), hin]

/-! ## Following the cursors -/

variable {limit : Nat}

/-- The rows after a cursor, where `rest` is what is left. -/
theorem page_eq (h : (rows.map key).Nodup) {cursor : Option α} {rest : List α}
    (hrest : (sortDesc key rows).filter (below key cursor) = rest) :
    page key limit rows cursor =
      if limit < rest.length then (rest.take limit, (rest.take limit).getLast?) else (rest, none) := by
  unfold page
  rw [sortDesc_filter h, hrest]
  simp only [List.length_take, List.take_take]
  by_cases hlt : limit < rest.length
  · rw [if_pos (by omega), if_pos hlt, Nat.min_eq_left (Nat.le_succ limit)]
  · rw [if_neg (by omega), if_neg hlt, List.take_of_length_le (by omega)]

/-- The pages from a cursor on are what is left. -/
theorem visit_rest (hlimit : 0 < limit) (h : (rows.map key).Nodup) {fuel : Nat} {cursor : Option α}
    {before rest : List α} (hsplit : sortDesc key rows = before ++ rest)
    (hrest : (sortDesc key rows).filter (below key cursor) = rest) (hfuel : rest.length < fuel) :
    ∃ pages, visit key limit rows fuel cursor = some pages ∧ pages.flatten = rest := by
  induction fuel generalizing cursor before rest with
  | zero => omega
  | succ fuel ih =>
    rw [visit, page_eq h hrest]
    by_cases hlt : limit < rest.length
    · rw [if_pos hlt]
      obtain ⟨c, hc⟩ : ∃ c, (rest.take limit).getLast? = some c := by
        refine Option.isSome_iff_exists.mp (List.getLast?_isSome.mpr ?_)
        exact List.ne_nil_of_length_pos (by rw [List.length_take]; omega)
      obtain ⟨first, hfirst⟩ := List.getLast?_eq_some_iff.mp hc
      -- the page ends with the row of the cursor
      have hrow : sortDesc key rows = (before ++ first) ++ c :: rest.drop limit := by
        have htake := List.take_append_drop limit rest
        rw [hfirst, List.append_assoc, List.singleton_append] at htake
        rw [hsplit, List.append_assoc, htake]
      have hnext : (sortDesc key rows).filter (below key (some c)) = rest.drop limit := by
        rw [hrow]
        exact filter_below (hrow ▸ strict_sortDesc h)
      have hsplit' : sortDesc key rows = (before ++ first ++ [c]) ++ rest.drop limit := by
        rw [hrow, List.append_assoc (before ++ first), List.singleton_append]
      obtain ⟨pages, hpages, hflat⟩ := ih hsplit' hnext (by rw [List.length_drop]; omega)
      refine ⟨rest.take limit :: pages, by simp only [hc, hpages, Option.map_some], ?_⟩
      rw [List.flatten_cons, hflat, List.take_append_drop]
    · rw [if_neg hlt]
      exact ⟨[rest], rfl, by simp⟩

/-- **Every row is visited once**, in descending order. -/
theorem visit_eq (hlimit : 0 < limit) (h : (rows.map key).Nodup) {fuel : Nat}
    (hfuel : rows.length < fuel) : ∃ pages, visit key limit rows fuel none = some pages ∧
      pages.flatten = sortDesc key rows := by
  refine visit_rest hlimit h (List.nil_append _).symm ?_ (by rwa [perm_sortDesc.length_eq])
  exact List.filter_eq_self.mpr fun _ _ => rfl

end Sorted

end Lib.Paging
