import Mathlib.Data.List.Infix
import Mathlib.Data.Set.Function
import Mathlib.Logic.Function.Iterate

/-!
# Binding of a pairwise hash tree that duplicates its odd nodes

A level of the tree is a list of nodes. The next level hashes neighbours pairwise, and an odd
last node with itself (`nextLevel`); `reduce` repeats this until one node is left. The
duplication makes the construction non-injective on its own: a list that ends in a copy of its
own last node has the root of the list without the copy.

Nothing is assumed of the hash. The results take a set `S` of inputs that the hash `h` is
injective on, and ask that every input the reductions feed to `h` lies in `S`; a caller who
finds no such `S` has a collision among those inputs in hand.

* `iterate_bind`: two bottom levels whose `k`-th levels agree are comparable (one is a prefix of
  the other) and have the same members, for every `k`.
* `reduce_bind`: two bottom levels without repetitions, whose nodes are not themselves hashes of
  pairs, and with one root, are equal, whatever their lengths.
-/

namespace Lib.HashTree

variable {β δ : Type}

/-! ## The tree -/

section Defs

variable (h : β → δ) (pair : δ → δ → β)

/-- The inputs one level hashes: neighbours pairwise, an odd last node with itself. -/
def levelInputs : List δ → List β
  | [] => []
  | [x] => [pair x x]
  | x :: y :: rest => pair x y :: levelInputs rest

/-- One level up. -/
def nextLevel (l : List δ) : List δ := (levelInputs pair l).map h

/-- Levels until one node is left; a list as long as the fuel reaches it (`length_reduce`). -/
def reduce : Nat → List δ → List δ
  | 0, l => l
  | fuel + 1, l => if 1 < l.length then reduce fuel (nextLevel h pair l) else l

/-- Every input `reduce` hashes. -/
def reduceInputs : Nat → List δ → List β
  | 0, _ => []
  | fuel + 1, l =>
    if 1 < l.length then levelInputs pair l ++ reduceInputs fuel (nextLevel h pair l) else []

end Defs

variable {h : β → δ} {pair : δ → δ → β}

theorem length_levelInputs : ∀ l : List δ, (levelInputs pair l).length = (l.length + 1) / 2
  | [] => by simp [levelInputs]
  | [_] => by simp [levelInputs]
  | _ :: _ :: rest => by
    simp only [levelInputs, List.length_cons, length_levelInputs rest]
    omega

theorem length_nextLevel (l : List δ) : (nextLevel h pair l).length = (l.length + 1) / 2 := by
  rw [nextLevel, List.length_map, length_levelInputs]

/-- **Enough fuel leaves one node.** -/
theorem length_reduce : ∀ (fuel : Nat) (l : List δ), l ≠ [] → l.length ≤ fuel →
    (reduce h pair fuel l).length = 1
  | 0, l, hne, hle => absurd (List.length_eq_zero_iff.mp (Nat.le_zero.mp hle)) hne
  | fuel + 1, l, hne, hle => by
    have hpos := List.length_pos_iff.mpr hne
    unfold reduce
    split
    · refine length_reduce fuel _ (List.ne_nil_of_length_pos ?_) ?_
      · rw [length_nextLevel]; omega
      · rw [length_nextLevel]; omega
    · omega

/-- `reduce` is some number of levels, and hashes the inputs of each of them. -/
theorem reduce_eq_iterate : ∀ (fuel : Nat) (l : List δ), ∃ k,
    reduce h pair fuel l = (nextLevel h pair)^[k] l ∧
      ∀ j < k, ∀ b ∈ levelInputs pair ((nextLevel h pair)^[j] l), b ∈ reduceInputs h pair fuel l
  | 0, l => ⟨0, rfl, fun j hj => absurd hj (Nat.not_lt_zero j)⟩
  | fuel + 1, l => by
    unfold reduce reduceInputs
    split
    · obtain ⟨k, hk, hin⟩ := reduce_eq_iterate fuel (nextLevel h pair l)
      refine ⟨k + 1, hk, fun j hj b hb => List.mem_append.mpr ?_⟩
      cases j with
      | zero => exact Or.inl hb
      | succ j => exact Or.inr (hin j (by omega) b hb)
    · exact ⟨0, rfl, fun j hj => absurd hj (Nat.not_lt_zero j)⟩

/-! ## One level -/

theorem mem_levelInputs : ∀ {l : List δ} {b : β}, b ∈ levelInputs pair l →
    ∃ x ∈ l, ∃ y ∈ l, b = pair x y
  | [], _, hb => absurd hb List.not_mem_nil
  | [x], b, hb => ⟨x, List.mem_cons_self, x, List.mem_cons_self, List.mem_singleton.mp hb⟩
  | x :: y :: rest, b, hb => by
    rcases List.mem_cons.mp hb with rfl | hb
    · exact ⟨x, by simp, y, by simp, rfl⟩
    · obtain ⟨u, hu, v, hv, rfl⟩ := mem_levelInputs hb
      exact ⟨u, by simp [hu], v, by simp [hv], rfl⟩

/-- Every node of a level takes part in the next one. -/
theorem exists_levelInput : ∀ {l : List δ} {x : δ}, x ∈ l →
    ∃ y ∈ l, ∃ z ∈ l, pair y z ∈ levelInputs pair l ∧ (x = y ∨ x = z)
  | [], _, hx => absurd hx List.not_mem_nil
  | [y], x, hx =>
    ⟨y, by simp, y, by simp, by simp [levelInputs], Or.inl (List.mem_singleton.mp hx)⟩
  | y :: z :: rest, x, hx => by
    by_cases hyz : x = y ∨ x = z
    · exact ⟨y, by simp, z, by simp, by simp [levelInputs], hyz⟩
    · rw [not_or] at hyz
      have hr : x ∈ rest := by simpa [hyz.1, hyz.2] using hx
      obtain ⟨u, hu, v, hv, hm, hx⟩ := exists_levelInput hr
      exact ⟨u, by simp [hu], v, by simp [hv], List.mem_cons_of_mem _ hm, hx⟩

/-- A hash that is injective on a set reflects prefixes within it. -/
theorem isPrefix_reflect {S : Set β} (hS : Set.InjOn h S) : ∀ {a b : List β},
    (∀ x ∈ a, x ∈ S) → (∀ x ∈ b, x ∈ S) → a.map h <+: b.map h → a <+: b
  | [], b, _, _, _ => List.nil_prefix
  | x :: a, [], _, _, hp => by
    have := List.IsPrefix.length_le hp
    simp only [List.map_cons, List.length_cons, List.map_nil, List.length_nil] at this
    omega
  | x :: a, y :: b, ha, hb, hp => by
    obtain ⟨hxy, ht⟩ := List.cons_prefix_cons.mp hp
    have : x = y := hS (ha x List.mem_cons_self) (hb y List.mem_cons_self) hxy
    subst this
    refine List.cons_prefix_cons.mpr ⟨rfl, isPrefix_reflect hS ?_ ?_ ht⟩
    · exact fun z hz => ha z (List.mem_cons_of_mem x hz)
    · exact fun z hz => hb z (List.mem_cons_of_mem x hz)

section Pairs

-- `D` holds every node, and `pair` is injective on it.
variable {D : Set δ}
  (hpair : ∀ x ∈ D, ∀ y ∈ D, ∀ u ∈ D, ∀ v ∈ D, pair x y = pair u v → x = u ∧ y = v)
include hpair

theorem comparable_of_levelInputs : ∀ {A B : List δ}, (∀ x ∈ A, x ∈ D) → (∀ x ∈ B, x ∈ D) →
    levelInputs pair A <+: levelInputs pair B → A <+: B ∨ B <+: A
  | [], B, _, _, _ => Or.inl List.nil_prefix
  | A, [], _, _, _ => Or.inr List.nil_prefix
  | [x], [y], hA, hB, hp => by
    obtain ⟨he, -⟩ := List.cons_prefix_cons.mp hp
    have hx := hA x (by simp)
    have hy := hB y (by simp)
    rw [(hpair x hx x hx y hy y hy he).1]
    exact Or.inl List.prefix_rfl
  | [x], y :: z :: B, hA, hB, hp => by
    obtain ⟨he, -⟩ := List.cons_prefix_cons.mp hp
    have hx := hA x (by simp)
    rw [(hpair x hx x hx y (hB y (by simp)) z (hB z (by simp)) he).1]
    exact Or.inl (List.cons_prefix_cons.mpr ⟨rfl, List.nil_prefix⟩)
  | x :: y :: A, [z], hA, hB, hp => by
    obtain ⟨he, -⟩ := List.cons_prefix_cons.mp hp
    have hz := hB z (by simp)
    rw [(hpair x (hA x (by simp)) y (hA y (by simp)) z hz z hz he).1]
    exact Or.inr (List.cons_prefix_cons.mpr ⟨rfl, List.nil_prefix⟩)
  | x :: y :: A, u :: v :: B, hA, hB, hp => by
    obtain ⟨he, ht⟩ := List.cons_prefix_cons.mp hp
    obtain ⟨rfl, rfl⟩ := hpair x (hA x (by simp)) y (hA y (by simp)) u (hB u (by simp))
      v (hB v (by simp)) he
    have hA' : ∀ w ∈ A, w ∈ D := fun w hw => hA w (by simp [hw])
    have hB' : ∀ w ∈ B, w ∈ D := fun w hw => hB w (by simp [hw])
    rcases comparable_of_levelInputs hA' hB' ht with hc | hc
    · exact Or.inl (by simpa [List.cons_prefix_cons] using hc)
    · exact Or.inr (by simpa [List.cons_prefix_cons] using hc)

theorem subset_of_levelInputs {A B : List δ} (hA : ∀ x ∈ A, x ∈ D) (hB : ∀ x ∈ B, x ∈ D)
    (hsub : ∀ b ∈ levelInputs pair A, b ∈ levelInputs pair B) : ∀ x ∈ A, x ∈ B := by
  intro x hx
  obtain ⟨y, hy, z, hz, hm, hxyz⟩ : ∃ y ∈ A, ∃ z ∈ A, pair y z ∈ levelInputs pair A ∧
      (x = y ∨ x = z) := exists_levelInput hx
  obtain ⟨u, hu, v, hv, he⟩ := mem_levelInputs (hsub _ hm)
  obtain ⟨rfl, rfl⟩ := hpair y (hA y hy) z (hA z hz) u (hB u hu) v (hB v hv) he
  rcases hxyz with rfl | rfl
  · exact hu
  · exact hv

/-- What two levels with one common ancestor level share: one is a prefix of the other, and they
have the same members. -/
def Agree (A B : List δ) : Prop := (A <+: B ∨ B <+: A) ∧ ∀ x, x ∈ A ↔ x ∈ B

/-- **One level down.** -/
theorem Agree.down {S : Set β} (hS : Set.InjOn h S) {A B : List δ} (hA : ∀ x ∈ A, x ∈ D)
    (hB : ∀ x ∈ B, x ∈ D) (hSA : ∀ b ∈ levelInputs pair A, b ∈ S)
    (hSB : ∀ b ∈ levelInputs pair B, b ∈ S)
    (hag : Agree (nextLevel h pair A) (nextLevel h pair B)) : Agree A B := by
  have transfer : ∀ {P Q : List β}, (∀ b ∈ P, b ∈ S) → (∀ b ∈ Q, b ∈ S) →
      (∀ x ∈ P.map h, x ∈ Q.map h) → ∀ b ∈ P, b ∈ Q := by
    intro P Q hP hQ hsub b hb
    obtain ⟨c, hc, he⟩ := List.mem_map.mp (hsub _ (List.mem_map_of_mem hb))
    rw [← hS (hQ c hc) (hP b hb) he]
    exact hc
  refine ⟨?_, fun x => ⟨?_, ?_⟩⟩
  · rcases hag.1 with hp | hp
    · exact comparable_of_levelInputs hpair hA hB (isPrefix_reflect hS hSA hSB hp)
    · exact (comparable_of_levelInputs hpair hB hA (isPrefix_reflect hS hSB hSA hp)).symm
  · exact subset_of_levelInputs hpair hA hB
      (transfer hSA hSB fun y hy => (hag.2 y).mp hy) x
  · exact subset_of_levelInputs hpair hB hA
      (transfer hSB hSA fun y hy => (hag.2 y).mpr hy) x

/-! ## Any number of levels -/

variable (hD : ∀ b, h b ∈ D)
include hD

omit hpair in
theorem mem_nextLevel_D {A : List δ} : ∀ x ∈ nextLevel h pair A, x ∈ D := by
  intro x hx
  obtain ⟨b, -, rfl⟩ := List.mem_map.mp hx
  exact hD b

/-- **Equal `k`-th levels.** By induction on `k`, one level down at each step. -/
theorem iterate_bind {S : Set β} (hS : Set.InjOn h S) : ∀ (k : Nat) {A B : List δ},
    (∀ x ∈ A, x ∈ D) → (∀ x ∈ B, x ∈ D) →
    (∀ j < k, ∀ b ∈ levelInputs pair ((nextLevel h pair)^[j] A), b ∈ S) →
    (∀ j < k, ∀ b ∈ levelInputs pair ((nextLevel h pair)^[j] B), b ∈ S) →
    (nextLevel h pair)^[k] A = (nextLevel h pair)^[k] B → Agree A B
  | 0, A, B, _, _, _, _, he => by
    have : A = B := he
    subst this
    exact ⟨Or.inl List.prefix_rfl, fun _ => Iff.rfl⟩
  | k + 1, A, B, hA, hB, hSA, hSB, he => by
    have ih := iterate_bind hS k (A := nextLevel h pair A) (B := nextLevel h pair B)
      (mem_nextLevel_D hD) (mem_nextLevel_D hD)
      (fun j hj => hSA (j + 1) (by omega)) (fun j hj => hSB (j + 1) (by omega)) he
    exact Agree.down hpair hS hA hB (hSA 0 (by omega)) (hSB 0 (by omega)) ih

end Pairs

/-! ## The root -/

/-- The nodes of `A` are hashes of inputs in `S` that are not pairs of nodes. -/
def BottomIn (h : β → δ) (pair : δ → δ → β) (D : Set δ) (S : Set β) (A : List δ) : Prop :=
  ∀ x ∈ A, ∃ b ∈ S, h b = x ∧ ∀ y ∈ D, ∀ z ∈ D, b ≠ pair y z

/-- The root of two or more nodes is the hash of a pair of nodes. -/
theorem reduce_root {D : Set δ} (hD : ∀ b, h b ∈ D) {fuel : Nat} {l : List δ}
    (h2 : 1 < l.length) (hle : l.length ≤ fuel) (hl : ∀ x ∈ l, x ∈ D) :
    ∃ y ∈ D, ∃ z ∈ D, pair y z ∈ reduceInputs h pair fuel l ∧
      reduce h pair fuel l = [h (pair y z)] := by
  have hone : (reduce h pair fuel l).length = 1 :=
    length_reduce fuel l (List.ne_nil_of_length_pos (by omega)) hle
  obtain ⟨r, hr⟩ := List.length_eq_one_iff.mp hone
  obtain ⟨k, hk, hin⟩ := reduce_eq_iterate fuel l
  cases k with
  | zero =>
    have : l = [r] := hk.symm.trans hr
    rw [this, List.length_singleton] at h2
    omega
  | succ k =>
    rw [hr, Function.iterate_succ_apply'] at hk
    obtain ⟨b, hb, hbr⟩ := List.mem_map.mp (hk ▸ List.mem_singleton_self r)
    obtain ⟨y, hy, z, hz, rfl⟩ := mem_levelInputs hb
    have mem_D : ∀ x ∈ (nextLevel h pair)^[k] l, x ∈ D := by
      cases k with
      | zero => exact hl
      | succ k => rw [Function.iterate_succ_apply']; exact mem_nextLevel_D hD
    exact ⟨y, mem_D y hy, z, mem_D z hz, hin k (Nat.lt_succ_self k) _ hb, by rw [hr, hbr]⟩

/-- A bottom level shares no member with a level further up. -/
theorem not_mem_nextLevel {D : Set δ} {S : Set β} (hS : Set.InjOn h S) {A B : List δ} {x : δ}
    (hA : BottomIn h pair D S A) (hB : ∀ y ∈ B, y ∈ D)
    (hSB : ∀ b ∈ levelInputs pair B, b ∈ S) (hx : x ∈ A) : x ∉ nextLevel h pair B := by
  intro hm
  obtain ⟨c, hc, hcx⟩ := List.mem_map.mp hm
  obtain ⟨b, hb, rfl, hne⟩ := hA x hx
  obtain ⟨y, hy, z, hz, rfl⟩ := mem_levelInputs hc
  exact hne y (hB y hy) z (hB z hz) (hS hb (hSB _ hc) hcx.symm)

theorem eq_of_prefix_of_nodup {A B : List δ} (hp : A <+: B) (hsub : ∀ x ∈ B, x ∈ A)
    (hn : B.Nodup) : A = B := by
  obtain ⟨C, rfl⟩ := hp
  cases C with
  | nil => exact (List.append_nil A).symm
  | cons c C =>
    have hc : c ∈ A := hsub c (by simp)
    exact absurd rfl ((List.nodup_append.mp hn).2.2 c hc c List.mem_cons_self)

/-- **The root binds the bottom level.** Different heights are impossible: the shallower bottom
level would share its nodes with a level above the deeper one. -/
theorem reduce_bind {D : Set δ} {S : Set β}
    (hpair : ∀ x ∈ D, ∀ y ∈ D, ∀ u ∈ D, ∀ v ∈ D, pair x y = pair u v → x = u ∧ y = v)
    (hD : ∀ b, h b ∈ D) (hS : Set.InjOn h S) {A B : List δ} {fa fb : Nat}
    (hA0 : A ≠ []) (hB0 : B ≠ []) (hA : BottomIn h pair D S A) (hB : BottomIn h pair D S B)
    (hSA : ∀ b ∈ reduceInputs h pair fa A, b ∈ S) (hSB : ∀ b ∈ reduceInputs h pair fb B, b ∈ S)
    (hnA : A.Nodup) (hnB : B.Nodup) (he : reduce h pair fa A = reduce h pair fb B) : A = B := by
  have mem_D : ∀ {C : List δ}, BottomIn h pair D S C → ∀ x ∈ C, x ∈ D := by
    intro C hC x hx
    obtain ⟨b, -, rfl, -⟩ := hC x hx
    exact hD b
  obtain ⟨a, ha, hia⟩ := reduce_eq_iterate fa A
  obtain ⟨b, hb, hib⟩ := reduce_eq_iterate fb B
  rw [ha, hb] at he
  -- one tree strictly deeper than the other is a contradiction
  have deeper : ∀ {A B : List δ} {a d : Nat}, A ≠ [] → BottomIn h pair D S A →
      (∀ x ∈ B, x ∈ D) →
      (∀ j < a, ∀ x ∈ levelInputs pair ((nextLevel h pair)^[j] A), x ∈ S) →
      (∀ j < a + (d + 1), ∀ x ∈ levelInputs pair ((nextLevel h pair)^[j] B), x ∈ S) →
      (nextLevel h pair)^[a] A = (nextLevel h pair)^[a + (d + 1)] B → False := by
    intro A B a d hA0 hA hBD hSA hSB he
    obtain ⟨x, hx⟩ := List.exists_mem_of_ne_nil A hA0
    have hBd : ∀ y ∈ (nextLevel h pair)^[d] B, y ∈ D := by
      cases d with
      | zero => exact hBD
      | succ d => rw [Function.iterate_succ_apply']; exact mem_nextLevel_D hD
    rw [Function.iterate_add_apply] at he
    have hag : Agree A ((nextLevel h pair)^[d + 1] B) := by
      refine iterate_bind hpair hD hS a (mem_D hA) ?_ hSA (fun j hj => ?_) he
      · rw [Function.iterate_succ_apply']; exact mem_nextLevel_D hD
      · rw [← Function.iterate_add_apply]; exact hSB _ (by omega)
    have hmem := (hag.2 x).mp hx
    rw [Function.iterate_succ_apply'] at hmem
    exact not_mem_nextLevel hS hA hBd (hSB d (by omega)) hx hmem
  have hSA' : ∀ j < a, ∀ x ∈ levelInputs pair ((nextLevel h pair)^[j] A), x ∈ S :=
    fun j hj x hx => hSA x (hia j hj x hx)
  have hSB' : ∀ j < b, ∀ x ∈ levelInputs pair ((nextLevel h pair)^[j] B), x ∈ S :=
    fun j hj x hx => hSB x (hib j hj x hx)
  rcases Nat.lt_trichotomy a b with hab | hab | hab
  · obtain ⟨d, rfl⟩ := Nat.exists_eq_add_of_lt hab
    exact (deeper hA0 hA (mem_D hB) hSA' hSB' he).elim
  · subst hab
    have hag := iterate_bind hpair hD hS a (mem_D hA) (mem_D hB) hSA' hSB' he
    rcases hag.1 with hp | hp
    · exact eq_of_prefix_of_nodup hp (fun x hx => (hag.2 x).mpr hx) hnB
    · exact (eq_of_prefix_of_nodup hp (fun x hx => (hag.2 x).mp hx) hnA).symm
  · obtain ⟨d, rfl⟩ := Nat.exists_eq_add_of_lt hab
    exact (deeper hB0 hB (mem_D hA) hSB' hSA' he.symm).elim

end Lib.HashTree
