import EvidentLedger.Structure
import Mathlib.Data.List.Nodup

/-!
# Merkle binding

Two structurally valid, non-empty lists of events with one Merkle root agree in every column the
leaves commit to, or their two root computations contain a SHA-256 collision.

The collision is explicit: `Collision sha inputs` names two different byte strings among those the
two computations hash. Nothing is assumed of SHA-256. The argument in the contrapositive reading:
if the hash is injective on these inputs, then
* a one-event root is the digest of a leaf input, which starts with the zero bytes of sequence 1,
  and no node input has a zero byte, so the heights are both zero or both positive;
* at positive heights `Lib.HashTree.reduce_bind` applies, as the leaves are distinct (their sequences
  are) and a leaf text is half as long as a node input.

`root_binding_nodup` is the injective form for rows that need not be linked: it asks that they are
distinct, and that a row which is alone does not read as a node (`ReadsAsNode`). `root_binding` is its
case for linked rows, used by every later soundness result.
-/

namespace EvidentLedger

open Lib.Text Lib.HashTree

/-- Two different inputs of the list with one digest. -/
def Collision (sha : Sha256) (inputs : List (List UInt8)) : Prop :=
  ∃ x ∈ inputs, ∃ y ∈ inputs, x ≠ y ∧ sha x = sha y

variable {sha : Sha256}

theorem injOn_of_not_collision {inputs : List (List UInt8)} (h : ¬ Collision sha inputs) :
    Set.InjOn sha {x | x ∈ inputs} := by
  intro x hx y hy hxy
  by_contra hne
  exact h ⟨x, hx, y, hy, hne, hxy⟩

/-- Equal images under one function, equal images under a coarser one. -/
theorem map_congr_of_map_eq {α β γ : Type} {f : α → β} {g : α → γ} : ∀ {l m : List α},
    (∀ x ∈ l, ∀ y ∈ m, f x = f y → g x = g y) → l.map f = m.map f → l.map g = m.map g
  | [], [], _, _ => rfl
  | [], _ :: _, _, h => absurd h (by simp)
  | _ :: _, [], _, h => absurd h (by simp)
  | x :: l, y :: m, hfg, h => by
    obtain ⟨hxy, hlm⟩ := List.cons.inj h
    have ih := map_congr_of_map_eq (l := l) (m := m)
      (fun u hu v hv => hfg u (List.mem_cons_of_mem x hu) v (List.mem_cons_of_mem y hv)) hlm
    rw [List.map_cons, List.map_cons, ih,
      hfg x List.mem_cons_self y List.mem_cons_self hxy]

/-! ## Node inputs -/

theorem nodeInput_inj : ∀ x ∈ Set.range (sha256Hex sha), ∀ y ∈ Set.range (sha256Hex sha),
    ∀ u ∈ Set.range (sha256Hex sha), ∀ v ∈ Set.range (sha256Hex sha),
      nodeInput x y = nodeInput u v → x = u ∧ y = v := by
  rintro _ ⟨x, rfl⟩ _ ⟨y, rfl⟩ _ ⟨u, rfl⟩ _ ⟨v, rfl⟩ h
  obtain ⟨h1, h2⟩ := List.append_inj h
    (by rw [length_asBytes_sha256Hex, length_asBytes_sha256Hex])
  exact ⟨asBytes_inj h1, asBytes_inj h2⟩

theorem length_nodeInput {x y : String} (hx : x ∈ Set.range (sha256Hex sha))
    (hy : y ∈ Set.range (sha256Hex sha)) : (nodeInput x y).length = 128 := by
  obtain ⟨x, rfl⟩ := hx
  obtain ⟨y, rfl⟩ := hy
  rw [nodeInput, List.length_append, length_asBytes_sha256Hex, length_asBytes_sha256Hex]

theorem zero_not_mem_nodeInput {x y : String} (hx : x ∈ Set.range (sha256Hex sha))
    (hy : y ∈ Set.range (sha256Hex sha)) : (0 : UInt8) ∉ nodeInput x y := by
  obtain ⟨x, rfl⟩ := hx
  obtain ⟨y, rfl⟩ := hy
  rw [nodeInput, List.mem_append, not_or]
  exact ⟨zero_not_mem_hexEncode _, zero_not_mem_hexEncode _⟩

/-- A row that reads as a node of a tree: what is hashed for its leaf is a pair of digests. -/
def ReadsAsNode (sha : Sha256) (e : EventRow) : Prop :=
  ∃ y ∈ Set.range (sha256Hex sha), ∃ z ∈ Set.range (sha256Hex sha), e.leafInput = nodeInput y z

/-- The leaf input of a first event has a zero byte. -/
theorem zero_mem_leafInput {e : EventRow} (h : e.sequence = 1) : (0 : UInt8) ∈ e.leafInput := by
  unfold EventRow.leafInput leafInput
  rw [h]
  simp only [List.append_assoc, List.mem_append]
  exact Or.inl (by decide)

/-- A first event does not read as a node. -/
theorem not_readsAsNode {e : EventRow} (h : e.sequence = 1) : ¬ ReadsAsNode sha e := by
  rintro ⟨y, hy, z, hz, heq⟩
  exact zero_not_mem_nodeInput hy hz (heq ▸ zero_mem_leafInput h)

/-! ## Leaves of distinct rows -/

variable {S : Set (List UInt8)} {l m : List EventRow}

theorem injOn_sha256Hex (hS : Set.InjOn sha S) : Set.InjOn (sha256Hex sha) S :=
  fun _ hx _ hy h => hS hx hy (sha256Hex_inj h)

theorem leafInput_mem (hin : ∀ b ∈ recomputeInputs sha l, b ∈ S) : ∀ e ∈ l, e.leafInput ∈ S :=
  fun _ he => hin _ (List.mem_append_left _ (List.mem_map_of_mem he))

theorem content_eq_of_leaf_eq (hS : Set.InjOn sha S) (hl : ∀ e ∈ l, e.leafInput ∈ S)
    (hm : ∀ e ∈ m, e.leafInput ∈ S) :
    ∀ x ∈ l, ∀ y ∈ m, x.leaf sha = y.leaf sha → x.content = y.content :=
  fun x hx y hy h => leafInput_inj (injOn_sha256Hex hS (hl x hx) (hm y hy) h)

theorem length_asBytes_leaf {leaf : String} (h : leaf ∈ l.map (EventRow.leaf sha)) :
    (asBytes leaf).length = 64 := by
  obtain ⟨e, -, rfl⟩ := List.mem_map.mp h
  exact length_asBytes_sha256Hex _

/-- The leaf texts of two or more events are hashed once more. -/
theorem asBytes_leaf_mem (h2 : 1 < l.length) (hin : ∀ b ∈ recomputeInputs sha l, b ∈ S) :
    ∀ leaf ∈ l.map (EventRow.leaf sha), asBytes leaf ∈ S := by
  intro leaf hleaf
  refine hin _ (List.mem_append_right _ ?_)
  rw [rootInputs_of_two_le (by rwa [List.length_map])]
  exact List.mem_append_left _ (List.mem_map_of_mem hleaf)

/-- **The leaves of distinct rows are distinct**, and so are their hashes. -/
theorem nodup_hashedLeaves (hS : Set.InjOn sha S) (hc : (l.map EventRow.content).Nodup)
    (h2 : 1 < l.length) (hin : ∀ b ∈ recomputeInputs sha l, b ∈ S) :
    (hashedLeaves sha (l.map (EventRow.leaf sha))).Nodup := by
  have hleaf : (l.map (EventRow.leaf sha)).Nodup := by
    refine List.Nodup.map_on (fun x hx y hy h => ?_) hc.of_map
    exact List.inj_on_of_nodup_map hc hx hy
      (content_eq_of_leaf_eq hS (leafInput_mem hin) (leafInput_mem hin) x hx y hy h)
  refine List.Nodup.map_on (fun x hx y hy h => ?_) hleaf
  have hb := asBytes_leaf_mem h2 hin
  exact asBytes_inj (injOn_sha256Hex hS (hb x hx) (hb y hy) h)

theorem bottomIn_hashedLeaves (h2 : 1 < l.length) (hin : ∀ b ∈ recomputeInputs sha l, b ∈ S) :
    BottomIn (sha256Hex sha) nodeInput (Set.range (sha256Hex sha)) S
      (hashedLeaves sha (l.map (EventRow.leaf sha))) := by
  intro x hx
  obtain ⟨leaf, hleaf, rfl⟩ := List.mem_map.mp hx
  refine ⟨asBytes leaf, asBytes_leaf_mem h2 hin leaf hleaf, rfl, fun y hy z hz he => ?_⟩
  have h64 := length_asBytes_leaf hleaf
  rw [he, length_nodeInput hy hz] at h64
  omega

/-! ## Binding -/

/-- A single leaf is not the root of two or more, unless it reads as a node. -/
theorem leaf_ne_root (hS : Set.InjOn sha S) {e : EventRow} (he : ¬ ReadsAsNode sha e)
    (hin : e.leafInput ∈ S) (h2 : 1 < m.length) (hinm : ∀ b ∈ recomputeInputs sha m, b ∈ S) :
    e.leaf sha ≠ recomputeRootFromEvents sha m := by
  intro h
  obtain ⟨y, hy, z, hz, hmem, hr⟩ :=
    buildMerkleRoot_pair sha (by rwa [List.length_map] : 1 < (m.map (EventRow.leaf sha)).length)
  rw [recomputeRootFromEvents, hr] at h
  exact he ⟨y, hy, z, hz, injOn_sha256Hex hS hin (hinm _ (List.mem_append_right _ hmem)) h⟩

/-- **Binding, in the injective form**, for distinct rows. -/
theorem root_binding_nodup (hS : Set.InjOn sha S) (hl0 : l ≠ []) (hm0 : m ≠ [])
    (hl : (l.map EventRow.content).Nodup) (hm : (m.map EventRow.content).Nodup)
    (hl1 : ∀ e, l = [e] → ¬ ReadsAsNode sha e) (hm1 : ∀ e, m = [e] → ¬ ReadsAsNode sha e)
    (hinl : ∀ b ∈ recomputeInputs sha l, b ∈ S)
    (hinm : ∀ b ∈ recomputeInputs sha m, b ∈ S)
    (hroot : recomputeRootFromEvents sha l = recomputeRootFromEvents sha m) :
    l.map EventRow.content = m.map EventRow.content := by
  have hlpos := List.length_pos_iff.mpr hl0
  have hmpos := List.length_pos_iff.mpr hm0
  by_cases hl2 : 1 < l.length
  · by_cases hm2 : 1 < m.length
    · -- both trees have a pair at the root
      have hl2' : 1 < (l.map (EventRow.leaf sha)).length := by rwa [List.length_map]
      have hm2' : 1 < (m.map (EventRow.leaf sha)).length := by rwa [List.length_map]
      have hne : ∀ {k : List EventRow}, k ≠ [] →
          hashedLeaves sha (k.map (EventRow.leaf sha)) ≠ [] := fun hk => by
        simpa [hashedLeaves] using hk
      have hreduce : ∀ {k : List String}, 1 < k.length →
          reduce (sha256Hex sha) nodeInput k.length (hashedLeaves sha k) =
            [buildMerkleRoot sha k] := by
        intro k hk
        have hlen : (hashedLeaves sha k).length = k.length := List.length_map _
        obtain ⟨r, hr⟩ := List.length_eq_one_iff.mp
          (length_reduce k.length (hashedLeaves sha k)
            (List.ne_nil_of_length_pos (by omega)) (Nat.le_of_eq hlen))
        rw [buildMerkleRoot_of_two_le hk, hr]
        rfl
      have hhashed : hashedLeaves sha (l.map (EventRow.leaf sha)) =
          hashedLeaves sha (m.map (EventRow.leaf sha)) := by
        refine reduce_bind nodeInput_inj Set.mem_range_self (injOn_sha256Hex hS) (hne hl0) (hne hm0)
          (bottomIn_hashedLeaves hl2 hinl) (bottomIn_hashedLeaves hm2 hinm) (fun b hb => ?_)
          (fun b hb => ?_) (nodup_hashedLeaves hS hl hl2 hinl) (nodup_hashedLeaves hS hm hm2 hinm)
          ((hreduce hl2').trans ((congrArg (fun r => [r]) hroot).trans (hreduce hm2').symm))
        · refine hinl b (List.mem_append_right _ ?_)
          rw [rootInputs_of_two_le hl2']
          exact List.mem_append_right _ hb
        · refine hinm b (List.mem_append_right _ ?_)
          rw [rootInputs_of_two_le hm2']
          exact List.mem_append_right _ hb
      have hleaves : l.map (EventRow.leaf sha) = m.map (EventRow.leaf sha) := by
        have := map_congr_of_map_eq (g := id) (fun x hx y hy h => asBytes_inj (injOn_sha256Hex hS
          (asBytes_leaf_mem hl2 hinl x hx) (asBytes_leaf_mem hm2 hinm y hy) h)) hhashed
        simpa using this
      exact map_congr_of_map_eq
        (content_eq_of_leaf_eq hS (leafInput_mem hinl) (leafInput_mem hinm)) hleaves
    · obtain ⟨e, rfl⟩ := List.length_eq_one_iff.mp (by omega : m.length = 1)
      exact absurd hroot.symm (leaf_ne_root hS (hm1 e rfl)
        (leafInput_mem hinm e List.mem_cons_self) hl2 hinl)
  · obtain ⟨e, rfl⟩ := List.length_eq_one_iff.mp (by omega : l.length = 1)
    by_cases hm2 : 1 < m.length
    · exact absurd hroot (leaf_ne_root hS (hl1 e rfl)
        (leafInput_mem hinl e List.mem_cons_self) hm2 hinm)
    · obtain ⟨e', rfl⟩ := List.length_eq_one_iff.mp (by omega : m.length = 1)
      have hc := content_eq_of_leaf_eq hS (leafInput_mem hinl) (leafInput_mem hinm) e
        List.mem_cons_self e' List.mem_cons_self hroot
      rw [List.map_singleton, List.map_singleton, hc]

/-- **Binding, in the injective form**, for linked rows. -/
theorem root_binding (hS : Set.InjOn sha S) (hl0 : l ≠ []) (hm0 : m ≠ []) (hl : Linked none l)
    (hm : Linked none m) (hinl : ∀ b ∈ recomputeInputs sha l, b ∈ S)
    (hinm : ∀ b ∈ recomputeInputs sha m, b ∈ S)
    (hroot : recomputeRootFromEvents sha l = recomputeRootFromEvents sha m) :
    l.map EventRow.content = m.map EventRow.content := by
  have first : ∀ {k : List EventRow}, Linked none k → ∀ e, k = [e] → ¬ ReadsAsNode sha e := by
    rintro _ hk e rfl
    exact not_readsAsNode (toInt_eq_one.mp (by simpa [lastSequence] using hk.1))
  exact root_binding_nodup hS hl0 hm0 hl.nodup_content hm.nodup_content (first hl) (first hm) hinl hinm
    hroot

/-- Equal columns, position by position. -/
theorem content_eq_iff {l m : List EventRow} :
    l.map EventRow.content = m.map EventRow.content ↔
      l.length = m.length ∧ ∀ (i : Nat) (hi : i < l.length) (hj : i < m.length),
        l[i].sequence = m[i].sequence ∧ l[i].eventId = m[i].eventId ∧
          l[i].parentEventId = m[i].parentEventId ∧ l[i].fileHash = m[i].fileHash := by
  constructor
  · intro h
    refine ⟨by simpa using congrArg List.length h, fun i hi hj => ?_⟩
    have hget := congrArg (fun k => k[i]?) h
    simp only [List.getElem?_map, List.getElem?_eq_getElem hi, List.getElem?_eq_getElem hj,
      Option.map_some, Option.some.injEq, EventRow.content, Prod.mk.injEq] at hget
    exact hget
  · rintro ⟨hlen, h⟩
    refine List.ext_getElem (by simpa using hlen) fun i hi hj => ?_
    rw [List.length_map] at hi hj
    obtain ⟨h1, h2, h3, h4⟩ := h i hi hj
    simp only [List.getElem_map, EventRow.content, h1, h2, h3, h4]

/-! ## What depends on the columns only -/

theorem leaf_congr {a b : EventRow} (h : a.content = b.content) : a.leaf sha = b.leaf sha := by
  obtain ⟨hs, he, hp, hf⟩ : a.sequence = b.sequence ∧ a.eventId = b.eventId ∧
      a.parentEventId = b.parentEventId ∧ a.fileHash = b.fileHash := by
    simpa only [EventRow.content, Prod.mk.injEq] using h
  rw [EventRow.leaf, EventRow.leaf, hs, he, hp, hf]

/-- Equal columns, equal roots. -/
theorem recompute_congr (h : l.map EventRow.content = m.map EventRow.content) :
    recomputeRootFromEvents sha l = recomputeRootFromEvents sha m := by
  rw [recomputeRootFromEvents, recomputeRootFromEvents,
    map_congr_of_map_eq (fun _ _ _ _ hxy => leaf_congr hxy) h]

/-- Whether rows are linked depends on their columns only. -/
theorem linked_congr {p q : Option EventRow} (hp : p.map EventRow.content = q.map EventRow.content)
    (h : l.map EventRow.content = m.map EventRow.content) (hl : Linked p l) : Linked q m := by
  induction l generalizing p q m with
  | nil =>
    rw [List.map_nil] at h
    rw [List.map_eq_nil_iff.mp h.symm]
    trivial
  | cons e l ih =>
    cases m with
    | nil => exact absurd h (by simp)
    | cons e' m =>
      obtain ⟨he, hlm⟩ := List.cons.inj h
      have hcolumns := he
      simp only [EventRow.content, Prod.mk.injEq] at hcolumns
      obtain ⟨hsequence, -, hparent, -⟩ := hcolumns
      have hprev : lastSequence p = lastSequence q ∧ lastEventId p = lastEventId q := by
        cases p <;> cases q <;> simp_all [EventRow.content, lastSequence, lastEventId]
      obtain ⟨hs, hpar, hrest⟩ := hl
      refine ⟨by rw [← hsequence, hs, hprev.1], by rw [← hparent, hpar, hprev.2], ?_⟩
      exact ih (p := some e) (q := some e') (congrArg some he) hlm hrest

/-- **Merkle binding.** Two non-empty lists that pass the structural checker and have one root agree
position by position in sequence, event id, parent and file hash, or the two root computations
contain a collision. -/
theorem merkle_binding (sha : Sha256) (l m : List EventRow) (rl rm : String) (hl0 : l ≠ [])
    (hm0 : m ≠ []) (hl : checkEventStructure sha l = .ok rl)
    (hm : checkEventStructure sha m = .ok rm)
    (hroot : recomputeRootFromEvents sha l = recomputeRootFromEvents sha m) :
    (l.length = m.length ∧ ∀ (i : Nat) (hi : i < l.length) (hj : i < m.length),
      l[i].sequence = m[i].sequence ∧ l[i].eventId = m[i].eventId ∧
        l[i].parentEventId = m[i].parentEventId ∧ l[i].fileHash = m[i].fileHash) ∨
      Collision sha (recomputeInputs sha l ++ recomputeInputs sha m) := by
  by_cases hc : Collision sha (recomputeInputs sha l ++ recomputeInputs sha m)
  · exact Or.inr hc
  · refine Or.inl (content_eq_iff.mp ?_)
    exact root_binding (injOn_of_not_collision hc) hl0 hm0 (linked_of_checkEventStructure hl)
      (linked_of_checkEventStructure hm) (fun b hb => List.mem_append_left _ hb)
      (fun b hb => List.mem_append_right _ hb) hroot

/-- A stand-in for SHA-256 in examples: a polynomial of the input modulo `2 ^ 64`. -/
def sampleSha : Sha256 := fun x =>
  ⟨List.replicate 24 0 ++ beBytes (x.foldl (fun a b => (a * 257 + b.toNat + 1) % 2 ^ 64) 0), rfl⟩

/-- A two-event chain, read at time `t`. -/
def sampleEvents (t : Int) : List EventRow :=
  [⟨Uuid.small 1, Uuid.nil, "aa", t, 1⟩, ⟨Uuid.small 2, Uuid.small 1, "bb", t + 1, 2⟩]

theorem merkle_binding_sampleEvents :
    (((sampleEvents 0).length = (sampleEvents 5).length ∧
      ∀ (i : Nat) (_hi : i < (sampleEvents 0).length) (_hj : i < (sampleEvents 5).length),
        (sampleEvents 0)[i].sequence = (sampleEvents 5)[i].sequence ∧
          (sampleEvents 0)[i].eventId = (sampleEvents 5)[i].eventId ∧
          (sampleEvents 0)[i].parentEventId = (sampleEvents 5)[i].parentEventId ∧
          (sampleEvents 0)[i].fileHash = (sampleEvents 5)[i].fileHash) ∨
      Collision sampleSha (recomputeInputs sampleSha (sampleEvents 0) ++
        recomputeInputs sampleSha (sampleEvents 5))) :=
  merkle_binding sampleSha (sampleEvents 0) (sampleEvents 5)
    (recomputeRootFromEvents sampleSha (sampleEvents 0))
    (recomputeRootFromEvents sampleSha (sampleEvents 5)) (by decide) (by decide) (by decide +kernel)
    (by decide +kernel)
    (by decide +kernel)

end EvidentLedger
