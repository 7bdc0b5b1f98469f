import EvidentLedger.Merkle

/-!
# The structural checker

Model of `check_event_structure` (`src/service/verification.rs:21-51`): the first parent is nil, the
first sequence is 1, every later event continues the sequence and names its predecessor as parent.
The first event checks the parent before the sequence, the later ones the sequence before the
parent. On success the recomputed Merkle root is returned; an empty list passes with `"empty"`.

`prev.sequence + 1` is taken exactly, over the integers. No `i64` equals a sum past `i64::MAX`, so a
list that reached one would fail here where the source would overflow; a list has to be longer than
`2 ^ 63 - 1` events for that (`Linked.length_lt`).

* `checkEventStructure_ok`: the checker accepts exactly the linked lists (`Linked`) and returns
  their root, so `EmptyMerkle` is never reached.
* `Linked.sequence_eq`: the sequence of every position.
* `linked_append_singleton`: a linked list grows by exactly the next event, the one the ledger plans.
-/

namespace EvidentLedger

open Lib.Text

/-- `StructuralFailure`. -/
inductive StructuralFailure where
  | parentChain (index : Nat)
  | sequence (index : Nat)
  | emptyMerkle
  deriving Repr, DecidableEq

/-- The checks of one event, after its predecessor if it has one. -/
def checkLink (index : Nat) : Option EventRow → EventRow → Option StructuralFailure
  | none, event =>
    if event.parentEventId ≠ Uuid.nil then some (.parentChain index)
    else if event.sequence ≠ 1 then some (.sequence index)
    else none
  | some prev, event =>
    if event.sequence.toInt ≠ prev.sequence.toInt + 1 then some (.sequence index)
    else if event.parentEventId ≠ prev.eventId then some (.parentChain index)
    else none

/-- The loop over the events: the first failure. -/
def checkLinks : Nat → Option EventRow → List EventRow → Option StructuralFailure
  | _, _, [] => none
  | index, prev, event :: events =>
    match checkLink index prev event with
    | some failure => some failure
    | none => checkLinks (index + 1) (some event) events

/-- `check_event_structure`. -/
def checkEventStructure (sha : Sha256) (events : List EventRow) :
    Except StructuralFailure String :=
  if events = [] then .ok "empty"
  else
    match checkLinks 0 none events with
    | some failure => .error failure
    | none =>
      let merkleRoot := recomputeRootFromEvents sha events
      if merkleRoot = "" then .error .emptyMerkle else .ok merkleRoot

/-! ## Linked lists of events -/

/-- The sequence and the id an event continues from. -/
def lastSequence : Option EventRow → Int
  | none => 0
  | some prev => prev.sequence.toInt

def lastEventId : Option EventRow → Uuid
  | none => Uuid.nil
  | some prev => prev.eventId

/-- Every event continues the sequence and names its predecessor. -/
def Linked : Option EventRow → List EventRow → Prop
  | _, [] => True
  | prev, event :: events =>
    event.sequence.toInt = lastSequence prev + 1 ∧ event.parentEventId = lastEventId prev ∧
      Linked (some event) events

theorem toInt_eq_one {s : Int64} : s.toInt = 1 ↔ s = 1 := by
  rw [← Int64.toInt_inj]
  exact Iff.rfl

theorem checkLink_none {index : Nat} {prev : Option EventRow} {event : EventRow} :
    checkLink index prev event = none ↔
      event.sequence.toInt = lastSequence prev + 1 ∧ event.parentEventId = lastEventId prev := by
  cases prev with
  | none =>
    simp only [checkLink, lastSequence, lastEventId, Int.zero_add, toInt_eq_one]
    split_ifs with h1 h2
    · simp [h1]
    · simp [h2]
    · simp only [ne_eq, Decidable.not_not] at h1 h2
      simp [h1, h2]
  | some prev =>
    simp only [checkLink, lastSequence, lastEventId]
    split_ifs with h1 h2
    · simp [h1]
    · simp [h2]
    · simp only [ne_eq, Decidable.not_not] at h1 h2
      simp [h1, h2]

theorem checkLinks_none : ∀ {index : Nat} {prev : Option EventRow} {events : List EventRow},
    checkLinks index prev events = none ↔ Linked prev events
  | _, _, [] => by simp [checkLinks, Linked]
  | index, prev, event :: events => by
    unfold checkLinks Linked
    cases h : checkLink index prev event with
    | none =>
      obtain ⟨hs, hp⟩ := checkLink_none.mp h
      simp [hs, hp, checkLinks_none]
    | some failure =>
      simp only [reduceCtorEq, false_iff]
      rintro ⟨hs, hp, -⟩
      rw [checkLink_none.mpr ⟨hs, hp⟩] at h
      exact absurd h (by simp)

/-- **The checker accepts exactly the linked lists**, with their recomputed root. -/
theorem checkEventStructure_ok {sha : Sha256} {events : List EventRow} {root : String}
    (hne : events ≠ []) : checkEventStructure sha events = .ok root ↔
      Linked none events ∧ recomputeRootFromEvents sha events = root := by
  obtain ⟨x, hx⟩ := recompute_eq_digest sha hne
  have hroot : recomputeRootFromEvents sha events ≠ "" := by
    rw [hx]
    exact sha256Hex_ne_empty x
  unfold checkEventStructure
  rw [if_neg hne]
  cases h : checkLinks 0 none events with
  | none => simp [checkLinks_none.mp h, hroot]
  | some failure =>
    have hnot : ¬ Linked none events := fun hl => by
      rw [checkLinks_none.mpr hl] at h
      exact absurd h (by simp)
    simp [hnot]

/-- An accepted list is linked, empty or not. -/
theorem linked_of_checkEventStructure {sha : Sha256} {events : List EventRow} {root : String}
    (h : checkEventStructure sha events = .ok root) : Linked none events := by
  by_cases hne : events = []
  · subst hne
    exact trivial
  · exact ((checkEventStructure_ok hne).mp h).1

/-! ## Only the committed columns matter -/

theorem checkLink_congr {index : Nat} {prev prev' : Option EventRow} {e e' : EventRow}
    (hp : prev.map EventRow.content = prev'.map EventRow.content) (he : e.content = e'.content) :
    checkLink index prev e = checkLink index prev' e' := by
  simp only [EventRow.content, Prod.mk.injEq] at he
  obtain ⟨hs, -, hpar, -⟩ := he
  cases prev with
  | none =>
    cases prev' with
    | none => simp only [checkLink, hs, hpar]
    | some p' => exact absurd hp (by simp)
  | some p =>
    cases prev' with
    | none => exact absurd hp (by simp)
    | some p' =>
      simp only [Option.map_some, EventRow.content, Option.some.injEq, Prod.mk.injEq] at hp
      simp only [checkLink, hs, hpar, hp.1, hp.2.1]

theorem checkLinks_congr : ∀ {index : Nat} {prev prev' : Option EventRow} {l m : List EventRow},
    prev.map EventRow.content = prev'.map EventRow.content →
      l.map EventRow.content = m.map EventRow.content →
        checkLinks index prev l = checkLinks index prev' m
  | _, _, _, [], [], _, _ => rfl
  | _, _, _, [], _ :: _, _, h => absurd h (by simp)
  | _, _, _, _ :: _, [], _, h => absurd h (by simp)
  | index, prev, prev', e :: l, e' :: m, hp, h => by
    obtain ⟨he, hlm⟩ := List.cons.inj h
    unfold checkLinks
    rw [checkLink_congr hp he]
    split
    · rfl
    · exact checkLinks_congr (by simp [he]) hlm

/-- The leaf of a row is a function of the four columns. -/
theorem map_leaf_congr {sha : Sha256} {l m : List EventRow}
    (h : l.map EventRow.content = m.map EventRow.content) :
    l.map (EventRow.leaf sha) = m.map (EventRow.leaf sha) := by
  have hfun : EventRow.leaf sha =
      (fun c => buildLeaf sha c.1 c.2.1 c.2.2.1 c.2.2.2) ∘ EventRow.content := rfl
  rw [hfun, ← List.map_map, ← List.map_map, h]

theorem recomputeRoot_congr {sha : Sha256} {l m : List EventRow}
    (h : l.map EventRow.content = m.map EventRow.content) :
    recomputeRootFromEvents sha l = recomputeRootFromEvents sha m := by
  rw [recomputeRootFromEvents, map_leaf_congr h, recomputeRootFromEvents]

theorem recomputeInputs_congr {sha : Sha256} {l m : List EventRow}
    (h : l.map EventRow.content = m.map EventRow.content) :
    recomputeInputs sha l = recomputeInputs sha m := by
  have hfun : EventRow.leafInput =
      (fun c => leafInput c.1 c.2.1 c.2.2.1 c.2.2.2) ∘ EventRow.content := rfl
  rw [recomputeInputs, recomputeInputs, map_leaf_congr h, hfun, ← List.map_map, ← List.map_map, h]

/-- **Rows that agree in the four columns are checked alike.** -/
theorem checkEventStructure_congr {sha : Sha256} {l m : List EventRow}
    (h : l.map EventRow.content = m.map EventRow.content) :
    checkEventStructure sha l = checkEventStructure sha m := by
  have hnil : l = [] ↔ m = [] := by
    rw [← List.map_eq_nil_iff, h, List.map_eq_nil_iff]
  unfold checkEventStructure
  rw [checkLinks_congr rfl h, recomputeRoot_congr h]
  simp only [hnil]

/-! ## Position by position -/

theorem Linked.sequence_eq : ∀ {events : List EventRow} {prev : Option EventRow},
    Linked prev events → ∀ (i : Nat) (h : i < events.length),
      events[i].sequence.toInt = lastSequence prev + (i + 1)
  | event :: events, prev, hl, 0, _ => by
    rw [List.getElem_cons_zero, hl.1]
    omega
  | event :: events, prev, hl, i + 1, h => by
    have ih := hl.2.2.sequence_eq i (by simpa using h)
    rw [List.getElem_cons_succ, ih, lastSequence, hl.1]
    omega

/-- A linked list has at most `i64::MAX` events. -/
theorem Linked.length_lt {events : List EventRow} (hl : Linked none events) :
    events.length < 2 ^ 63 := by
  by_cases h0 : events.length = 0
  · omega
  · have hs := hl.sequence_eq (events.length - 1) (by omega)
    have hlt := Int64.toInt_lt events[events.length - 1].sequence
    simp only [lastSequence] at hs
    omega

/-- The sequences of a linked list are distinct. -/
theorem Linked.nodup_content {events : List EventRow} (hl : Linked none events) :
    (events.map EventRow.content).Nodup := by
  unfold List.Nodup
  rw [List.pairwise_iff_getElem]
  intro i j hi hj hij heq
  rw [List.length_map] at hi hj
  rw [List.getElem_map, List.getElem_map] at heq
  have hseq : events[i].sequence = events[j].sequence := congrArg Prod.fst heq
  have h1 := hl.sequence_eq i hi
  have h2 := hl.sequence_eq j hj
  rw [hseq] at h1
  omega

theorem linked_append : ∀ {l m : List EventRow} {prev : Option EventRow},
    Linked prev (l ++ m) ↔ Linked prev l ∧ Linked (l.getLast?.or prev) m
  | [], m, prev => by simp [Linked]
  | e :: l, m, prev => by
    have hlast : (e :: l).getLast?.or prev = l.getLast?.or (some e) := by
      cases l with
      | nil => rfl
      | cons a l => simp [List.getLast?_eq_getLast_of_ne_nil]
    rw [List.cons_append, Linked, Linked, linked_append, hlast]
    tauto

/-- **Growth by the planned event.** -/
theorem linked_append_singleton {l : List EventRow} {e : EventRow} :
    Linked none (l ++ [e]) ↔ Linked none l ∧
      e.sequence.toInt = lastSequence l.getLast? + 1 ∧ e.parentEventId = lastEventId l.getLast? := by
  rw [linked_append]
  simp [Linked]

/-- The last sequence of a linked list is its length. -/
theorem Linked.lastSequence_eq {l : List EventRow} (hl : Linked none l) :
    lastSequence l.getLast? = l.length := by
  cases h : l.getLast? with
  | none => simp [List.getLast?_eq_none_iff.mp h, lastSequence]
  | some e =>
    have hne : l ≠ [] := fun h0 => by simp [h0] at h
    have hpos := List.length_pos_iff.mpr hne
    rw [List.getLast?_eq_getElem?, List.getElem?_eq_getElem (by omega)] at h
    have hs := hl.sequence_eq (l.length - 1) (by omega)
    rw [Option.some.inj h] at hs
    simp only [lastSequence] at hs ⊢
    omega

end EvidentLedger
