import EvidentLedger.Signing
import Mathlib.Algebra.Group.Int.Defs
import Mathlib.Order.Bounds.Basic

/-!
# The structural checker, position by position

`checkEventStructure` of `Structure.lean` compares each event with its predecessor, in an order of its
own for the first one, and adds to the sequence over the integers. Here is what it comes to:

* `LinkedAt`: what position `i` has to satisfy, with no reference to the loop.
* `checkEventStructureI64`: the same loop with the `i64` addition of the source, which stops where
  `prev.sequence + 1` overflows (`src/service/verification.rs:35`).
* `stampHash`: the bytes `stamp_chain` asks the authority to stamp (`src/tsa_worker.rs:8-14`).

## Results

* `checkLinks_some`: where the loop stops, everything before is linked.
* `checkEventStructureI64_eq`: no addition overflows, whatever the sequences: up to the event that is
  compared, they count the events.
* **`check_event_structure_exact`**: what is accepted, the position that is reported, the root, and
  the additions.
-/

namespace EvidentLedger

open Lib.Text

variable {sha : Sha256} {events : List EventRow} {i index : Nat} {prev : Option EventRow}
  {failure : StructuralFailure}

/-- A slice of events: it has at most `isize::MAX` bytes. -/
abbrev EventSlice : Type := {events : List EventRow // events.length < 2 ^ 63}

/-! ## One position -/

/-- The id that the event at position `i` has to name as parent. -/
def idBefore (events : List EventRow) : Nat → Option Uuid
  | 0 => some Uuid.nil
  | i + 1 => events[i]?.map EventRow.eventId

/-- `sequence_i = i + 1` and `parent_i = event_id_{i-1}`. -/
def LinkedAt (events : List EventRow) (i : Nat) : Prop :=
  ∃ event, events[i]? = some event ∧ event.sequence.toInt = i + 1 ∧
    idBefore events i = some event.parentEventId

/-- The position a failure is reported at. -/
def StructuralFailure.index? : StructuralFailure → Option Nat
  | .parentChain index => some index
  | .sequence index => some index
  | .emptyMerkle => none

theorem idBefore_append (before : List EventRow) (event : EventRow) (after : List EventRow) :
    idBefore (before ++ event :: after) before.length = some (lastEventId before.getLast?) := by
  rcases List.eq_nil_or_concat' before with rfl | ⟨before, last, rfl⟩
  · rfl
  · rw [List.length_append, List.length_singleton, idBefore, List.append_assoc,
      List.getElem?_append_right le_rfl, Nat.sub_self]
    simp [lastEventId]

/-- After a linked list, a position is linked exactly if the loop finds nothing there. -/
theorem linkedAt_append {before after : List EventRow} {event : EventRow} (hl : Linked none before) :
    LinkedAt (before ++ event :: after) before.length ↔
      checkLink index before.getLast? event = none := by
  rw [checkLink_none, hl.lastSequence_eq]
  unfold LinkedAt
  rw [idBefore_append, List.getElem?_append_right le_rfl, Nat.sub_self, List.getElem?_cons_zero]
  constructor
  · rintro ⟨e, he, hs, hp⟩
    obtain rfl := Option.some.inj he
    exact ⟨hs, (Option.some.inj hp).symm⟩
  · rintro ⟨hs, hp⟩
    exact ⟨event, rfl, hs, congrArg some hp.symm⟩

/-- A linked list is linked at every position, and so is what it continues to. -/
theorem linkedAt_of_linked {before : List EventRow} (after : List EventRow)
    (hl : Linked none before) (hi : i < before.length) : LinkedAt (before ++ after) i := by
  have hsplit : before = before.take i ++ before[i] :: before.drop (i + 1) := by
    rw [List.getElem_cons_drop, List.take_append_drop]
  have hlen : (before.take i).length = i := List.length_take_of_le hi.le
  rw [hsplit, linked_append] at hl
  obtain ⟨hbefore, hs, hp, -⟩ := hl
  rw [Option.or_none] at hs hp
  have hat := (@linkedAt_append 0 _ (before.drop (i + 1) ++ after) _ hbefore).mpr
    (checkLink_none.mpr ⟨hs, hp⟩)
  rwa [hlen, ← List.cons_append, ← List.append_assoc, ← hsplit] at hat

/-! ## The first failure -/

/-- **Where the loop stops, everything before is linked.** -/
theorem checkLinks_some : ∀ {index : Nat} {prev : Option EventRow} {events : List EventRow},
    checkLinks index prev events = some failure →
      ∃ before event after, events = before ++ event :: after ∧ Linked prev before ∧
        checkLink (index + before.length) (before.getLast?.or prev) event = some failure
  | _, _, [], h => absurd h (by simp [checkLinks])
  | index, prev, event :: events, h => by
    unfold checkLinks at h
    cases hlink : checkLink index prev event with
    | some f =>
      rw [hlink] at h
      exact ⟨[], event, events, rfl, trivial, hlink.trans h⟩
    | none =>
      rw [hlink] at h
      obtain ⟨before, e, after, rfl, hl, he⟩ := checkLinks_some h
      obtain ⟨hs, hp⟩ := checkLink_none.mp hlink
      refine ⟨event :: before, e, after, rfl, ⟨hs, hp, hl⟩, ?_⟩
      rw [List.length_cons, ← he]
      congr 1
      · omega
      · cases before with
        | nil => rfl
        | cons b before => simp [List.getLast?_eq_getLast_of_ne_nil]

/-- A failure is reported where it is. -/
theorem checkLink_index {event : EventRow} (h : checkLink index prev event = some failure) :
    failure.index? = some index := by
  cases prev with
  | none =>
    simp only [checkLink] at h
    split_ifs at h <;> (obtain rfl := Option.some.inj h; rfl)
  | some prev =>
    simp only [checkLink] at h
    split_ifs at h <;> (obtain rfl := Option.some.inj h; rfl)

/-- **The position that is reported** is the first that is not linked. -/
theorem isLeast_of_checkLinks (h : checkLinks 0 none events = some failure) :
    ∃ i, failure.index? = some i ∧ IsLeast {i | i < events.length ∧ ¬ LinkedAt events i} i := by
  obtain ⟨before, event, after, rfl, hl, hlink⟩ := checkLinks_some h
  rw [Option.or_none, Nat.zero_add] at hlink
  refine ⟨before.length, checkLink_index hlink, ⟨by simp, fun hat => ?_⟩, ?_⟩
  · rw [linkedAt_append hl] at hat
    rw [hat] at hlink
    exact absurd hlink (by simp)
  · rintro j ⟨-, hj⟩
    refine le_of_not_gt fun hlt => hj (linkedAt_of_linked _ hl hlt)

/-- The lists without a failure are linked at every position. -/
theorem checkLinks_none_iff :
    checkLinks 0 none events = none ↔ ∀ i < events.length, LinkedAt events i := by
  constructor
  · intro h i hi
    have hat := linkedAt_of_linked [] (checkLinks_none.mp h) hi
    rwa [List.append_nil] at hat
  · intro h
    cases hlinks : checkLinks 0 none events with
    | none => rfl
    | some failure =>
      obtain ⟨i, -, ⟨hi, hnot⟩, -⟩ := isLeast_of_checkLinks hlinks
      exact absurd (h i hi) hnot

/-! ## Additions in `i64` -/

/-- `x + 1` in `i64`: nothing where it overflows. -/
def succI64 (x : Int64) : Option Int64 := if x = Int64.maxValue then none else some (x + 1)

/-- The checks of one event, with the addition of the source. -/
def checkLinkI64 (index : Nat) : Option EventRow → EventRow → Option (Option StructuralFailure)
  | none, event =>
    some (if event.parentEventId ≠ Uuid.nil then some (.parentChain index)
      else if event.sequence ≠ 1 then some (.sequence index)
      else none)
  | some prev, event =>
    (succI64 prev.sequence).map fun expected =>
      if event.sequence ≠ expected then some (.sequence index)
      else if event.parentEventId ≠ prev.eventId then some (.parentChain index)
      else none

/-- The loop over the events. -/
def checkLinksI64 : Nat → Option EventRow → List EventRow → Option (Option StructuralFailure)
  | _, _, [] => some none
  | index, prev, event :: events =>
    match checkLinkI64 index prev event with
    | none => none
    | some (some failure) => some (some failure)
    | some none => checkLinksI64 (index + 1) (some event) events

/-- `check_event_structure` with the additions of the source: nothing if one of them overflows. -/
def checkEventStructureI64 (sha : Sha256) (events : List EventRow) :
    Option (Except StructuralFailure String) :=
  if events = [] then some (.ok "empty")
  else
    (checkLinksI64 0 none events).map fun found =>
      match found with
      | some failure => .error failure
      | none =>
        let merkleRoot := recomputeRootFromEvents sha events
        if merkleRoot = "" then .error .emptyMerkle else .ok merkleRoot

theorem succI64_eq {x : Int64} (h : x.toInt + 1 < 2 ^ 63) :
    succI64 x = some (x + 1) ∧ (x + 1).toInt = x.toInt + 1 := by
  constructor
  · refine if_neg ?_
    rintro rfl
    exact absurd h (by decide)
  · have hge := Int64.le_toInt x
    rw [Int64.toInt_add, Int64.toInt_one]
    exact Int.bmod_eq_of_le (by omega) (by omega)

theorem checkLinkI64_eq {event : EventRow} (h : lastSequence prev + 1 < 2 ^ 63) :
    checkLinkI64 index prev event = some (checkLink index prev event) := by
  cases prev with
  | none => rfl
  | some prev =>
    obtain ⟨hsucc, hint⟩ := succI64_eq h
    unfold checkLinkI64 checkLink
    simp only [hsucc, Option.map_some, ← Int64.toInt_inj, hint, ne_eq]

/-- The sequences that are added to count the events before. -/
theorem checkLinksI64_eq : ∀ {index : Nat} {prev : Option EventRow} {events : List EventRow},
    lastSequence prev + events.length < 2 ^ 63 →
      checkLinksI64 index prev events = some (checkLinks index prev events)
  | _, _, [], _ => rfl
  | index, prev, event :: events, h => by
    rw [List.length_cons] at h
    unfold checkLinksI64 checkLinks
    rw [checkLinkI64_eq (by omega)]
    cases hlink : checkLink index prev event with
    | some failure => rfl
    | none =>
      have hs : lastSequence (some event) = lastSequence prev + 1 := (checkLink_none.mp hlink).1
      exact checkLinksI64_eq (by rw [hs]; omega)

/-- **No addition overflows**, whatever the sequences. -/
theorem checkEventStructureI64_eq (sha : Sha256) (events : EventSlice) :
    checkEventStructureI64 sha events.1 = some (checkEventStructure sha events.1) := by
  have hlen := events.2
  unfold checkEventStructureI64 checkEventStructure
  rw [checkLinksI64_eq (by simp only [lastSequence]; omega)]
  by_cases hnil : events.1 = []
  · simp only [hnil, if_true]
  · simp only [hnil, if_false]
    cases checkLinks 0 none events.1 <;> rfl

/-! ## The root -/

/-- The bytes `stamp_chain` asks to stamp: 32 of them, in hexadecimal digits. -/
def stampHash (merkleRoot : String) : Option (List UInt8) :=
  match hexDecode merkleRoot with
  | some b => if b.length = 32 then some b else none
  | none => none

/-- 64 lower-case hexadecimal digits. -/
def LowerHex64 (s : String) : Prop :=
  s.toList.length = 64 ∧ ∀ c ∈ s.toList, ('0' ≤ c ∧ c ≤ '9') ∨ ('a' ≤ c ∧ c ≤ 'f')

theorem hexDigit_range :
    ∀ n < 16, ('0' ≤ hexDigit n ∧ hexDigit n ≤ '9') ∨ ('a' ≤ hexDigit n ∧ hexDigit n ≤ 'f') := by
  decide

theorem lowerHex64_sha256Hex (x : List UInt8) : LowerHex64 (sha256Hex sha x) := by
  unfold LowerHex64 sha256Hex hexEncode
  rw [String.toList_ofList, length_hexChars, (sha x).2]
  refine ⟨rfl, fun c hc => ?_⟩
  obtain ⟨n, hn, rfl⟩ := mem_hexChars hc
  exact hexDigit_range n hn

theorem stampHash_sha256Hex (x : List UInt8) : stampHash (sha256Hex sha x) = some (sha x).1 := by
  unfold stampHash sha256Hex
  rw [hexDecode_hexEncode]
  exact if_pos (sha x).2

/-! ## The checker as a whole -/

/-- **The checker, exactly.** It accepts the empty list and the lists that are linked at every
position; what it reports is the first position that is not; the root it returns is one that
`stamp_chain` stamps; and it computes the same with the additions of the source. -/
theorem check_event_structure_exact (sha : Sha256) (events : EventSlice) :
    ((∃ root, checkEventStructure sha events.1 = .ok root) ↔
      events.1 = [] ∨ ∀ i < events.1.length, LinkedAt events.1 i) ∧
    (∀ failure, checkEventStructure sha events.1 = .error failure →
      ∃ i, failure.index? = some i ∧
        IsLeast {i | i < events.1.length ∧ ¬ LinkedAt events.1 i} i) ∧
    (∀ root, events.1 ≠ [] → checkEventStructure sha events.1 = .ok root →
      LowerHex64 root ∧ (stampHash root).isSome) ∧
    checkEventStructureI64 sha events.1 = some (checkEventStructure sha events.1) := by
  refine ⟨?_, ?_, ?_, checkEventStructureI64_eq sha events⟩
  · rw [← checkLinks_none_iff]
    by_cases hne : events.1 = []
    · exact ⟨fun _ => Or.inl hne, fun _ => ⟨"empty", if_pos hne⟩⟩
    · simp only [checkEventStructure_ok hne, checkLinks_none, hne, false_or]
      exact ⟨fun ⟨_, hl, _⟩ => hl, fun hl => ⟨_, hl, rfl⟩⟩
  · intro failure h
    have hne : events.1 ≠ [] := by
      intro hnil
      unfold checkEventStructure at h
      rw [if_pos hnil] at h
      exact absurd h (by simp)
    cases hlinks : checkLinks 0 none events.1 with
    | none =>
      rw [(checkEventStructure_ok hne).mpr ⟨checkLinks_none.mp hlinks, rfl⟩] at h
      exact absurd h (by simp)
    | some found =>
      unfold checkEventStructure at h
      rw [if_neg hne, hlinks] at h
      obtain rfl := Except.error.inj h
      exact isLeast_of_checkLinks hlinks
  · intro root hne h
    obtain ⟨-, rfl⟩ := (checkEventStructure_ok hne).mp h
    obtain ⟨x, hx⟩ := recompute_eq_digest sha hne
    rw [hx, stampHash_sha256Hex]
    exact ⟨lowerHex64_sha256Hex x, rfl⟩

end EvidentLedger
