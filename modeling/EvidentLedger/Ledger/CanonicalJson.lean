import EvidentLedger.Ledger.RequestHash
import EvidentLedger.Lib.Decimal
import EvidentLedger.Lib.Printing
import Mathlib.Data.String.Basic

/-!
# Canonical JSON

Model of `canonical_json_sha256` and `canonicalize_value` (`src/api/v1/idempotency/canonical.rs:8-48`).
Strings are printed as `serde_json` does (`jsonString`). The numbers are a parameter, with how they are
printed: `NumberPrinting` says that the texts tell them apart, begin with a digit or a minus sign, and
contain no structural character.

* `printValue` prints the members as they stand, `normalize` sorts them at every level:
  `canonicalizeValue` is the one after the other (`toList_canonicalizeValue`).
* `readsOnce_printValue`: the text of a value has one reading, whatever follows it.
* `Reorders` is one reordering of the members of one object, at any depth, and `SameUpToOrder` any number
  of them.
* **`canonicalJson_faithful`**: two values have the same canonical text exactly if they are the same up to
  the order of members, and any two others with the same hash are a collision.
* `requestHash_eq_canonical`: `request_hash` is such a hash.
-/

namespace EvidentLedger.Ledger

open Lib.Text Lib.Printing Lib.Decimal

/-! ## Values -/

/-- A `serde_json::Value`. -/
inductive Value (Number : Type) where
  | null
  | bool (b : Bool)
  | number (n : Number)
  | string (s : String)
  | array (items : List (Value Number))
  | object (map : List (String × Value Number))

/-- **Induction over values**, with the items and the members at hand. -/
@[induction_eliminator]
theorem Value.induction {Number : Type} {motive : Value Number → Prop} (null : motive .null)
    (bool : ∀ b, motive (.bool b)) (number : ∀ n, motive (.number n))
    (string : ∀ s, motive (.string s))
    (array : ∀ items, (∀ v ∈ items, motive v) → motive (.array items))
    (object : ∀ map, (∀ m ∈ map, motive m.2) → motive (.object map)) (v : Value Number) :
    motive v :=
  Value.rec (motive_1 := motive) (motive_2 := fun items => ∀ v ∈ items, motive v)
    (motive_3 := fun map => ∀ m ∈ map, motive m.2) (motive_4 := fun m => motive m.2) null bool number
    string array object (fun _ h => absurd h (by simp))
    (fun _ _ hitem hitems _ h => (List.mem_cons.mp h).elim (fun he => he ▸ hitem) (hitems _))
    (fun _ h => absurd h (by simp))
    (fun _ _ hm hms _ h => (List.mem_cons.mp h).elim (fun he => he ▸ hm) (hms _))
    (fun _ _ h => h) v

/-- The brackets, the separators and the quote. -/
def structural (c : Char) : Bool :=
  c == '\x7b' || c == '\x7d' || c == '[' || c == ']' || c == ',' || c == ':' || c == '"'

/-- A digit or a minus sign. -/
def startsNumber (c : Char) : Bool := "-0123456789".toList.contains c

/-- How numbers are printed. -/
structure NumberPrinting (Number : Type) where
  print : Number → String
  print_inj : ∀ {m n : Number}, print m = print n → m = n
  starts : ∀ n, ∃ c l, (print n).toList = c :: l ∧ startsNumber c = true
  plain : ∀ n, ∀ c ∈ (print n).toList, structural c = false

/-- Integers in decimal. -/
def integers : NumberPrinting Int where
  print i := String.ofList (intChars i)
  print_inj h := intChars_inj (String.ofList_injective h)
  starts i := by
    obtain ⟨c, l, hl, hc, -⟩ := intChars_cons i
    refine ⟨c, l, by rw [String.toList_ofList, hl], ?_⟩
    rcases hc with rfl | hc
    · rfl
    · have hall : "0123456789".toList.all startsNumber = true := by decide
      exact List.all_eq_true.mp hall c (mem_digits hc)
  plain i c hc := by
    rw [String.toList_ofList] at hc
    rcases mem_intChars hc with rfl | hc
    · rfl
    · have hall : "0123456789".toList.all (fun d => !structural d) = true := by decide
      simpa using List.all_eq_true.mp hall c (mem_digits hc)

variable {Number : Type}

mutual

/-- An object has one value for each name, at every level. -/
def Value.Distinct : Value Number → Prop
  | .array items => DistinctItems items
  | .object map => (map.map Prod.fst).Nodup ∧ DistinctMembers map
  | _ => True

def DistinctItems : List (Value Number) → Prop
  | [] => True
  | item :: items => item.Distinct ∧ DistinctItems items

def DistinctMembers : List (String × Value Number) → Prop
  | [] => True
  | (_, value) :: members => value.Distinct ∧ DistinctMembers members

end

/-- A value as `serde_json` keeps it. -/
abbrev JsonValue (Number : Type) := { value : Value Number // value.Distinct }

/-! ## Canonical texts -/

section Canonical

variable (numbers : NumberPrinting Number)

/-- `keys.sort()`. -/
def sortKeys (keys : List String) : List String := keys.mergeSort fun a b => decide (a ≤ b)

/-- A canonical object, from the canonical texts of its values. -/
def canonicalObject (texts : List (String × String)) : String :=
  let body := ",".intercalate ((sortKeys (texts.map Prod.fst)).map fun key =>
    jsonString key ++ ":" ++ (texts.lookup key).getD "")
  "\x7b" ++ body ++ "\x7d"

mutual

/-- `canonicalize_value`. -/
def canonicalizeValue : Value Number → String
  | .object map => canonicalObject (canonicalizeMembers map)
  | .array items => "[" ++ ",".intercalate (canonicalizeItems items) ++ "]"
  | .null => "null"
  | .bool b => if b then "true" else "false"
  | .number n => numbers.print n
  | .string s => jsonString s

def canonicalizeItems : List (Value Number) → List String
  | [] => []
  | item :: items => canonicalizeValue item :: canonicalizeItems items

def canonicalizeMembers : List (String × Value Number) → List (String × String)
  | [] => []
  | (key, value) :: members => (key, canonicalizeValue value) :: canonicalizeMembers members

end

/-- `canonical_json_sha256`. -/
def canonicalJsonSha256 (sha : Sha256) (value : Value Number) : String :=
  sha256Hex sha (asBytes (canonicalizeValue numbers value))

end Canonical

/-! ## Printing as it stands -/

section Print

variable (numbers : NumberPrinting Number)

mutual

/-- The text of a value, its members in the order in which they stand. -/
def printValue : Value Number → List Char
  | .object map => '\x7b' :: ([','].intercalate (printMembers map) ++ ['\x7d'])
  | .array items => '[' :: ([','].intercalate (printItems items) ++ [']'])
  | .null => "null".toList
  | .bool b => if b then "true".toList else "false".toList
  | .number n => (numbers.print n).toList
  | .string s => (jsonString s).toList

def printItems : List (Value Number) → List (List Char)
  | [] => []
  | item :: items => printValue item :: printItems items

def printMembers : List (String × Value Number) → List (List Char)
  | [] => []
  | (key, value) :: members =>
    ((jsonString key).toList ++ ':' :: printValue value) :: printMembers members

end

/-- One member of an object. -/
def printMember (member : String × Value Number) : List Char :=
  (jsonString member.1).toList ++ ':' :: printValue numbers member.2

theorem printItems_eq (items : List (Value Number)) :
    printItems numbers items = items.map (printValue numbers) := by
  induction items with
  | nil => rfl
  | cons item items ih => rw [printItems, ih, List.map_cons]

theorem printMembers_eq (members : List (String × Value Number)) :
    printMembers numbers members = members.map (printMember numbers) := by
  induction members with
  | nil => rfl
  | cons member members ih =>
    obtain ⟨key, value⟩ := member
    rw [printMembers, ih, List.map_cons, printMember]

/-- What may follow a value. -/
def stops (c : Char) : Bool := c == ',' || c == ']' || c == '\x7d'

theorem structural_of_stops {c : Char} (h : stops c = true) : structural c = true := by
  unfold stops at h
  unfold structural
  grind

theorem jsonString_head (s : String) : ∃ l, (jsonString s).toList = '"' :: l :=
  ⟨_, by rw [jsonString, String.toList_ofList]⟩

/-- The kinds of values that differ in their first character. -/
inductive ValueKind where
  | null
  | bool (b : Bool)
  | number
  | string
  | array
  | object
  deriving DecidableEq

def Value.kind : Value Number → ValueKind
  | .null => .null
  | .bool b => .bool b
  | .number _ => .number
  | .string _ => .string
  | .array _ => .array
  | .object _ => .object

/-- The kind of a value whose text begins with this character. -/
def kindOf (c : Char) : ValueKind :=
  if c = '\x7b' then .object
  else if c = '[' then .array
  else if c = '"' then .string
  else if c = 'n' then .null
  else if c = 't' then .bool true
  else if c = 'f' then .bool false
  else .number

theorem startsNumber_spec {c : Char} (h : startsNumber c = true) :
    kindOf c = .number ∧ stops c = false := by
  have hall : "-0123456789".toList.all (fun d => kindOf d = .number ∧ stops d = false) := by decide
  simpa using List.all_eq_true.mp hall c (by simpa [startsNumber] using h)

/-- **The first character** of a text tells the kind of the value, and does not close anything. -/
theorem printValue_begins (v : Value Number) :
    ∃ c l, printValue numbers v = c :: l ∧ kindOf c = v.kind ∧ stops c = false := by
  cases v with
  | null => exact ⟨'n', "ull".toList, by rw [printValue]; rfl, rfl, rfl⟩
  | bool b =>
    cases b with
    | true => exact ⟨'t', "rue".toList, by rw [printValue]; rfl, rfl, rfl⟩
    | false => exact ⟨'f', "alse".toList, by rw [printValue]; rfl, rfl, rfl⟩
  | number n =>
    obtain ⟨c, l, hl, hc⟩ := numbers.starts n
    exact ⟨c, l, by rw [printValue, hl], startsNumber_spec hc⟩
  | string s =>
    obtain ⟨l, hl⟩ := jsonString_head s
    exact ⟨'"', l, by rw [printValue, hl], rfl, rfl⟩
  | array items => exact ⟨'[', _, by rw [printValue], rfl, rfl⟩
  | object map => exact ⟨'\x7b', _, by rw [printValue], rfl, rfl⟩

theorem kind_of_append {v w : Value Number} {l m : List Char}
    (h : printValue numbers v ++ l = printValue numbers w ++ m) : v.kind = w.kind := by
  obtain ⟨c, s, hs, hc, -⟩ := printValue_begins numbers v
  obtain ⟨d, t, ht, hd, -⟩ := printValue_begins numbers w
  rw [hs, ht] at h
  rw [← hc, ← hd, (List.cons.inj h).1]

/-! ## One reading -/

theorem readsOnce_printMember {member : String × Value Number}
    (h : ReadsOnce stops (printValue numbers) member.2) :
    ReadsOnce stops (printMember numbers) member := by
  obtain ⟨key, value⟩ := member
  rintro ⟨key', value'⟩ l m hl hm heq
  simp only [printMember, List.append_assoc, List.cons_append] at heq
  obtain ⟨rfl, hvalue⟩ := jsonString_append_inj heq
  obtain ⟨rfl, rfl⟩ := h value' l m hl hm (List.cons.inj hvalue).2
  exact ⟨rfl, rfl⟩

theorem not_structural_stops {t : List Char} (h : ∀ c ∈ t, structural c = false) :
    ∀ c ∈ t, stops c = false := by
  intro c hc
  by_contra hstop
  have hstruct := structural_of_stops (by simpa using hstop)
  rw [h c hc] at hstruct
  exact absurd hstruct (by simp)

/-- A text is compared with those of the values of its kind. -/
theorem readsOnce_of_kind {v : Value Number}
    (h : ∀ w, v.kind = w.kind → ∀ l m, Stopped stops l → Stopped stops m →
      printValue numbers v ++ l = printValue numbers w ++ m → v = w ∧ l = m) :
    ReadsOnce stops (printValue numbers) v :=
  fun w l m hl hm heq => h w (kind_of_append numbers heq) l m hl hm heq

theorem readsOnce_null : ReadsOnce stops (printValue numbers) (.null : Value Number) := by
  refine readsOnce_of_kind numbers fun w hkind l m _ _ h => ?_
  cases w with
  | null => exact ⟨rfl, List.append_cancel_left h⟩
  | bool | number | string | array | object => exact absurd hkind (by simp [Value.kind])

theorem readsOnce_bool (b : Bool) : ReadsOnce stops (printValue numbers) (.bool b) := by
  refine readsOnce_of_kind numbers fun w hkind l m _ _ h => ?_
  cases w with
  | bool b' =>
    obtain rfl : b = b' := by simpa [Value.kind] using hkind
    exact ⟨rfl, List.append_cancel_left h⟩
  | null | number | string | array | object => exact absurd hkind (by simp [Value.kind])

theorem readsOnce_number (n : Number) : ReadsOnce stops (printValue numbers) (.number n) := by
  refine readsOnce_of_kind numbers fun w hkind l m hl hm h => ?_
  cases w with
  | number n' =>
    rw [printValue, printValue] at h
    obtain ⟨htext, rfl⟩ := append_inj_of_plain (not_structural_stops (numbers.plain n))
      (not_structural_stops (numbers.plain n')) hl hm h
    exact ⟨congrArg Value.number (numbers.print_inj (String.toList_inj.mp htext)), rfl⟩
  | null | bool | string | array | object => exact absurd hkind (by simp [Value.kind])

theorem readsOnce_string (s : String) : ReadsOnce stops (printValue numbers) (.string s) := by
  refine readsOnce_of_kind numbers fun w hkind l m _ _ h => ?_
  cases w with
  | string s' =>
    rw [printValue, printValue] at h
    obtain ⟨rfl, rfl⟩ := jsonString_append_inj h
    exact ⟨rfl, rfl⟩
  | null | bool | number | array | object => exact absurd hkind (by simp [Value.kind])

theorem readsOnce_array {items : List (Value Number)}
    (hitems : ∀ v ∈ items, ReadsOnce stops (printValue numbers) v) :
    ReadsOnce stops (printValue numbers) (.array items) := by
  refine readsOnce_of_kind numbers fun w hkind l m _ _ h => ?_
  cases w with
  | array items' =>
    simp only [printValue, printItems_eq, List.cons_append, List.append_assoc, List.nil_append,
      List.cons.injEq, true_and] at h
    have hbegin : ∀ v : Value Number, ∃ c t, printValue numbers v = c :: t ∧ c ≠ ']' := by
      intro v
      obtain ⟨c, t, ht, -, hc⟩ := printValue_begins numbers v
      refine ⟨c, t, ht, fun he => ?_⟩
      subst he
      exact absurd hc (by decide)
    obtain ⟨rfl, rfl⟩ := join_inj (by decide) (by decide) (by decide) hbegin hitems h
    exact ⟨rfl, rfl⟩
  | null | bool | number | string | object => exact absurd hkind (by simp [Value.kind])

theorem readsOnce_object {map : List (String × Value Number)}
    (hmembers : ∀ member ∈ map, ReadsOnce stops (printValue numbers) member.2) :
    ReadsOnce stops (printValue numbers) (.object map) := by
  refine readsOnce_of_kind numbers fun w hkind l m _ _ h => ?_
  cases w with
  | object map' =>
    simp only [printValue, printMembers_eq, List.cons_append, List.append_assoc, List.nil_append,
      List.cons.injEq, true_and] at h
    have hbegin : ∀ member : String × Value Number,
        ∃ c t, printMember numbers member = c :: t ∧ c ≠ '\x7d' := by
      intro member
      obtain ⟨t, ht⟩ := jsonString_head member.1
      exact ⟨'"', t ++ ':' :: printValue numbers member.2, by rw [printMember, ht]; rfl, by decide⟩
    obtain ⟨rfl, rfl⟩ := join_inj (by decide) (by decide) (by decide) hbegin
      (fun member hm => readsOnce_printMember numbers (hmembers member hm)) h
    exact ⟨rfl, rfl⟩
  | null | bool | number | string | array => exact absurd hkind (by simp [Value.kind])

/-- **The text of a value has one reading.** -/
theorem readsOnce_printValue (v : Value Number) : ReadsOnce stops (printValue numbers) v := by
  induction v with
  | null => exact readsOnce_null numbers
  | bool b => exact readsOnce_bool numbers b
  | number n => exact readsOnce_number numbers n
  | string s => exact readsOnce_string numbers s
  | array items ih => exact readsOnce_array numbers ih
  | object map ih => exact readsOnce_object numbers ih

theorem printValue_inj {v w : Value Number} (h : printValue numbers v = printValue numbers w) :
    v = w :=
  (readsOnce_printValue numbers v w [] [] stopped_nil stopped_nil (by rw [h])).1

end Print

/-! ## Sorted members -/

/-- Members with their keys in order. -/
def sortMembers {β : Type} (members : List (String × β)) : List (String × β) :=
  members.mergeSort fun a b => decide (a.1 ≤ b.1)

section Sorted

variable {β γ : Type} {members members' : List (String × β)}

theorem perm_sortMembers : (sortMembers members).Perm members := List.mergeSort_perm _ _

theorem map_fst_sortMembers : (sortMembers members).map Prod.fst = sortKeys (members.map Prod.fst) :=
  List.map_mergeSort fun _ _ _ _ => rfl

theorem map_sortMembers (f : β → γ) : (sortMembers members).map (fun m => (m.1, f m.2)) =
    sortMembers (members.map fun m => (m.1, f m.2)) :=
  List.map_mergeSort fun _ _ _ _ => rfl

theorem pairwise_sortKeys (keys : List String) : (sortKeys keys).Pairwise (· ≤ ·) := by
  refine (List.pairwise_mergeSort ?_ ?_ keys).imp fun hab => of_decide_eq_true hab
  · intro a b c hab hbc
    exact decide_eq_true ((of_decide_eq_true hab).trans (of_decide_eq_true hbc))
  · intro a b
    simpa using le_total a b

/-- Sorted keys are the only ones in order. -/
theorem sortKeys_eq {keys sorted : List String} (h : keys.Perm sorted)
    (hsorted : sorted.Pairwise (· ≤ ·)) : sortKeys keys = sorted :=
  List.Perm.eq_of_pairwise (fun _ _ _ _ => le_antisymm) (pairwise_sortKeys keys) hsorted
    ((List.mergeSort_perm _ _).trans h)

/-- A name has one value. -/
theorem eq_of_fst_eq (h : (members.map Prod.fst).Nodup) {a b : String × β} (ha : a ∈ members)
    (hb : b ∈ members) (hab : a.1 = b.1) : a = b :=
  List.inj_on_of_nodup_map h ha hb hab

/-- **The order in which the members stand** does not matter. -/
theorem sortMembers_congr (hnodup : (members.map Prod.fst).Nodup) (h : members.Perm members') :
    sortMembers members = sortMembers members' := by
  have hsorted : ∀ l : List (String × β), (sortMembers l).Pairwise fun a b => a.1 ≤ b.1 := by
    intro l
    refine List.pairwise_map.mp ?_
    rw [map_fst_sortMembers]
    exact pairwise_sortKeys _
  refine List.Perm.eq_of_pairwise ?_ (hsorted members) (hsorted members')
    ((perm_sortMembers.trans h).trans perm_sortMembers.symm)
  intro a b ha hb hab hba
  exact eq_of_fst_eq hnodup (perm_sortMembers.mem_iff.mp ha)
    (h.mem_iff.mpr (perm_sortMembers.mem_iff.mp hb)) (le_antisymm hab hba)

theorem lookup_of_mem (h : (members.map Prod.fst).Nodup) {member : String × β}
    (hm : member ∈ members) : members.lookup member.1 = some member.2 := by
  induction members with
  | nil => exact absurd hm (by simp)
  | cons first rest ih =>
    rw [List.map_cons, List.nodup_cons] at h
    rw [List.lookup_cons]
    rcases List.mem_cons.mp hm with rfl | hm
    · simp
    · have hne : (member.1 == first.1) = false := by
        rw [beq_eq_false_iff_ne]
        exact fun he => h.1 (he ▸ List.mem_map_of_mem hm)
      rw [hne]
      exact ih h.2 hm

end Sorted

mutual

/-- A value with its members in order, at every level. -/
def Value.normalize : Value Number → Value Number
  | .object map => .object (sortMembers (normalizeMembers map))
  | .array items => .array (normalizeItems items)
  | .null => .null
  | .bool b => .bool b
  | .number n => .number n
  | .string s => .string s

def normalizeItems : List (Value Number) → List (Value Number)
  | [] => []
  | item :: items => item.normalize :: normalizeItems items

def normalizeMembers : List (String × Value Number) → List (String × Value Number)
  | [] => []
  | (key, value) :: members => (key, value.normalize) :: normalizeMembers members

end

theorem normalizeItems_eq (items : List (Value Number)) :
    normalizeItems items = items.map Value.normalize := by
  induction items with
  | nil => rfl
  | cons item items ih => rw [normalizeItems, ih, List.map_cons]

theorem normalizeMembers_eq (members : List (String × Value Number)) :
    normalizeMembers members = members.map fun m => (m.1, m.2.normalize) := by
  induction members with
  | nil => rfl
  | cons member members ih => rw [normalizeMembers, ih, List.map_cons]

theorem distinctItems_iff (items : List (Value Number)) :
    DistinctItems items ↔ ∀ v ∈ items, v.Distinct := by
  induction items with
  | nil => simp [DistinctItems]
  | cons item items ih => simp [DistinctItems, ih]

theorem distinctMembers_iff (members : List (String × Value Number)) :
    DistinctMembers members ↔ ∀ m ∈ members, m.2.Distinct := by
  induction members with
  | nil => simp [DistinctMembers]
  | cons member members ih =>
    obtain ⟨key, value⟩ := member
    simp [DistinctMembers, ih]

/-! ## The canonical text is that of the sorted value -/

section Texts

variable (numbers : NumberPrinting Number)

theorem canonicalizeItems_eq (items : List (Value Number)) :
    canonicalizeItems numbers items = items.map (canonicalizeValue numbers) := by
  induction items with
  | nil => rfl
  | cons item items ih => rw [canonicalizeItems, ih, List.map_cons]

theorem canonicalizeMembers_eq (members : List (String × Value Number)) :
    canonicalizeMembers numbers members =
      members.map fun m => (m.1, canonicalizeValue numbers m.2) := by
  induction members with
  | nil => rfl
  | cons member members ih => rw [canonicalizeMembers, ih, List.map_cons]

/-- The members of a canonical object, in order. -/
theorem canonicalObject_eq {texts : List (String × String)} (h : (texts.map Prod.fst).Nodup) :
    canonicalObject texts = "\x7b" ++ ",".intercalate
      ((sortMembers texts).map fun m => jsonString m.1 ++ ":" ++ m.2) ++ "\x7d" := by
  have hbody : (sortKeys (texts.map Prod.fst)).map (fun key =>
      jsonString key ++ ":" ++ (texts.lookup key).getD "") =
        (sortMembers texts).map fun m => jsonString m.1 ++ ":" ++ m.2 := by
    rw [← map_fst_sortMembers, List.map_map]
    refine List.map_congr_left fun m hm => ?_
    rw [Function.comp_apply, lookup_of_mem h (perm_sortMembers.mem_iff.mp hm), Option.getD_some]
  unfold canonicalObject
  rw [hbody]

/-- **A canonical text** prints the sorted value. -/
theorem toList_canonicalizeValue {v : Value Number} (hv : v.Distinct) :
    (canonicalizeValue numbers v).toList = printValue numbers v.normalize := by
  induction v with
  | null => rfl
  | bool b => cases b <;> rfl
  | number n => rw [canonicalizeValue, Value.normalize, printValue]
  | string s => rw [canonicalizeValue, Value.normalize, printValue]
  | array items ih =>
    rw [Value.Distinct, distinctItems_iff] at hv
    have htexts : items.map (String.toList ∘ canonicalizeValue numbers) =
        items.map (printValue numbers ∘ Value.normalize) :=
      List.map_congr_left fun v hm => ih v hm (hv v hm)
    rw [canonicalizeValue, Value.normalize, printValue, normalizeItems_eq, printItems_eq,
      canonicalizeItems_eq]
    simp only [String.toList_append, String.toList_intercalate, List.map_map]
    rw [htexts]
    rfl
  | object map ih =>
    rw [Value.Distinct, distinctMembers_iff] at hv
    have htexts : (sortMembers map).map (fun m => (jsonString m.1 ++ ":" ++
        canonicalizeValue numbers m.2).toList) =
          (sortMembers map).map fun m => printMember numbers (m.1, m.2.normalize) := by
      refine List.map_congr_left fun m hm => ?_
      have hmem := perm_sortMembers.mem_iff.mp hm
      rw [String.toList_append, String.toList_append, ih m hmem (hv.2 m hmem), printMember,
        List.append_assoc]
      rfl
    rw [canonicalizeValue, Value.normalize, printValue, normalizeMembers_eq, printMembers_eq,
      canonicalizeMembers_eq,
      canonicalObject_eq (by simpa [List.map_map, Function.comp_def] using hv.1),
      ← map_sortMembers, ← map_sortMembers]
    simp only [String.toList_append, String.toList_intercalate, List.map_map] at htexts ⊢
    simp only [Function.comp_def, String.toList_append]
    rw [htexts]
    rfl

end Texts

/-! ## Reorderings -/

/-- **One reordering**: the members of one object, at any depth. -/
inductive Reorders : Value Number → Value Number → Prop
  | members {map map' : List (String × Value Number)} (h : map.Perm map') :
      Reorders (.object map) (.object map')
  | item {before after : List (Value Number)} {v w : Value Number} (h : Reorders v w) :
      Reorders (.array (before ++ v :: after)) (.array (before ++ w :: after))
  | member {before after : List (String × Value Number)} {key : String} {v w : Value Number}
      (h : Reorders v w) :
      Reorders (.object (before ++ (key, v) :: after)) (.object (before ++ (key, w) :: after))

/-- Equal up to the order of members at every level. -/
def SameUpToOrder : Value Number → Value Number → Prop := Relation.ReflTransGen Reorders

namespace Reorders

variable {v w : Value Number}

theorem symm (h : Reorders v w) : Reorders w v := by
  induction h with
  | members h => exact .members h.symm
  | item _ ih => exact .item ih
  | member _ ih => exact .member ih

/-- Names stay distinct. -/
theorem distinct (h : Reorders v w) (hv : v.Distinct) : w.Distinct := by
  induction h with
  | members h =>
    rw [Value.Distinct, distinctMembers_iff] at hv ⊢
    exact ⟨(h.map Prod.fst).nodup_iff.mp hv.1, fun m hm => hv.2 m (h.mem_iff.mpr hm)⟩
  | @item before after v w _ ih =>
    rw [Value.Distinct, distinctItems_iff] at hv ⊢
    have hw := ih (hv v (by simp))
    intro u hu
    rcases List.mem_append.mp hu with hu | hu
    · exact hv u (List.mem_append_left _ hu)
    · rcases List.mem_cons.mp hu with rfl | hu
      · exact hw
      · exact hv u (List.mem_append_right _ (List.mem_cons_of_mem _ hu))
  | @member before after key v w _ ih =>
    rw [Value.Distinct, distinctMembers_iff] at hv ⊢
    have hw := ih (hv.2 (key, v) (by simp))
    refine ⟨by simpa using hv.1, fun m hm => ?_⟩
    rcases List.mem_append.mp hm with hm | hm
    · exact hv.2 m (List.mem_append_left _ hm)
    · rcases List.mem_cons.mp hm with rfl | hm
      · exact hw
      · exact hv.2 m (List.mem_append_right _ (List.mem_cons_of_mem _ hm))

/-- **The sorted value stays.** -/
theorem normalize_eq (h : Reorders v w) (hv : v.Distinct) : v.normalize = w.normalize := by
  induction h with
  | @members map map' h =>
    rw [Value.Distinct] at hv
    rw [Value.normalize, Value.normalize, normalizeMembers_eq, normalizeMembers_eq]
    refine congrArg Value.object (sortMembers_congr ?_ (h.map _))
    simpa [List.map_map, Function.comp_def] using hv.1
  | @item before after v w _ ih =>
    rw [Value.Distinct, distinctItems_iff] at hv
    have hvw := ih (hv v (by simp))
    simp only [Value.normalize, normalizeItems_eq, List.map_append, List.map_cons, hvw]
  | @member before after key v w _ ih =>
    rw [Value.Distinct, distinctMembers_iff] at hv
    have hvw := ih (hv.2 (key, v) (by simp))
    simp only [Value.normalize, normalizeMembers_eq, List.map_append, List.map_cons, hvw]

end Reorders

namespace SameUpToOrder

variable {u v w : Value Number}

theorem refl (v : Value Number) : SameUpToOrder v v := Relation.ReflTransGen.refl

theorem trans (h : SameUpToOrder u v) (h' : SameUpToOrder v w) : SameUpToOrder u w :=
  Relation.ReflTransGen.trans h h'

theorem symm (h : SameUpToOrder v w) : SameUpToOrder w v := by
  induction h with
  | refl => exact refl v
  | tail _ hstep ih => exact Relation.ReflTransGen.head hstep.symm ih

theorem normalize_eq (h : SameUpToOrder v w) (hv : v.Distinct) : v.normalize = w.normalize := by
  have hboth : w.Distinct ∧ v.normalize = w.normalize := by
    induction h with
    | refl => exact ⟨hv, rfl⟩
    | tail _ hstep ih => exact ⟨hstep.distinct ih.1, ih.2.trans (hstep.normalize_eq ih.1)⟩
  exact hboth.2

theorem item (before after : List (Value Number)) (h : SameUpToOrder v w) :
    SameUpToOrder (.array (before ++ v :: after)) (.array (before ++ w :: after)) := by
  induction h with
  | refl => exact refl _
  | tail _ hstep ih => exact Relation.ReflTransGen.tail ih (.item hstep)

theorem member (before after : List (String × Value Number)) (key : String)
    (h : SameUpToOrder v w) : SameUpToOrder (.object (before ++ (key, v) :: after))
      (.object (before ++ (key, w) :: after)) := by
  induction h with
  | refl => exact refl _
  | tail _ hstep ih => exact Relation.ReflTransGen.tail ih (.member hstep)

/-- Item by item. -/
theorem items {items : List (Value Number)} (before : List (Value Number))
    (h : ∀ v ∈ items, SameUpToOrder v v.normalize) :
    SameUpToOrder (.array (before ++ items)) (.array (before ++ items.map Value.normalize)) := by
  induction items generalizing before with
  | nil => exact refl _
  | cons v items ih =>
    have hrest := ih (before ++ [v.normalize]) fun u hu => h u (List.mem_cons_of_mem v hu)
    rw [List.append_assoc, List.append_assoc] at hrest
    exact (item before items (h v List.mem_cons_self)).trans hrest

/-- Member by member. -/
theorem members {members : List (String × Value Number)} (before : List (String × Value Number))
    (h : ∀ m ∈ members, SameUpToOrder m.2 m.2.normalize) :
    SameUpToOrder (.object (before ++ members))
      (.object (before ++ members.map fun m => (m.1, m.2.normalize))) := by
  induction members generalizing before with
  | nil => exact refl _
  | cons m members ih =>
    have hrest := ih (before ++ [(m.1, m.2.normalize)]) fun u hu => h u (List.mem_cons_of_mem m hu)
    rw [List.append_assoc, List.append_assoc] at hrest
    exact (member before members m.1 (h m List.mem_cons_self)).trans hrest

/-- **A value is its sorted one** up to the order of members. -/
theorem normalize (v : Value Number) : SameUpToOrder v v.normalize := by
  induction v with
  | null | bool | number | string => exact refl _
  | array items ih =>
    rw [Value.normalize, normalizeItems_eq]
    exact SameUpToOrder.items [] ih
  | object map ih =>
    rw [Value.normalize, normalizeMembers_eq]
    exact (SameUpToOrder.members [] ih).trans (.single (.members perm_sortMembers.symm))

end SameUpToOrder

/-! ## Faithfulness -/

section Faithful

variable (numbers : NumberPrinting Number)

/-- **The canonical text** is that of the values that are the same up to the order of members. -/
theorem canonicalizeValue_eq_iff (v w : JsonValue Number) :
    canonicalizeValue numbers v.1 = canonicalizeValue numbers w.1 ↔ SameUpToOrder v.1 w.1 := by
  constructor
  · intro h
    have htext := congrArg String.toList h
    rw [toList_canonicalizeValue numbers v.2, toList_canonicalizeValue numbers w.2] at htext
    have hnormal := printValue_inj numbers htext
    have hv := SameUpToOrder.normalize v.1
    rw [hnormal] at hv
    exact hv.trans (SameUpToOrder.normalize w.1).symm
  · intro h
    refine String.toList_inj.mp ?_
    rw [toList_canonicalizeValue numbers v.2, toList_canonicalizeValue numbers w.2,
      h.normalize_eq v.2]

/-- **Canonical JSON is a faithful encoding**: texts tell apart all but reordered values, and hashes do,
unless the two texts are a collision. -/
theorem canonicalJson_faithful (sha : Sha256) (v w : JsonValue Number) :
    (canonicalizeValue numbers v.1 = canonicalizeValue numbers w.1 ↔ SameUpToOrder v.1 w.1) ∧
      (SameUpToOrder v.1 w.1 →
        canonicalJsonSha256 numbers sha v.1 = canonicalJsonSha256 numbers sha w.1) ∧
      (¬ SameUpToOrder v.1 w.1 →
        canonicalJsonSha256 numbers sha v.1 = canonicalJsonSha256 numbers sha w.1 →
          Collision sha [asBytes (canonicalizeValue numbers v.1),
            asBytes (canonicalizeValue numbers w.1)]) := by
  refine ⟨canonicalizeValue_eq_iff numbers v w, fun h => ?_, fun hne hhash => ?_⟩
  · unfold canonicalJsonSha256
    rw [(canonicalizeValue_eq_iff numbers v w).mpr h]
  · by_contra hsha
    have hdigest : sha (asBytes (canonicalizeValue numbers v.1)) =
        sha (asBytes (canonicalizeValue numbers w.1)) := Subtype.ext (hexEncode_inj hhash)
    have hbytes := injOn_of_not_collision hsha (by simp) (by simp) hdigest
    exact hne ((canonicalizeValue_eq_iff numbers v w).mp (asBytes_inj hbytes))

/-- The object of `request_hash`. -/
def requestPayload (body : V1SubmitEventRequest) : Value Number :=
  .object [("chain_id", .string body.chainId.toString), ("file_hash", .string body.fileHash),
    ("event_type", .string body.eventType)]

/-- **`request_hash`** is the canonical hash of its object. -/
theorem requestHash_eq_canonical (state : AppState) (body : V1SubmitEventRequest) :
    requestHash state body = canonicalJsonSha256 numbers state.sha (requestPayload body) := by
  have hkeys : sortKeys ["chain_id", "file_hash", "event_type"] =
      ["chain_id", "event_type", "file_hash"] :=
    sortKeys_eq (by decide) (by decide)
  have htext : canonicalizeValue numbers (requestPayload body) = requestText body := by
    simp only [requestPayload, canonicalizeValue, canonicalizeMembers, canonicalObject, List.map_cons,
      List.map_nil, hkeys]
    simp [requestText, List.lookup_cons, String.append_assoc, String.intercalate_cons_cons]
  rw [requestHash_eq, canonicalJsonSha256, htext]

end Faithful

end EvidentLedger.Ledger
