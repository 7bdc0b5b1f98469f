import Std.Data.String.ToNat
import Mathlib.Data.Int.Notation

/-!
# Decimal numbers

Integers as texts, over lists of characters: what a formatter prints and what a parser without separators
or blanks reads back.
-/

namespace Lib.Decimal

/-- A number of one digit or more. -/
def parseNat (cs : List Char) : Option Nat :=
  if cs ≠ [] ∧ cs.all Char.isDigit = true then some (Nat.ofDigitChars 10 cs 0) else none

/-- An integer with a sign or without. -/
def parseInt : List Char → Option Int
  | '-' :: cs => (parseNat cs).map fun n => -(n : Int)
  | '+' :: cs => (parseNat cs).map Int.ofNat
  | cs => (parseNat cs).map Int.ofNat

/-- The text of a number. -/
def natChars (n : Nat) : List Char := Nat.toDigits 10 n

/-- The text of an integer. -/
def intChars : Int → List Char
  | .ofNat n => natChars n
  | .negSucc n => '-' :: natChars (n + 1)

theorem mem_digits {c : Char} (h : c.isDigit = true) : c ∈ "0123456789".toList := by
  have hbounds : 48 ≤ c.toNat ∧ c.toNat ≤ 57 := Char.isDigit_iff_toNat.mp h
  have hall : ∀ n < 58, 48 ≤ n → Char.ofNat n ∈ "0123456789".toList := by decide
  have hc := hall c.toNat (by omega) hbounds.1
  rwa [Char.ofNat_toNat] at hc

theorem isDigit_of_mem {n : Nat} {c : Char} (h : c ∈ natChars n) : c.isDigit = true :=
  Nat.isDigit_of_mem_toDigits (by decide) (by decide) h

theorem natChars_ne_nil (n : Nat) : natChars n ≠ [] := Nat.toDigits_ne_nil

/-- **A number is read back.** -/
theorem parseNat_natChars (n : Nat) : parseNat (natChars n) = some n := by
  unfold parseNat
  rw [if_pos ⟨natChars_ne_nil n, List.all_eq_true.mpr fun c hc => isDigit_of_mem hc⟩]
  exact congrArg some Nat.ofDigitChars_ten_toDigits

/-- A number begins with a digit. -/
theorem natChars_cons (n : Nat) : ∃ c l, natChars n = c :: l ∧ c.isDigit = true := by
  cases h : natChars n with
  | nil => exact absurd h (natChars_ne_nil n)
  | cons c l => exact ⟨c, l, rfl, isDigit_of_mem (n := n) (by rw [h]; exact List.mem_cons_self)⟩

/-- **An integer is read back.** -/
theorem parseInt_intChars (i : Int) : parseInt (intChars i) = some i := by
  cases i with
  | ofNat n =>
    obtain ⟨c, l, hl, hc⟩ := natChars_cons n
    have hn := parseNat_natChars n
    rw [intChars, hl] at *
    unfold parseInt
    split
    · rename_i heq
      obtain rfl := (List.cons.inj heq).1
      exact absurd hc (by decide)
    · rename_i heq
      obtain rfl := (List.cons.inj heq).1
      exact absurd hc (by decide)
    · rw [hn]
      rfl
  | negSucc n =>
    rw [intChars, parseInt, parseNat_natChars]
    rfl

theorem intChars_inj {i j : Int} (h : intChars i = intChars j) : i = j := by
  have hi := parseInt_intChars i
  rw [h, parseInt_intChars] at hi
  exact (Option.some.inj hi).symm

/-- An integer begins with a digit or a minus sign, and digits follow. -/
theorem intChars_cons (i : Int) : ∃ c l, intChars i = c :: l ∧ (c = '-' ∨ c.isDigit = true) ∧
    ∀ d ∈ l, d.isDigit = true := by
  cases i with
  | ofNat n =>
    obtain ⟨c, l, hl, hc⟩ := natChars_cons n
    refine ⟨c, l, hl, Or.inr hc, fun d hd => isDigit_of_mem (n := n) ?_⟩
    rw [hl]
    exact List.mem_cons_of_mem c hd
  | negSucc n => exact ⟨'-', _, rfl, Or.inl rfl, fun d hd => isDigit_of_mem hd⟩

theorem mem_intChars {i : Int} {c : Char} (h : c ∈ intChars i) : c = '-' ∨ c.isDigit = true := by
  obtain ⟨d, l, hl, hd, hrest⟩ := intChars_cons i
  rw [hl] at h
  rcases List.mem_cons.mp h with rfl | h
  · exact hd
  · exact Or.inr (hrest c h)

/-! ## Sixty-four bits -/

/-- An integer of 64 bits. -/
def parseI64 (cs : List Char) : Option Int64 :=
  (parseInt cs).bind fun n =>
    if Int64.minValue.toInt ≤ n ∧ n ≤ Int64.maxValue.toInt then some (Int64.ofInt n) else none

theorem parseI64_intChars (n : Int64) : parseI64 (intChars n.toInt) = some n := by
  have hmin := n.minValue_le_toInt
  have hmax := n.toInt_le
  unfold parseI64
  rw [parseInt_intChars, Option.bind_some, if_pos ⟨hmin, hmax⟩, Int64.ofInt_toInt]

end Lib.Decimal
