import EvidentLedger.Lib.Text

/-!
# Percent-encoding

Bytes as a text of a URL: an unreserved byte is its character, any other a percent sign and two upper-case
hexadecimal digits.

* `encode_plain`: the text has unreserved characters and percent signs only, so no separator of a
  query and no blank.
* `plain_induction`: what is checked of the plain ASCII characters holds of every character of a text.
-/

namespace Lib.Percent

open Lib.Text

/-- `A-Z a-z 0-9 - _ . ~`. -/
def unreserved (b : UInt8) : Bool :=
  (65 ≤ b && b ≤ 90) || (97 ≤ b && b ≤ 122) || (48 ≤ b && b ≤ 57) || b == 45 || b == 95 || b == 46 ||
    b == 126

/-- The upper-case digit of a number below 16. -/
def upperDigit (n : Nat) : Char := if n < 10 then Char.ofNat (48 + n) else Char.ofNat (55 + n)

def encodeByte (b : UInt8) : List Char :=
  if unreserved b then [Char.ofNat b.toNat]
  else ['%', upperDigit (b.toNat / 16), upperDigit (b.toNat % 16)]

def encode (bytes : List UInt8) : List Char := bytes.flatMap encodeByte

/-- A character of an encoded text. -/
def plain (c : Char) : Bool :=
  c.isAlphanum || c == '-' || c == '_' || c == '.' || c == '~' || c == '%'

theorem encodeByte_plain (b : UInt8) :
    ∀ c ∈ encodeByte b, plain c = true ∧ c.toNat < 128 := by
  have hall : ((List.range 256).all fun n => (encodeByte (UInt8.ofNat n)).all fun c =>
      plain c && c.toNat.blt 128) = true := by decide +kernel
  have hb := List.all_eq_true.mp hall b.toNat (List.mem_range.mpr b.toNat_lt)
  rw [UInt8.ofNat_toNat] at hb
  intro c hc
  have hboth := List.all_eq_true.mp hb c hc
  rw [Bool.and_eq_true, Nat.blt_eq] at hboth
  exact hboth

/-- **No separators.** -/
theorem encode_plain {bytes : List UInt8} {c : Char} (h : c ∈ encode bytes) :
    plain c = true ∧ c.toNat < 128 := by
  obtain ⟨b, -, hc⟩ := List.mem_flatMap.mp h
  exact encodeByte_plain b c hc

theorem ascii_of_plain {c : Char} (h : plain c = true) : c.toNat < 128 := by
  delta plain Char.isAlphanum Char.isAlpha Char.isUpper Char.isLower Char.isDigit at h
  simp only [Bool.or_eq_true, Bool.and_eq_true, decide_eq_true_eq, beq_iff_eq,
    UInt32.le_iff_toNat_le] at h
  rcases h with ((((((h | h) | h) | rfl) | rfl) | rfl) | rfl) | rfl
  · have hle := h.2
    change c.toNat ≤ 90 at hle
    omega
  · have hle := h.2
    change c.toNat ≤ 122 at hle
    omega
  · have hle := h.2
    change c.toNat ≤ 57 at hle
    omega
  all_goals decide

/-- A fact about plain characters is a finite one. -/
theorem plain_induction {p : Char → Bool}
    (hall : ∀ n < 128, plain (Char.ofNat n) = true → p (Char.ofNat n) = true) {c : Char}
    (h : plain c = true) : p c = true := by
  have hc := hall c.toNat (ascii_of_plain h)
  rw [Char.ofNat_toNat] at hc
  exact hc h

theorem not_blank_of_plain {c : Char} (h : plain c = true) : isBlank c = false := by
  have hblank := plain_induction (p := fun c => !isBlank c) (by decide +kernel) h
  simpa using hblank

/-- The bytes of an encoded text. -/
theorem asBytes_encode (bytes : List UInt8) :
    asBytes (String.ofList (encode bytes)) =
      bytes.flatMap fun b => (encodeByte b).map fun c => UInt8.ofNat c.toNat := by
  rw [asBytes_ascii fun c hc => (encode_plain hc).2, encode, List.map_flatMap]

end Lib.Percent
