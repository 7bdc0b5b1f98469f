import EvidentLedger.Lib.Text

/-!
# Uuids

The `uuid` crate as the ledger uses it: sixteen bytes, `nil`, the hyphenated lower-case text of
`Display` and the four shapes `Uuid::parse_str` reads (simple, hyphenated, braced, URN), with
digits of either case.

* `parseStr_toString`: parsing the printed text gives the uuid back, so printing is injective.
* `colon_not_mem_toString`: the printed text has no `:`, the separator of the signed message.
-/

namespace EvidentLedger

open Lib.Text

/-- Byte strings of length `n`. -/
abbrev Bytes (n : Nat) := { b : List UInt8 // b.length = n }

/-- A uuid: its sixteen bytes, as `Uuid::as_bytes` gives them. -/
structure Uuid where
  bytes : Bytes 16
  deriving DecidableEq

namespace Uuid

/-- `Uuid::nil`. -/
def nil : Uuid := ⟨⟨List.replicate 16 0, rfl⟩⟩

/-- The uuid whose last byte is `n` and whose other bytes are zero. -/
def small (n : UInt8) : Uuid := ⟨⟨List.replicate 15 0 ++ [n], rfl⟩⟩

/-- The 36 characters of the hyphenated form. -/
def chars (u : Uuid) : List Char :=
  let d := hexChars u.bytes.1
  d.take 8 ++ '-' :: (d.drop 8).take 4 ++ '-' :: (d.drop 12).take 4 ++ '-' :: (d.drop 16).take 4 ++
    '-' :: d.drop 20

/-- `Display` for `Uuid`. -/
def toString (u : Uuid) : String := String.ofList u.chars

/-- The simple form: 32 digits. -/
def parseSimple (cs : List Char) : Option Uuid :=
  match unhexChars cs with
  | some b => if h : b.length = 16 then some ⟨⟨b, h⟩⟩ else none
  | none => none

/-- The hyphenated form: digits, and hyphens at 8, 13, 18 and 23. -/
def parseHyphenated (cs : List Char) : Option Uuid :=
  if cs[8]? = some '-' ∧ cs[13]? = some '-' ∧ cs[18]? = some '-' ∧ cs[23]? = some '-' then
    parseSimple (cs.take 8 ++ (cs.drop 9).take 4 ++ (cs.drop 14).take 4 ++ (cs.drop 19).take 4 ++
      cs.drop 24)
  else none

/-- `Uuid::parse_str`: the shape is chosen by the length. -/
def parseStr (s : String) : Option Uuid :=
  let cs := s.toList
  if cs.length = 32 then parseSimple cs
  else if cs.length = 36 then parseHyphenated cs
  else if cs.length = 38 ∧ cs.head? = some '{' ∧ cs.getLast? = some '}' then
    parseHyphenated (cs.drop 1).dropLast
  else if cs.length = 45 ∧ cs.take 9 = ['u', 'r', 'n', ':', 'u', 'u', 'i', 'd', ':'] then
    parseHyphenated (cs.drop 9)
  else none

theorem length_chars (u : Uuid) : u.chars.length = 36 := by
  have h : (hexChars u.bytes.1).length = 32 := by rw [length_hexChars, u.bytes.2]
  simp [chars, h]

theorem parseSimple_hexChars (u : Uuid) : parseSimple (hexChars u.bytes.1) = some u := by
  simp only [parseSimple, unhexChars_hexChars, u.bytes.2, dite_true]

/-- Taking the hyphens back out leaves the digits. -/
theorem parseHyphenated_chars (u : Uuid) : parseHyphenated u.chars = some u := by
  have hlen : (hexChars u.bytes.1).length = 32 := by rw [length_hexChars, u.bytes.2]
  have hp := parseSimple_hexChars u
  unfold chars parseHyphenated
  generalize hexChars u.bytes.1 = d at hlen hp ⊢
  match d, hlen with
  | [a0, a1, a2, a3, a4, a5, a6, a7, a8, a9, a10, a11, a12, a13, a14, a15, a16, a17, a18, a19, a20,
      a21, a22, a23, a24, a25, a26, a27, a28, a29, a30, a31], _ => exact hp

/-- **Round trip.** -/
theorem parseStr_toString (u : Uuid) : parseStr u.toString = some u := by
  simp only [parseStr, toString, String.toList_ofList, length_chars, parseHyphenated_chars]
  rfl

theorem toString_inj {u v : Uuid} (h : u.toString = v.toString) : u = v := by
  have hu := parseStr_toString u
  rw [h, parseStr_toString] at hu
  exact (Option.some.inj hu).symm

theorem colon_not_mem_toString (u : Uuid) : ':' ∉ u.toString.toList := by
  rw [toString, String.toList_ofList]
  intro h
  have hd : ':' ∉ hexChars u.bytes.1 := by
    have := colon_not_mem_hexEncode u.bytes.1
    rwa [hexEncode, String.toList_ofList] at this
  unfold chars at h
  simp only [List.mem_append, List.mem_cons, List.append_assoc, List.cons_append] at h
  rcases h with h | h | h | h | h | h | h | h | h
  · exact hd (List.mem_of_mem_take h)
  · exact absurd h (by decide)
  · exact hd (List.mem_of_mem_drop (List.mem_of_mem_take h))
  · exact absurd h (by decide)
  · exact hd (List.mem_of_mem_drop (List.mem_of_mem_take h))
  · exact absurd h (by decide)
  · exact hd (List.mem_of_mem_drop (List.mem_of_mem_take h))
  · exact absurd h (by decide)
  · exact hd (List.mem_of_mem_drop h)

end Uuid

end EvidentLedger
