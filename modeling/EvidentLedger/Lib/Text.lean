import Mathlib.Algebra.Group.Nat.Defs
import Mathlib.Data.List.Basic
import Mathlib.Data.List.DropRight
import Mathlib.Data.Option.Basic

/-!
# Byte strings, hexadecimal and separator-joined text

The text layer under a signed or hashed message, over Lean's `String`.

* `asBytes` is the UTF-8 of a string; it is injective (`asBytes_inj`) and turns `++` into `++`.
* `hexEncode` prints bytes as lower-case hexadecimal and `hexDecode` reads either case.
  `hexDecode_hexEncode` is the round trip, `hexDecode_lower` and `trim_of_hexDecode` say that
  case folding and trimming do not change what a decodable text decodes to.
* `beBytes` is the big-endian encoding of a 64-bit number, injective below `2 ^ 64`.
* `joined_inj`: a text joined from three parts by a separator that none of the expected parts
  contains has one reading, whatever the other three parts are.
-/

namespace Lib.Text

/-! ## UTF-8 -/

/-- The UTF-8 bytes of a string. -/
def asBytes (s : String) : List UInt8 := s.toByteArray.data.toList

theorem asBytes_append (s t : String) : asBytes (s ++ t) = asBytes s ++ asBytes t := by
  simp [asBytes, String.toByteArray_append, ByteArray.data_append]

theorem asBytes_inj {s t : String} (h : asBytes s = asBytes t) : s = t := by
  unfold asBytes at h
  rw [Array.toList_inj] at h
  exact String.toByteArray_inj.mp (ByteArray.ext h)

theorem asBytes_ofList (l : List Char) :
    asBytes (String.ofList l) = l.flatMap String.utf8EncodeChar := by
  simp [asBytes, String.toByteArray_ofList, List.utf8Encode]

/-- An ASCII character is one byte, its code. -/
theorem utf8EncodeChar_ascii {c : Char} (h : c.toNat < 128) :
    String.utf8EncodeChar c = [UInt8.ofNat c.toNat] := by
  have hs : c.utf8Size = 1 := Char.utf8Size_eq_one_iff.mpr (by
    rw [UInt32.le_iff_toNat_le]
    have : c.val.toNat = c.toNat := rfl
    rw [this]
    simpa using Nat.le_of_lt_succ h)
  rw [String.utf8EncodeChar_eq_singleton hs]
  rfl

/-- ASCII text has one byte for each character. -/
theorem asBytes_ascii {l : List Char} (h : ∀ c ∈ l, c.toNat < 128) :
    asBytes (String.ofList l) = l.map fun c => UInt8.ofNat c.toNat := by
  rw [asBytes_ofList]
  induction l with
  | nil => rfl
  | cons c l ih =>
    rw [List.flatMap_cons, utf8EncodeChar_ascii (h c List.mem_cons_self),
      ih fun d hd => h d (List.mem_cons_of_mem c hd)]
    rfl

/-- The first byte of any other character is not ASCII. -/
theorem utf8EncodeChar_first {c : Char} (h : ¬ c.toNat < 128) :
    ∃ b l, String.utf8EncodeChar c = b :: l ∧ 128 ≤ b.toNat := by
  have hv : c.val.toNat = c.toNat := rfl
  unfold String.utf8EncodeChar
  rw [hv]
  have h1 : ¬ c.toNat ≤ 127 := by omega
  rw [if_neg h1]
  split_ifs
  all_goals
    refine ⟨_, _, rfl, ?_⟩
    rw [UInt8.toNat_ofNat']
    omega

/-- **ASCII at the start** of a text is read off its bytes. -/
theorem split_ascii {a : List Char} (ha : ∀ c ∈ a, c.toNat < 128) {cs : List Char}
    {rest : List UInt8}
    (h : asBytes (String.ofList cs) = asBytes (String.ofList a) ++ rest) :
    ∃ t, cs = a ++ t ∧ asBytes (String.ofList t) = rest := by
  induction a generalizing cs with
  | nil => exact ⟨cs, rfl, h⟩
  | cons c a ih =>
    have hc := ha c List.mem_cons_self
    simp only [asBytes_ofList, List.flatMap_cons, utf8EncodeChar_ascii hc, List.cons_append,
      List.nil_append] at h
    cases cs with
    | nil => exact absurd h (by simp)
    | cons d cs =>
      by_cases hd : d.toNat < 128
      · rw [List.flatMap_cons, utf8EncodeChar_ascii hd, List.cons_append, List.nil_append] at h
        obtain ⟨hcd, hrest⟩ := List.cons.inj h
        have hnat := congrArg UInt8.toNat hcd
        rw [UInt8.toNat_ofNat', UInt8.toNat_ofNat'] at hnat
        obtain rfl : d = c := Char.toNat_inj.mp (by omega)
        rw [← asBytes_ofList, ← asBytes_ofList] at hrest
        obtain ⟨t, rfl, ht⟩ := ih (fun e he => ha e (List.mem_cons_of_mem d he)) hrest
        exact ⟨t, rfl, ht⟩
      · obtain ⟨b, l, hb, hlow⟩ := utf8EncodeChar_first hd
        rw [List.flatMap_cons, hb, List.cons_append] at h
        have hnat := congrArg UInt8.toNat (List.cons.inj h).1
        rw [UInt8.toNat_ofNat'] at hnat
        omega

/-! ## Hexadecimal -/

/-- The lower-case digit of a number below 16. -/
def hexDigit (n : Nat) : Char := if n < 10 then Char.ofNat (48 + n) else Char.ofNat (87 + n)

/-- The value of a hexadecimal digit, of either case. -/
def hexVal (c : Char) : Option Nat :=
  if 48 ≤ c.toNat ∧ c.toNat ≤ 57 then some (c.toNat - 48)
  else if 97 ≤ c.toNat ∧ c.toNat ≤ 102 then some (c.toNat - 87)
  else if 65 ≤ c.toNat ∧ c.toNat ≤ 70 then some (c.toNat - 55)
  else none

/-- Two digits for each byte. -/
def hexChars : List UInt8 → List Char
  | [] => []
  | b :: bs => hexDigit (b.toNat / 16) :: hexDigit (b.toNat % 16) :: hexChars bs

/-- The digits back to bytes: an odd number of digits or a foreign character is an error. -/
def unhexChars : List Char → Option (List UInt8)
  | [] => some []
  | [_] => none
  | a :: b :: cs =>
    match hexVal a, hexVal b, unhexChars cs with
    | some x, some y, some bs => some (UInt8.ofNat (16 * x + y) :: bs)
    | _, _, _ => none

def hexEncode (bs : List UInt8) : String := String.ofList (hexChars bs)

def hexDecode (s : String) : Option (List UInt8) := unhexChars s.toList

theorem hexDigit_spec : ∀ n < 16, hexVal (hexDigit n) = some n ∧
    48 ≤ (hexDigit n).toNat ∧ (hexDigit n).toNat < 128 ∧ (hexDigit n).toNat ≠ 58 := by
  decide

theorem mem_hexChars {bs : List UInt8} {c : Char} (h : c ∈ hexChars bs) :
    ∃ n < 16, c = hexDigit n := by
  induction bs with
  | nil => exact absurd h List.not_mem_nil
  | cons b bs ih =>
    have hb := b.toNat_lt
    rcases List.mem_cons.mp h with rfl | h
    · exact ⟨_, by omega, rfl⟩
    · rcases List.mem_cons.mp h with rfl | h
      · exact ⟨_, by omega, rfl⟩
      · exact ih h

theorem length_hexChars (bs : List UInt8) : (hexChars bs).length = 2 * bs.length := by
  induction bs with
  | nil => rfl
  | cons b bs ih => simp only [hexChars, List.length_cons, ih]; omega

theorem unhexChars_hexChars (bs : List UInt8) : unhexChars (hexChars bs) = some bs := by
  induction bs with
  | nil => rfl
  | cons b bs ih =>
    have hb := b.toNat_lt
    have h1 := (hexDigit_spec (b.toNat / 16) (by omega)).1
    have h2 := (hexDigit_spec (b.toNat % 16) (by omega)).1
    have h3 : 16 * (b.toNat / 16) + b.toNat % 16 = b.toNat := by omega
    simp only [hexChars, unhexChars, h1, h2, ih, h3, UInt8.ofNat_toNat]

/-- **Round trip.** -/
theorem hexDecode_hexEncode (bs : List UInt8) : hexDecode (hexEncode bs) = some bs := by
  rw [hexDecode, hexEncode, String.toList_ofList, unhexChars_hexChars]

theorem hexEncode_inj {a b : List UInt8} (h : hexEncode a = hexEncode b) : a = b := by
  have ha := hexDecode_hexEncode a
  rw [h, hexDecode_hexEncode] at ha
  exact (Option.some.inj ha).symm

/-- The bytes of a hexadecimal text: two for each byte, none of them below `0`. -/
theorem asBytes_hexEncode (bs : List UInt8) :
    asBytes (hexEncode bs) = (hexChars bs).map fun c => UInt8.ofNat c.toNat :=
  asBytes_ascii fun _ hc => by
    obtain ⟨n, hn, rfl⟩ := mem_hexChars hc
    exact (hexDigit_spec n hn).2.2.1

theorem length_asBytes_hexEncode (bs : List UInt8) :
    (asBytes (hexEncode bs)).length = 2 * bs.length := by
  rw [asBytes_hexEncode, List.length_map, length_hexChars]

theorem zero_not_mem_hexEncode (bs : List UInt8) : (0 : UInt8) ∉ asBytes (hexEncode bs) := by
  rw [asBytes_hexEncode]
  intro h
  obtain ⟨c, hc, h0⟩ := List.mem_map.mp h
  obtain ⟨n, hn, rfl⟩ := mem_hexChars hc
  obtain ⟨-, h1, h2, -⟩ := hexDigit_spec n hn
  have := congrArg UInt8.toNat h0
  rw [UInt8.toNat_ofNat'] at this
  simp only [UInt8.toNat_zero] at this
  omega

theorem colon_not_mem_hexEncode (bs : List UInt8) : ':' ∉ (hexEncode bs).toList := by
  rw [hexEncode, String.toList_ofList]
  intro h
  obtain ⟨n, hn, hc⟩ := mem_hexChars h
  exact (hexDigit_spec n hn).2.2.2 (by rw [← hc]; rfl)

/-! ## Case and surrounding blanks -/

/-- ASCII lower case, every other character kept. -/
def lower (s : String) : String := String.ofList (s.toList.map Char.toLower)

/-- The characters of Unicode's `White_Space` property. -/
def isBlank (c : Char) : Bool :=
  let n := c.toNat
  (9 ≤ n && n ≤ 13) || n == 32 || n == 0x85 || n == 0xa0 || n == 0x1680 ||
    (0x2000 ≤ n && n ≤ 0x200a) || n == 0x2028 || n == 0x2029 || n == 0x202f || n == 0x205f ||
    n == 0x3000

/-- Leading and trailing blanks dropped. -/
def trim (s : String) : String :=
  String.ofList (((s.toList.dropWhile isBlank).reverse.dropWhile isBlank).reverse)

theorem hexVal_toLower (c : Char) : hexVal c.toLower = hexVal c := by
  have key : ∀ n < 128, hexVal (Char.ofNat n).toLower = hexVal (Char.ofNat n) := by decide
  by_cases h : c.toNat < 128
  · have := key c.toNat h
    rwa [Char.ofNat_toNat] at this
  · -- outside ASCII `toLower` is the identity
    have : c.toLower = c := by
      unfold Char.toLower
      split
      · rename_i hc
        have h2 := hc.2
        rw [UInt32.le_iff_toNat_le] at h2
        have h3 : c.val.toNat = c.toNat := rfl
        have h4 : 'Z'.val.toNat = 90 := rfl
        rw [h3, h4] at h2
        omega
      · rfl
    rw [this]

theorem unhexChars_map_toLower : ∀ cs : List Char,
    unhexChars (cs.map Char.toLower) = unhexChars cs
  | [] => rfl
  | [_] => rfl
  | a :: b :: cs => by
    simp only [List.map_cons, unhexChars, hexVal_toLower, unhexChars_map_toLower cs]

/-- **Case does not matter** to what a text decodes to. -/
theorem hexDecode_lower (s : String) : hexDecode (lower s) = hexDecode s := by
  rw [hexDecode, lower, String.toList_ofList, unhexChars_map_toLower, hexDecode]

theorem toLower_hexDigit : ∀ n < 16, (hexDigit n).toLower = hexDigit n := by decide

theorem lower_hexEncode (bs : List UInt8) : lower (hexEncode bs) = hexEncode bs := by
  rw [lower, hexEncode, String.toList_ofList]
  congr 1
  refine (List.map_congr_left fun c hc => ?_).trans (List.map_id _)
  obtain ⟨n, hn, rfl⟩ := mem_hexChars hc
  exact toLower_hexDigit n hn

theorem not_isBlank_of_hexVal {c : Char} {n : Nat} (h : hexVal c = some n) :
    isBlank c = false := by
  unfold hexVal at h
  unfold isBlank
  split at h
  · simp; omega
  · split at h
    · simp; omega
    · split at h
      · simp; omega
      · exact absurd h (by simp)

theorem hexVal_of_unhexChars : ∀ {cs : List Char} {bs : List UInt8}, unhexChars cs = some bs →
    ∀ c ∈ cs, ∃ n, hexVal c = some n
  | [], _, _, c, hc => absurd hc List.not_mem_nil
  | [_], _, h, _, _ => absurd h (by simp [unhexChars])
  | a :: b :: cs, bs, h, c, hc => by
    simp only [unhexChars] at h
    split at h
    · rename_i x y t hx hy ht
      rcases List.mem_cons.mp hc with rfl | hc
      · exact ⟨x, hx⟩
      · rcases List.mem_cons.mp hc with rfl | hc
        · exact ⟨y, hy⟩
        · exact hexVal_of_unhexChars ht c hc
    · exact absurd h (by simp)

theorem dropWhile_of_not_blank {l : List Char} (h : ∀ c ∈ l, isBlank c = false) :
    l.dropWhile isBlank = l := by
  cases l with
  | nil => rfl
  | cons c l => rw [List.dropWhile_cons, if_neg (by rw [h c List.mem_cons_self]; simp)]

/-- A text without blanks is not trimmed. -/
theorem trim_of_not_blank {s : String} (h : ∀ c ∈ s.toList, isBlank c = false) : trim s = s := by
  unfold trim
  rw [dropWhile_of_not_blank h, dropWhile_of_not_blank, List.reverse_reverse, String.ofList_toList]
  exact fun c hc => h c (List.mem_reverse.mp hc)

/-- **A decodable text has no blanks to trim.** -/
theorem trim_of_hexDecode {s : String} {bs : List UInt8} (h : hexDecode s = some bs) :
    trim s = s := by
  refine trim_of_not_blank fun c hc => ?_
  obtain ⟨n, hn⟩ := hexVal_of_unhexChars h c hc
  exact not_isBlank_of_hexVal hn

theorem dropWhile_rdropWhile (l : List Char) :
    ((l.dropWhile isBlank).rdropWhile isBlank).dropWhile isBlank =
      (l.dropWhile isBlank).rdropWhile isBlank := by
  obtain ⟨t, ht⟩ := List.rdropWhile_prefix isBlank (l.dropWhile isBlank)
  cases hr : (l.dropWhile isBlank).rdropWhile isBlank with
  | nil => rfl
  | cons c cs =>
    rw [hr] at ht
    have hc := List.dropWhile_idempotent isBlank l
    rw [← ht, List.cons_append, List.dropWhile_cons] at hc
    rw [List.dropWhile_cons]
    split at hc
    · have := congrArg List.length hc
      have hle := (List.dropWhile_suffix isBlank (l := cs ++ t)).length_le
      rw [List.length_cons] at this
      omega
    · rename_i hb
      rw [if_neg hb]

/-- Trimming twice is trimming once. -/
theorem trim_trim (s : String) : trim (trim s) = trim s := by
  have htrim : ∀ t : String, trim t =
      String.ofList ((t.toList.dropWhile isBlank).rdropWhile isBlank) := fun _ => rfl
  rw [htrim (trim s), htrim s, String.toList_ofList, dropWhile_rdropWhile,
    List.rdropWhile_idempotent]

/-! ## Big-endian numbers -/

/-- The eight big-endian bytes of a number below `2 ^ 64`. -/
def beBytes (n : Nat) : List UInt8 :=
  [UInt8.ofNat (n / 2 ^ 56), UInt8.ofNat (n / 2 ^ 48), UInt8.ofNat (n / 2 ^ 40),
    UInt8.ofNat (n / 2 ^ 32), UInt8.ofNat (n / 2 ^ 24), UInt8.ofNat (n / 2 ^ 16),
    UInt8.ofNat (n / 2 ^ 8), UInt8.ofNat n]

theorem length_beBytes (n : Nat) : (beBytes n).length = 8 := rfl

theorem beBytes_inj {m n : Nat} (hm : m < 2 ^ 64) (hn : n < 2 ^ 64)
    (h : beBytes m = beBytes n) : m = n := by
  simp only [beBytes, List.cons.injEq, and_true, ← UInt8.toNat_inj, UInt8.toNat_ofNat'] at h
  omega

/-! ## Three parts joined by a separator -/

section Joined

variable {α : Type} {sep : α}

/-- Splitting at the first separator. -/
theorem split_at_sep : ∀ {a a' b b' : List α}, sep ∉ a → sep ∉ a' →
    a ++ sep :: b = a' ++ sep :: b' → a = a' ∧ b = b'
  | [], [], _, _, _, _, h => ⟨rfl, (List.cons.inj h).2⟩
  | [], x :: a', _, _, _, ha', h => by
    have := (List.cons.inj h).1
    exact absurd (this ▸ List.mem_cons_self) ha'
  | x :: a, [], _, _, ha, _, h => by
    have := (List.cons.inj h).1
    exact absurd (this ▸ List.mem_cons_self) ha
  | x :: a, y :: a', _, _, ha, ha', h => by
    obtain ⟨rfl, ht⟩ := List.cons.inj h
    obtain ⟨rfl, hb⟩ := split_at_sep (fun hm => ha (List.mem_cons_of_mem _ hm))
      (fun hm => ha' (List.mem_cons_of_mem _ hm)) ht
    exact ⟨rfl, hb⟩

/-- **One reading.** Three parts without the separator, joined by it, determine any three parts
that join to the same text: a part with a separator of its own would leave one too many. -/
theorem joined_inj [DecidableEq α] {a b c a' b' c' : List α} (ha : sep ∉ a) (hb : sep ∉ b)
    (hc : sep ∉ c) (h : a' ++ sep :: (b' ++ sep :: c') = a ++ sep :: (b ++ sep :: c)) :
    a' = a ∧ b' = b ∧ c' = c := by
  have hcount := congrArg (List.count sep) h
  simp only [List.count_append, List.count_cons_self, List.count_eq_zero_of_not_mem ha,
    List.count_eq_zero_of_not_mem hb, List.count_eq_zero_of_not_mem hc] at hcount
  have ha' : sep ∉ a' := List.count_eq_zero.mp (by omega)
  have hb' : sep ∉ b' := List.count_eq_zero.mp (by omega)
  obtain ⟨rfl, hrest⟩ := split_at_sep ha' ha h
  obtain ⟨rfl, rfl⟩ := split_at_sep hb' hb hrest
  exact ⟨rfl, rfl, rfl⟩

end Joined

end Lib.Text
