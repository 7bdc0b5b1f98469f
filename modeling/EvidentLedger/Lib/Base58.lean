import EvidentLedger.Lib.Text
import Mathlib.Data.Nat.Digits.Lemmas

/-!
# Digits in another base, and Base58

A list of digits in one base, the first the highest, is turned into digits of the other base one by one:
each multiplies the number so far and is added to it, with the carry running through the digits there are
and then into new ones (`pass`). A zero in front changes no number, so as many are put in front of the
result.

## Results

* `foldl_pass`: the digits so far are `Nat.digits` of the number so far.
* **`convert_convert`**: a list of digits is read back from the other base, its leading zeros included.
* `decode_encode`, `encode_alphabet`: Base58 is read back, and is written in its alphabet.
-/

namespace Lib.Base58

open Lib.Text

/-! ## Digits -/

section Radix

/-- What is left of the carry: new digits, the lowest first. -/
def spill (q : Nat) : Nat → Nat → List Nat
  | 0, _ => []
  | fuel + 1, carry => if carry = 0 then [] else carry % q :: spill q fuel (carry / q)

/-- The digits in base `q`, the lowest first, times `p` and with `carry` added. -/
def pass (p q : Nat) : List Nat → Nat → List Nat
  | [], carry => spill q carry carry
  | d :: ds, carry => (carry + d * p) % q :: pass p q ds ((carry + d * p) / q)

/-- The digits of base `p` in base `q`. -/
def convert (p q : Nat) (input : List Nat) : List Nat :=
  (input.foldl (pass p q) [] ++ input.takeWhile (· = 0)).reverse

variable {p q : Nat} {input : List Nat}

theorem spill_eq (hq : 1 < q) {fuel carry : Nat} (h : carry ≤ fuel) :
    spill q fuel carry = Nat.digits q carry := by
  induction fuel generalizing carry with
  | zero =>
    obtain rfl := Nat.le_zero.mp h
    rw [spill, Nat.digits_zero]
  | succ fuel ih =>
    unfold spill
    by_cases hzero : carry = 0
    · rw [if_pos hzero, hzero, Nat.digits_zero]
    · have hpos : 0 < carry := Nat.pos_of_ne_zero hzero
      have hless : carry / q ≤ fuel := Nat.le_of_lt_succ ((Nat.div_lt_self hpos hq).trans_le h)
      rw [if_neg hzero, Nat.digits_def' hq hpos, ih hless]

/-- **One pass** multiplies and adds. -/
theorem pass_digits (hp : 0 < p) (hq : 1 < q) (n carry : Nat) :
    pass p q (Nat.digits q n) carry = Nat.digits q (p * n + carry) := by
  induction n using Nat.strong_induction_on generalizing carry with
  | _ n ih =>
    by_cases hzero : n = 0
    · rw [hzero, Nat.digits_zero, pass, spill_eq hq le_rfl, Nat.mul_zero, Nat.zero_add]
    · have hn : 0 < n := Nat.pos_of_ne_zero hzero
      have hpos : 0 < p * n + carry := Nat.add_pos_left (Nat.mul_pos hp hn) carry
      have hsplit : p * n + carry = carry + n % q * p + q * (p * (n / q)) := by
        calc p * n + carry = p * (n % q + q * (n / q)) + carry := by rw [Nat.mod_add_div]
          _ = carry + n % q * p + q * (p * (n / q)) := by ring
      rw [Nat.digits_def' hq hn, pass, ih (n / q) (Nat.div_lt_self hn hq), Nat.digits_def' hq hpos, hsplit,
        Nat.add_mul_mod_self_left, Nat.add_mul_div_left _ _ (Nat.zero_lt_of_lt hq), Nat.add_comm (p * _)]

/-- **The loop**: the digits so far are those of the number so far. -/
theorem foldl_pass (hp : 0 < p) (hq : 1 < q) (input : List Nat) (n : Nat) :
    input.foldl (pass p q) (Nat.digits q n) =
      Nat.digits q (input.foldl (fun m d => p * m + d) n) := by
  induction input generalizing n with
  | nil => rfl
  | cons d input ih => rw [List.foldl_cons, List.foldl_cons, pass_digits hp hq, ih]

theorem foldl_value (p : Nat) (input : List Nat) :
    input.foldl (fun m d => p * m + d) 0 = Nat.ofDigits p input.reverse := by
  rw [Nat.ofDigits_eq_foldr, List.foldr_reverse]
  exact congrFun (congrFun (congrArg List.foldl (funext fun m => funext fun d =>
    Nat.add_comm _ _)) 0) input

theorem takeWhile_eq_replicate (input : List Nat) :
    input.takeWhile (· = 0) = List.replicate (input.takeWhile (· = 0)).length 0 :=
  List.eq_replicate_of_mem fun d hd => by simpa using List.mem_takeWhile_imp hd

/-- The leading zeros of the input, and the digits of its number. -/
theorem convert_eq (hp : 0 < p) (hq : 1 < q) (input : List Nat) :
    convert p q input = List.replicate (input.takeWhile (· = 0)).length 0 ++
      (Nat.digits q (Nat.ofDigits p input.reverse)).reverse := by
  have hzeros := takeWhile_eq_replicate input
  have hfold := foldl_pass hp hq input 0
  rw [Nat.digits_zero, foldl_value] at hfold
  rw [convert, hfold, List.reverse_append]
  congr 1
  rw [hzeros, List.reverse_replicate, List.length_replicate]

/-- The highest digit is none of the leading zeros. -/
theorem takeWhile_zeros (q zeros n : Nat) :
    (List.replicate zeros 0 ++ (Nat.digits q n).reverse).takeWhile (· = 0) = List.replicate zeros 0 := by
  have hall : ∀ d ∈ List.replicate zeros 0, decide (d = 0) = true := by
    intro d hd
    rw [List.eq_of_mem_replicate hd]
    rfl
  rw [List.takeWhile_append_of_pos hall]
  by_cases hzero : n = 0
  · rw [hzero, Nat.digits_zero]
    simp
  · have hne : Nat.digits q n ≠ [] := Nat.digits_ne_nil_iff_ne_zero.mpr hzero
    have hlast := Nat.getLast_digit_ne_zero q hzero
    cases hrev : (Nat.digits q n).reverse with
    | nil => simp
    | cons d rest =>
      have hd : (Nat.digits q n).getLast hne = d := by
        rw [List.getLast_eq_head_reverse]
        simp [hrev]
      rw [hd] at hlast
      simp [hlast]

/-- The number of the rest, from its digits. -/
theorem digits_rest (hp : 1 < p) (h : ∀ d ∈ input, d < p) :
    Nat.digits p (Nat.ofDigits p input.reverse) = (input.dropWhile (· = 0)).reverse := by
  have hsplit : input.reverse = (input.dropWhile (· = 0)).reverse ++
      List.replicate (input.takeWhile (· = 0)).length 0 := by
    rw [← List.reverse_replicate, ← takeWhile_eq_replicate, ← List.reverse_append,
      List.takeWhile_append_dropWhile]
  rw [hsplit, Nat.ofDigits_append_replicate_zero]
  refine Nat.digits_ofDigits p hp _ (fun d hd => ?_) fun hne => ?_
  · exact h d (List.dropWhile_subset _ (List.mem_reverse.mp hd))
  · rw [List.getLast_reverse]
    simpa using List.head_dropWhile_not (fun d => decide (d = 0)) (by simpa using hne)

/-- **The digits are read back** from the other base. -/
theorem convert_convert (hp : 1 < p) (hq : 1 < q) (h : ∀ d ∈ input, d < p) :
    convert q p (convert p q input) = input := by
  have hp' : 0 < p := Nat.zero_lt_of_lt hp
  have hq' : 0 < q := Nat.zero_lt_of_lt hq
  rw [convert_eq hp' hq, convert_eq hq' hp, takeWhile_zeros, List.length_replicate, List.reverse_append,
    List.reverse_reverse, List.reverse_replicate, Nat.ofDigits_append_replicate_zero,
    Nat.ofDigits_digits, digits_rest hp h, List.reverse_reverse, ← takeWhile_eq_replicate,
    List.takeWhile_append_dropWhile]

/-- The digits of the other base. -/
theorem convert_lt (hp : 0 < p) (hq : 1 < q) {d : Nat} (h : d ∈ convert p q input) : d < q := by
  rw [convert_eq hp hq] at h
  rcases List.mem_append.mp h with h | h
  · rw [List.eq_of_mem_replicate h]
    exact Nat.zero_lt_of_lt hq
  · exact Nat.digits_lt_base hq (List.mem_reverse.mp h)

end Radix

/-! ## Base58 -/

def alphabet : List Char := "123456789ABCDEFGHJKLMNPQRSTUVWXYZabcdefghijkmnopqrstuvwxyz".toList

/-- The character of a digit. -/
def digit (n : Nat) : Char := alphabet.getD n '1'

/-- The digit of a character. -/
def value (c : Char) : Option Nat := alphabet.idxOf? c

/-- `bs58::encode(…).into_string()`. -/
def encode (bytes : List UInt8) : String :=
  String.ofList ((convert 256 58 (bytes.map UInt8.toNat)).map digit)

/-- `bs58::decode(…).into_vec()`, without its error. -/
def decode (text : String) : Option (List UInt8) :=
  (text.toList.mapM value).map fun digits => (convert 58 256 digits).map UInt8.ofNat

theorem value_digit : ∀ n < 58, value (digit n) = some n := by decide +kernel

theorem digit_mem : ∀ n < 58, digit n ∈ alphabet := by decide +kernel

/-- **The alphabet.** -/
theorem encode_alphabet {bytes : List UInt8} {c : Char} (h : c ∈ (encode bytes).toList) :
    c ∈ alphabet := by
  rw [encode, String.toList_ofList] at h
  obtain ⟨n, hn, rfl⟩ := List.mem_map.mp h
  exact digit_mem n (convert_lt (by decide) (by decide) hn)

theorem mapM_value {digits : List Nat} (h : ∀ n ∈ digits, n < 58) :
    (digits.map digit).mapM value = some digits := by
  induction digits with
  | nil => rfl
  | cons n digits ih =>
    rw [List.map_cons, List.mapM_cons, value_digit n (h n List.mem_cons_self),
      ih fun m hm => h m (List.mem_cons_of_mem n hm)]
    rfl

/-- **What is encoded is decoded.** -/
theorem decode_encode (bytes : List UInt8) : decode (encode bytes) = some bytes := by
  have hdigits : ∀ n ∈ convert 256 58 (bytes.map UInt8.toNat), n < 58 :=
    fun n hn => convert_lt (by decide) (by decide) hn
  have hbytes : ∀ n ∈ bytes.map UInt8.toNat, n < 256 := by
    intro n hn
    obtain ⟨b, -, rfl⟩ := List.mem_map.mp hn
    exact b.toNat_lt
  rw [decode, encode, String.toList_ofList, mapM_value hdigits, Option.map_some,
    convert_convert (by decide) (by decide) hbytes, List.map_map]
  exact congrArg some ((List.map_congr_left fun b _ => UInt8.ofNat_toNat).trans (List.map_id bytes))

end Lib.Base58
