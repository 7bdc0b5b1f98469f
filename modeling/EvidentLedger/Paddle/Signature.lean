import EvidentLedger.Binding
import EvidentLedger.Json
import EvidentLedger.Lib.Decimal
import Mathlib.Data.Finset.Card

/-!
# The signature of a webhook

Model of `verify_paddle_signature` and `parse_signature_header` (`src/paddle/signature.rs:8-63`). The MAC
is a parameter: a key and a message give 32 bytes.

* `Genuine`: the MAC is ideal for a header, if every message that one of its signatures is the tag of was
  authenticated, and all such messages are a decimal timestamp, a colon and a body.
* `Authenticated`: the body was authenticated together with the timestamp of the header.
* `Straddles`: the timestamp of the header is a number, a colon and more, so that it takes a part of
  the body that was authenticated.
* **`verified_body_iff`**: whatever the ideal MAC, a body that verifies was authenticated, exactly if
  the header does not straddle. `tampered_body_verified` is a header that does.
* `verify_signPayloadForTest`: what the key holder signs verifies.
-/

namespace EvidentLedger.Paddle

open Lib.Text Lib.Decimal

/-! ## Verification -/

/-- HMAC-SHA256: a key and a message. -/
abbrev HmacSha256 := List UInt8 → List UInt8 → Bytes 32

/-- `str::strip_prefix`. -/
def stripPrefix (start text : String) : Option String :=
  if start.toList.isPrefixOf text.toList then
    some (String.ofList (text.toList.drop start.toList.length))
  else none

/-- What the loop of `parse_signature_header` has found. -/
structure HeaderParts where
  timestamp : Option String
  signatures : List String
  deriving DecidableEq

/-- One part of the header. -/
def HeaderParts.add (found : HeaderParts) (part : String) : HeaderParts :=
  match stripPrefix "ts=" (trim part) with
  | some ts => { found with timestamp := some ts }
  | none =>
    match stripPrefix "h1=" (trim part) with
    | some h1 => { found with signatures := found.signatures ++ [h1] }
    | none => found

/-- `parse_signature_header`. -/
def parseSignatureHeader (header : String) : Option (String × List String) :=
  let found := ((header.toList.splitOn ';').map String.ofList).foldl HeaderParts.add ⟨none, []⟩
  match found.timestamp with
  | none => none
  | some ts => if found.signatures.isEmpty then none else some (ts, found.signatures)

/-- `constant_time_eq`. -/
def constantTimeEq (a b : List UInt8) : Bool :=
  if a.length ≠ b.length then false
  else (a.zip b).foldl (fun acc xy => acc ||| (xy.1 ^^^ xy.2)) 0 == 0

/-- `format!("{timestamp}:{body_str}")`. -/
def signedPayload (timestamp body : String) : String := timestamp ++ ":" ++ body

/-- `verify_paddle_signature`. -/
def verifyPaddleSignature (mac : HmacSha256) (rawBody : List UInt8) (signatureHeader secret : String) :
    Bool :=
  match parseSignatureHeader signatureHeader with
  | none => false
  | some (timestamp, signatures) =>
    match fromUtf8 rawBody with
    | none => false
    | some bodyStr =>
      let computed := mac (asBytes secret) (asBytes (signedPayload timestamp bodyStr))
      signatures.any fun sigHex =>
        match hexDecode sigHex with
        | none => false
        | some expected => constantTimeEq computed.1 expected

theorem foldl_or_eq_zero (l : List (UInt8 × UInt8)) (acc : UInt8) :
    l.foldl (fun acc xy => acc ||| (xy.1 ^^^ xy.2)) acc = 0 ↔ acc = 0 ∧ ∀ xy ∈ l, xy.1 = xy.2 := by
  induction l generalizing acc with
  | nil => simp
  | cons xy l ih => simp [ih, and_assoc]

theorem constantTimeEq_iff {a b : List UInt8} : constantTimeEq a b = true ↔ a = b := by
  unfold constantTimeEq
  by_cases hlen : a.length = b.length
  · rw [if_neg (by simpa using hlen), beq_iff_eq, foldl_or_eq_zero]
    constructor
    · rintro ⟨-, h⟩
      refine List.ext_getElem hlen fun i hi hj => ?_
      have hmem : (a[i], b[i]) ∈ a.zip b := by
        refine List.mem_iff_getElem.mpr ⟨i, by simpa using ⟨hi, hj⟩, ?_⟩
        exact List.getElem_zip
      exact h _ hmem
    · rintro rfl
      refine ⟨rfl, fun xy hxy => ?_⟩
      obtain ⟨i, hi, rfl⟩ := List.getElem_of_mem hxy
      simp
  · rw [if_pos (by simpa using hlen)]
    constructor
    · intro h
      exact absurd h (by simp)
    · rintro rfl
      exact absurd rfl hlen

theorem asBytes_of_fromUtf8 {bytes : List UInt8} {text : String} (h : fromUtf8 bytes = some text) :
    asBytes text = bytes := by
  unfold fromUtf8 String.fromUTF8? at h
  split at h
  · rw [← Option.some.inj h]
    simp [asBytes, String.fromUTF8]
  · exact absurd h (by simp)

/-- **What verifies**: one of the signatures is the tag of the timestamp, a colon and the body. -/
theorem verifyPaddleSignature_iff {mac : HmacSha256} {rawBody : List UInt8} {header secret : String} :
    verifyPaddleSignature mac rawBody header secret = true ↔
      ∃ timestamp signatures body, parseSignatureHeader header = some (timestamp, signatures) ∧
        asBytes body = rawBody ∧ ∃ sigHex ∈ signatures, hexDecode sigHex =
          some (mac (asBytes secret) (asBytes (signedPayload timestamp body))).1 := by
  unfold verifyPaddleSignature
  constructor
  · intro h
    split at h
    · exact absurd h (by simp)
    · rename_i timestamp signatures hparse
      split at h
      · exact absurd h (by simp)
      · rename_i body hbody
        obtain ⟨sigHex, hmem, hsig⟩ := List.any_eq_true.mp h
        refine ⟨timestamp, signatures, body, hparse, asBytes_of_fromUtf8 hbody, sigHex, hmem, ?_⟩
        split at hsig
        · exact absurd hsig (by simp)
        · rename_i expected hexpected
          rw [hexpected, constantTimeEq_iff.mp hsig]
  · rintro ⟨timestamp, signatures, body, hparse, rfl, sigHex, hmem, hsig⟩
    rw [hparse]
    simp only [fromUtf8_asBytes]
    refine List.any_eq_true.mpr ⟨sigHex, hmem, ?_⟩
    rw [hsig]
    exact constantTimeEq_iff.mpr rfl

/-! ## What was authenticated -/

/-- A signature header; a Rust string has less than `2 ^ 63` bytes. -/
abbrev HeaderText := { header : String // header.toList.length < 2 ^ 63 }

/-- A decimal timestamp. -/
def timestampText (t : Int) : String := String.ofList (intChars t)

/-- What the key holder authenticates for a body at a time. -/
def authenticatedText (t : Int) (body : List UInt8) : List UInt8 :=
  asBytes (timestampText t ++ ":") ++ body

/-- **An ideal MAC**, for a header: a message that one of its signatures is the tag of was authenticated,
with a time and a body. -/
def Genuine (mac : HmacSha256) (secret : String) (signed : Set (Int × List UInt8)) (header : String) :
    Prop :=
  ∀ timestamp signatures, parseSignatureHeader header = some (timestamp, signatures) →
    ∀ sigHex ∈ signatures, ∀ message, hexDecode sigHex = some (mac (asBytes secret) message).1 →
      ∃ s ∈ signed, message = authenticatedText s.1 s.2

/-- Exactly this body was authenticated, with the timestamp of the header. -/
def Authenticated (signed : Set (Int × List UInt8)) (header : String) (body : List UInt8) : Prop :=
  ∃ t signatures, parseSignatureHeader header = some (timestampText t, signatures) ∧ (t, body) ∈ signed

/-- **The timestamp of the header takes a part of the body**: it is a number, a colon and more. The body
is a text, and one of the signatures is 32 bytes. -/
def Straddles (header : String) (body : List UInt8) : Prop :=
  ∃ t rest signatures, parseSignatureHeader header = some (timestampText t ++ ":" ++ rest, signatures) ∧
    (∃ sigHex ∈ signatures, ∃ tag : Bytes 32, hexDecode sigHex = some tag.1) ∧
      ∃ text, asBytes text = body

theorem timestampText_ascii {t : Int} {c : Char} (h : c ∈ intChars t) : c.toNat < 128 ∧ c ≠ ':' := by
  rcases mem_intChars h with rfl | hc
  · decide
  · have hall : "0123456789".toList.all fun d => d.toNat < 128 ∧ d ≠ ':' := by decide
    simpa using List.all_eq_true.mp hall c (mem_digits hc)

theorem colon_not_mem_timestampText (t : Int) : ':' ∉ intChars t :=
  fun h => (timestampText_ascii h).2 rfl

theorem toList_signedPayload (timestamp body : String) :
    (signedPayload timestamp body).toList = timestamp.toList ++ ':' :: body.toList := by
  simp [signedPayload, String.toList_append]

/-- **Decomposition.** A payload that was authenticated is one of the two readings: its timestamp is the
time and its body the body, or the timestamp straddles the colon. -/
theorem payload_cases {timestamp body : String} {t : Int} {signedBody : List UInt8}
    (h : asBytes (signedPayload timestamp body) = authenticatedText t signedBody) :
    (timestamp = timestampText t ∧ asBytes body = signedBody) ∨
      ∃ rest, timestamp = timestampText t ++ ":" ++ rest := by
  have hascii : ∀ c ∈ intChars t ++ [':'], c.toNat < 128 := by
    intro c hc
    rcases List.mem_append.mp hc with hc | hc
    · exact (timestampText_ascii hc).1
    · rw [List.mem_singleton.mp hc]
      decide
  have hstart : timestampText t ++ ":" = String.ofList (intChars t ++ [':']) :=
    String.toList_inj.mp (by simp [timestampText, String.toList_append])
  rw [authenticatedText, hstart, ← String.ofList_toList (s := signedPayload timestamp body)] at h
  obtain ⟨tail, htail, hbody⟩ := split_ascii hascii h
  rw [toList_signedPayload, List.append_assoc, List.singleton_append] at htail
  by_cases hcolon : ':' ∈ timestamp.toList
  · right
    obtain ⟨before, after, hsplit, hbefore⟩ := List.eq_append_cons_of_mem hcolon
    rw [hsplit, List.append_assoc, List.cons_append] at htail
    obtain ⟨rfl, -⟩ := split_at_sep hbefore (colon_not_mem_timestampText t) htail
    exact ⟨String.ofList after, String.toList_inj.mp
      (by simp [hsplit, timestampText, String.toList_append])⟩
  · left
    obtain ⟨htime, rfl⟩ := split_at_sep hcolon (colon_not_mem_timestampText t) htail
    refine ⟨String.toList_inj.mp (by rw [htime, timestampText, String.toList_ofList]), ?_⟩
    rw [← hbody, String.ofList_toList]

/-! ## What the key holder signs -/

/-- `sign_payload_for_test`. -/
def signPayloadForTest (mac : HmacSha256) (secret rawBody : String) (timestamp : Int) : String :=
  "ts=" ++ timestampText timestamp ++ ";h1=" ++
    hexEncode (mac (asBytes secret) (asBytes (signedPayload (timestampText timestamp) rawBody))).1

theorem stripPrefix_append (start text : String) : stripPrefix start (start ++ text) = some text := by
  unfold stripPrefix
  rw [String.toList_append, if_pos (by simp [List.isPrefixOf_iff_prefix]), List.drop_left,
    String.ofList_toList]

theorem stripPrefix_h1 (text : String) : stripPrefix "ts=" ("h1=" ++ text) = none := by
  unfold stripPrefix
  rw [String.toList_append, if_neg]
  simp [List.isPrefixOf]

/-- No separator and no blank. -/
def plainPart (c : Char) : Bool := !isBlank c && c != ';'

theorem plainPart_timestampText {t : Int} {c : Char} (h : c ∈ (timestampText t).toList) :
    plainPart c = true := by
  rw [timestampText, String.toList_ofList] at h
  rcases mem_intChars h with rfl | hc
  · rfl
  · have hall : "0123456789".toList.all plainPart = true := by decide
    exact List.all_eq_true.mp hall c (mem_digits hc)

theorem plainPart_hexEncode {bs : List UInt8} {c : Char} (h : c ∈ (hexEncode bs).toList) :
    plainPart c = true := by
  rw [hexEncode, String.toList_ofList] at h
  obtain ⟨n, hn, rfl⟩ := mem_hexChars h
  have hall : ∀ n < 16, plainPart (hexDigit n) = true := by decide
  exact hall n hn

theorem parseSignatureHeader_parts {ts h1 : String} (hts : ∀ c ∈ ts.toList, plainPart c = true)
    (hh1 : ∀ c ∈ h1.toList, plainPart c = true) :
    parseSignatureHeader ("ts=" ++ ts ++ ";h1=" ++ h1) = some (ts, [h1]) := by
  have hplain : ∀ (start : String) {text : String}, (∀ c ∈ start.toList, plainPart c = true) →
      (∀ c ∈ text.toList, plainPart c = true) → ∀ c ∈ (start ++ text).toList, plainPart c = true := by
    intro start text hstart htext c hc
    rw [String.toList_append] at hc
    exact (List.mem_append.mp hc).elim (hstart c) (htext c)
  have hleft := hplain "ts=" (List.all_eq_true.mp (by decide)) hts
  have hright := hplain "h1=" (List.all_eq_true.mp (by decide)) hh1
  have hblank : ∀ {s : String}, (∀ c ∈ s.toList, plainPart c = true) → trim s = s := by
    intro s hs
    refine trim_of_not_blank fun c hc => ?_
    have hc := hs c hc
    unfold plainPart at hc
    grind
  have hsep : ∀ {s : String}, (∀ c ∈ s.toList, plainPart c = true) → ';' ∉ s.toList := by
    intro s hs hmem
    exact absurd (hs ';' hmem) (by decide)
  have hsplit : ("ts=" ++ ts ++ ";h1=" ++ h1).toList.splitOn ';' =
      [("ts=" ++ ts).toList, ("h1=" ++ h1).toList] := by
    have htext : ("ts=" ++ ts ++ ";h1=" ++ h1).toList =
        ("ts=" ++ ts).toList ++ ';' :: ("h1=" ++ h1).toList := by
      simp [String.toList_append]
    rw [htext, List.splitOn_append_cons_self_of_not_mem (hsep hleft),
      List.splitOn_eq_singleton (hsep hright)]
  simp only [parseSignatureHeader]
  rw [hsplit]
  simp only [List.map_cons, List.map_nil, List.foldl_cons, List.foldl_nil, String.ofList_toList,
    HeaderParts.add, hblank hleft, hblank hright, stripPrefix_append, stripPrefix_h1, List.nil_append]
  rfl

/-- **What the key holder signs verifies.** -/
theorem verify_signPayloadForTest (mac : HmacSha256) (secret rawBody : String) (timestamp : Int) :
    verifyPaddleSignature mac (asBytes rawBody) (signPayloadForTest mac secret rawBody timestamp)
      secret = true :=
  verifyPaddleSignature_iff.mpr ⟨_, _, rawBody,
    parseSignatureHeader_parts (fun _ => plainPart_timestampText) (fun _ => plainPart_hexEncode), rfl,
    _, List.mem_cons_self, hexDecode_hexEncode _⟩

/-! ## What verifies -/

/-- Fewer texts than there are tags leave one out. -/
theorem exists_other_tag (signatures : List String) (h : signatures.length < 2 ^ 64) :
    ∃ tag : Bytes 32, ∀ sigHex ∈ signatures, hexDecode sigHex ≠ some tag.1 := by
  have htag : ∀ n : Nat, (List.replicate 24 (0 : UInt8) ++ beBytes n).length = 32 := fun _ => rfl
  by_contra hall
  push Not at hall
  have hinj : Set.InjOn (fun n => some (List.replicate 24 (0 : UInt8) ++ beBytes n))
      (Finset.range (2 ^ 64)) := by
    intro m hm n hn hmn
    exact beBytes_inj (by simpa using hm) (by simpa using hn)
      (List.append_cancel_left (Option.some.inj hmn))
  have hsub : (Finset.range (2 ^ 64)).image (fun n => some (List.replicate 24 (0 : UInt8) ++ beBytes n)) ⊆
      (signatures.map hexDecode).toFinset := by
    intro x hx
    obtain ⟨n, -, rfl⟩ := Finset.mem_image.mp hx
    obtain ⟨sigHex, hmem, hdecode⟩ := hall ⟨_, htag n⟩
    exact List.mem_toFinset.mpr (List.mem_map.mpr ⟨sigHex, hmem, hdecode⟩)
  have hcard := Finset.card_le_card hsub
  rw [Finset.card_image_of_injOn hinj, Finset.card_range] at hcard
  have hlen := (signatures.map hexDecode).toFinset_card_le
  rw [List.length_map] at hlen
  omega

theorem length_foldl_add (parts : List String) (found : HeaderParts) :
    (parts.foldl HeaderParts.add found).signatures.length ≤ found.signatures.length + parts.length := by
  induction parts generalizing found with
  | nil => simp
  | cons part parts ih =>
    have hone : (found.add part).signatures.length ≤ found.signatures.length + 1 := by
      unfold HeaderParts.add
      split
      · exact Nat.le_succ _
      · split
        · simp
        · exact Nat.le_succ _
    have hrest := ih (found.add part)
    rw [List.foldl_cons, List.length_cons]
    omega

theorem length_splitOn_le (l : List Char) (c : Char) : (l.splitOn c).length ≤ l.length + 1 := by
  induction l with
  | nil => simp
  | cons d l ih =>
    rw [List.splitOn_cons_eq_if_modifyHead]
    split_ifs
    · simpa using ih
    · simp only [List.length_modifyHead, List.length_cons]
      omega

/-- A header has fewer signatures than there are tags. -/
theorem length_signatures (header : HeaderText) {timestamp : String} {signatures : List String}
    (h : parseSignatureHeader header.1 = some (timestamp, signatures)) :
    signatures.length < 2 ^ 64 := by
  have hfold := length_foldl_add ((header.1.toList.splitOn ';').map String.ofList) ⟨none, []⟩
  have hsplit := length_splitOn_le header.1.toList ';'
  have hheader := header.2
  rw [List.length_map, List.length_nil] at hfold
  simp only [parseSignatureHeader] at h
  split at h
  · exact absurd h (by simp)
  · split_ifs at h
    obtain ⟨-, rfl⟩ := Prod.mk.inj (Option.some.inj h)
    omega

/-- **A straddling header forges**: with an ideal MAC, its body verifies and was not authenticated. -/
theorem exists_forged (header : HeaderText) {body : List UInt8} (h : Straddles header.1 body) :
    ∃ (mac : HmacSha256) (secret : String) (signed : Set (Int × List UInt8)),
      Genuine mac secret signed header.1 ∧ verifyPaddleSignature mac body header.1 secret = true ∧
        ¬ Authenticated signed header.1 body := by
  obtain ⟨t, rest, signatures, hparse, ⟨sigHex, hmem, tag, htag⟩, text, rfl⟩ := h
  obtain ⟨other, hother⟩ := exists_other_tag signatures (length_signatures header hparse)
  have hpayload : asBytes (signedPayload (timestampText t ++ ":" ++ rest) text) =
      authenticatedText t (asBytes (rest ++ ":" ++ text)) := by
    simp only [signedPayload, authenticatedText, asBytes_append, List.append_assoc]
  -- the key holder has authenticated the longer body, and nothing else
  refine ⟨fun _ message =>
    if message = authenticatedText t (asBytes (rest ++ ":" ++ text)) then tag else other, "",
    {(t, asBytes (rest ++ ":" ++ text))}, ?_, ?_, ?_⟩
  · intro timestamp signatures' hparse' sig hsig message hdecode
    rw [hparse] at hparse'
    obtain ⟨-, rfl⟩ := Prod.mk.inj (Option.some.inj hparse')
    refine ⟨_, rfl, ?_⟩
    by_contra hne
    simp only [if_neg hne] at hdecode
    exact hother sig hsig hdecode
  · refine verifyPaddleSignature_iff.mpr ⟨_, signatures, text, hparse, rfl, sigHex, hmem, ?_⟩
    rw [htag, hpayload, if_pos rfl]
  · rintro ⟨t', signatures', hparse', -⟩
    rw [hparse] at hparse'
    have htext := congrArg String.toList (Prod.mk.inj (Option.some.inj hparse')).1
    refine colon_not_mem_timestampText t' ?_
    rw [timestampText, timestampText, String.toList_ofList] at htext
    rw [← htext]
    simp [String.toList_append]

/-- **A verified body is the body that was signed**, whatever the ideal MAC, exactly where the timestamp
of the header does not take a part of it. -/
theorem verified_body_iff (header : HeaderText) (body : List UInt8) :
    (∀ (mac : HmacSha256) (secret : String) (signed : Set (Int × List UInt8)),
      Genuine mac secret signed header.1 →
        verifyPaddleSignature mac body header.1 secret = true → Authenticated signed header.1 body) ↔
      ¬ Straddles header.1 body := by
  constructor
  · intro h hstraddles
    obtain ⟨mac, secret, signed, hgenuine, hverify, hnot⟩ := exists_forged header hstraddles
    exact hnot (h mac secret signed hgenuine hverify)
  · intro hnot mac secret signed hgenuine hverify
    obtain ⟨timestamp, signatures, text, hparse, rfl, sigHex, hmem, htag⟩ :=
      verifyPaddleSignature_iff.mp hverify
    obtain ⟨⟨t, signedBody⟩, hs, hmessage⟩ := hgenuine timestamp signatures hparse sigHex hmem _ htag
    obtain ⟨rfl, rfl⟩ | ⟨rest, rfl⟩ := payload_cases hmessage
    · exact ⟨t, signatures, hparse, hs⟩
    · exact absurd ⟨t, rest, signatures, hparse, ⟨sigHex, hmem, _, htag⟩, text, rfl⟩ hnot

/-- A header with the start of an event in its timestamp. -/
def tamperedHeader : String :=
  "ts=1700000000:\x7b\"event_id\";h1=" ++ hexEncode (List.replicate 32 0)

/-- The rest of the event. -/
def tamperedBody : List UInt8 := asBytes "\"evt_1\"\x7d"

/-- One event was authenticated, and the rest of it verifies under such a header. -/
theorem tampered_body_verified :
    ¬ ∀ (mac : HmacSha256) (secret : String) (signed : Set (Int × List UInt8)),
      Genuine mac secret signed tamperedHeader →
        verifyPaddleSignature mac tamperedBody tamperedHeader secret = true →
          Authenticated signed tamperedHeader tamperedBody := by
  have hstraddles : Straddles tamperedHeader tamperedBody :=
    ⟨1700000000, "\x7b\"event_id\"", [hexEncode (List.replicate 32 0)], by decide +kernel,
      ⟨_, List.mem_cons_self, ⟨List.replicate 32 0, rfl⟩, hexDecode_hexEncode _⟩, _, rfl⟩
  have hlen : tamperedHeader.toList.length < 2 ^ 63 := by decide +kernel
  obtain ⟨mac, secret, signed, hgenuine, hverify, hnot⟩ :=
    exists_forged ⟨tamperedHeader, hlen⟩ hstraddles
  exact fun h => hnot (h mac secret signed hgenuine hverify)

end EvidentLedger.Paddle
