import EvidentLedger.Binding
import EvidentLedger.Ledger.Submit

/-!
# The hash of a request

What `request_hash` (`src/api/v1/submit_event.rs:46-53`) tells apart. It hashes the canonical JSON text
(`src/api/v1/idempotency/canonical.rs`) of three of the five fields of a body.

* `readString` reads a JSON string back, so its text has one reading, whatever follows
  (`jsonString_append_inj`).
* **`requestText_inj`**: the text that is hashed determines the three fields.
* `requestHash_inj`: so does the hash, unless the two texts are a collision.
* `validateSubmitRequest_of_normalized`: whether a body is valid does not depend on the case of its
  `file_hash` or on the blanks around it.
-/

namespace EvidentLedger.Ledger

open Lib.Text

/-! ## JSON strings -/

/-- The characters with a short escape. -/
def unescape (c : Char) : Option Char :=
  if c = '"' then some '"'
  else if c = '\\' then some '\\'
  else if c = 'b' then some (Char.ofNat 8)
  else if c = 't' then some (Char.ofNat 9)
  else if c = 'n' then some (Char.ofNat 10)
  else if c = 'f' then some (Char.ofNat 12)
  else if c = 'r' then some (Char.ofNat 13)
  else none

/-- The inside of a JSON string up to its quote, and what follows. -/
def readString : List Char → Option (List Char × List Char)
  | '"' :: rest => some ([], rest)
  | '\\' :: 'u' :: _ :: _ :: a :: b :: rest =>
    match hexVal a, hexVal b, readString rest with
    | some x, some y, some (s, rest) => some (Char.ofNat (16 * x + y) :: s, rest)
    | _, _, _ => none
  | '\\' :: d :: rest =>
    match unescape d, readString rest with
    | some e, some (s, rest) => some (e :: s, rest)
    | _, _ => none
  | c :: rest => (readString rest).map fun r => (c :: r.1, r.2)
  | [] => none

/-- A short escape is read back. -/
theorem readString_escape {d e : Char} {l s rest : List Char} (hd : d ≠ 'u')
    (he : unescape d = some e) (h : readString l = some (s, rest)) :
    readString ('\\' :: d :: l) = some (e :: s, rest) := by
  rw [readString, he, h]
  intro a b c e l hdu
  exact absurd hdu hd

/-- **One character is read back.** -/
theorem readString_jsonEscape (c : Char) {l s rest : List Char}
    (h : readString l = some (s, rest)) :
    readString (jsonEscape c ++ l) = some (c :: s, rest) := by
  have hc : Char.ofNat c.toNat = c := Char.ofNat_toNat c
  unfold jsonEscape
  split_ifs with h1 h2 h3 h4 h5 h6 h7 h8
  · exact readString_escape (by decide) (by rw [h1]; rfl) h
  · exact readString_escape (by decide) (by rw [h2]; rfl) h
  · exact readString_escape (by decide) (by rw [← hc, h3]; rfl) h
  · exact readString_escape (by decide) (by rw [← hc, h4]; rfl) h
  · exact readString_escape (by decide) (by rw [← hc, h5]; rfl) h
  · exact readString_escape (by decide) (by rw [← hc, h6]; rfl) h
  · exact readString_escape (by decide) (by rw [← hc, h7]; rfl) h
  · -- the two last digits of a control character
    have hx := (hexDigit_spec (c.toNat / 16) (by omega)).1
    have hy := (hexDigit_spec (c.toNat % 16) (by omega)).1
    have hsum : 16 * (c.toNat / 16) + c.toNat % 16 = c.toNat := by omega
    simp [readString, hx, hy, h, hsum, hc]
  · simp [readString, h2, h]

/-- **A JSON string is read back**, whatever follows. -/
theorem readString_jsonString (s : String) (rest : List Char) :
    readString (s.toList.flatMap jsonEscape ++ '"' :: rest) = some (s.toList, rest) := by
  induction s.toList with
  | nil => simp [readString]
  | cons c l ih =>
    rw [List.flatMap_cons, List.append_assoc]
    exact readString_jsonEscape c ih

/-- **One reading.** -/
theorem jsonString_append_inj {s t : String} {l m : List Char}
    (h : (jsonString s).toList ++ l = (jsonString t).toList ++ m) : s = t ∧ l = m := by
  simp only [jsonString, String.toList_ofList, List.cons_append, List.append_assoc,
    List.cons.injEq, true_and, List.nil_append] at h
  have hs := readString_jsonString s l
  rw [h, readString_jsonString] at hs
  obtain ⟨hst, hlm⟩ := Prod.mk.inj (Option.some.inj hs)
  exact ⟨(String.toList_inj.mp hst).symm, hlm.symm⟩

/-! ## The text of a request -/

/-- The text that `request_hash` hashes. -/
def requestText (body : V1SubmitEventRequest) : String :=
  "\x7b" ++ jsonString "chain_id" ++ ":" ++ jsonString body.chainId.toString ++ "," ++
    jsonString "event_type" ++ ":" ++ jsonString body.eventType ++ "," ++
    jsonString "file_hash" ++ ":" ++ jsonString body.fileHash ++ "\x7d"

/-- **The text determines the three fields.** -/
theorem requestText_inj {b b' : V1SubmitEventRequest} (h : requestText b = requestText b') :
    b.chainId = b'.chainId ∧ b.eventType = b'.eventType ∧ b.fileHash = b'.fileHash := by
  have h := congrArg String.toList h
  simp only [requestText, String.toList_append, List.append_assoc] at h
  have h := List.append_cancel_left (List.append_cancel_left (List.append_cancel_left h))
  obtain ⟨hc, h⟩ := jsonString_append_inj h
  have h := List.append_cancel_left (List.append_cancel_left (List.append_cancel_left h))
  obtain ⟨ht, h⟩ := jsonString_append_inj h
  have h := List.append_cancel_left (List.append_cancel_left (List.append_cancel_left h))
  exact ⟨Uuid.toString_inj hc, ht, (jsonString_append_inj h).1⟩

variable {state : AppState}

theorem requestHash_eq (body : V1SubmitEventRequest) :
    requestHash state body = sha256Hex state.sha (asBytes (requestText body)) := rfl

/-- **So does the hash**, unless the texts collide. -/
theorem requestHash_inj (b b' : V1SubmitEventRequest)
    (hsha : ¬ Collision state.sha [asBytes (requestText b), asBytes (requestText b')])
    (h : requestHash state b = requestHash state b') :
    b.chainId = b'.chainId ∧ b.eventType = b'.eventType ∧ b.fileHash = b'.fileHash := by
  have hdigest : state.sha (asBytes (requestText b)) = state.sha (asBytes (requestText b')) :=
    Subtype.ext (hexEncode_inj h)
  exact requestText_inj (asBytes_inj (injOn_of_not_collision hsha (by simp) (by simp) hdigest))

/-! ## Normalisation -/

/-- The body with its `file_hash` normalised. -/
def V1SubmitEventRequest.normalized (body : V1SubmitEventRequest) : V1SubmitEventRequest :=
  { body with fileHash := normalizedFileHash body.fileHash }

/-- The body that `submit_v1_event` hands to `request_hash`. -/
def V1SubmitEventRequest.hashed (body : V1SubmitEventRequest) : V1SubmitEventRequest :=
  { body with fileHash := normalizedFileHash body.fileHash, identitySignature := none }

/-- A `file_hash` is valid if what is left after trimming is 64 hexadecimal digits. -/
theorem isValidFileHash_iff {fileHash : String} : isValidFileHash fileHash = true ↔
    (trim fileHash).toList.length = 64 ∧ ∀ c ∈ (trim fileHash).toList, (hexVal c).isSome := by
  simp only [isValidFileHash, Bool.and_eq_true, beq_iff_eq, List.all_eq_true]
  refine and_congr_left fun hhex => ?_
  have hascii : ∀ c ∈ (trim fileHash).toList, c.toNat < 128 := fun c hc => by
    have hsome := hhex c hc
    unfold hexVal at hsome
    split_ifs at hsome <;> first | omega | exact absurd hsome (by simp)
  have hbytes := asBytes_ascii hascii
  rw [String.ofList_toList] at hbytes
  rw [hbytes, List.length_map]

/-- Equal after normalisation, equally valid. -/
theorem isValidFileHash_of_normalized {a b : String}
    (h : normalizedFileHash a = normalizedFileHash b) (ha : isValidFileHash a = true) :
    isValidFileHash b = true := by
  obtain ⟨hlen, hhex⟩ := isValidFileHash_iff.mp ha
  have hmap : (trim a).toList.map Char.toLower = (trim b).toList.map Char.toLower := by
    have := congrArg String.toList h
    simpa [normalizedFileHash, lower] using this
  refine isValidFileHash_iff.mpr ⟨?_, fun c hc => ?_⟩
  · have := congrArg List.length hmap
    simpa [hlen] using this.symm
  · have hc' : c.toLower ∈ (trim a).toList.map Char.toLower := by
      rw [hmap]
      exact List.mem_map_of_mem hc
    obtain ⟨d, hd, hdc⟩ := List.mem_map.mp hc'
    have hd := hhex d hd
    rwa [← hexVal_toLower, hdc, hexVal_toLower] at hd

theorem validateSubmitRequest_of_normalized {b b' : V1SubmitEventRequest}
    (h : b.normalized = b'.normalized) (hb : validateSubmitRequest b = true) :
    validateSubmitRequest b' = true := by
  obtain ⟨c, f, t, e, i⟩ := b
  obtain ⟨c', f', t', e', i'⟩ := b'
  simp only [V1SubmitEventRequest.normalized, V1SubmitEventRequest.mk.injEq] at h
  obtain ⟨rfl, hf, rfl, rfl, rfl⟩ := h
  simp only [validateSubmitRequest, Bool.and_eq_true] at hb ⊢
  exact ⟨⟨hb.1.1, isValidFileHash_of_normalized hf hb.1.2⟩, hb.2⟩

end EvidentLedger.Ledger
