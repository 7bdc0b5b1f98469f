import EvidentLedger.Binding

/-!
# Server signatures

Model of `src/signing.rs`: `ServerSigner::sign_root` (`:95-99`), `verify_root` (`:113-141`),
`classify_signature` (`:171-193`) and the key normalisation they share.

The signed message is `chain_id:merkle_root:chain_head` over whatever texts the caller passes.
Ed25519 is a parameter (`Ed25519`); `verify` stands for `VerifyingKey::from_bytes` followed by
`Verifier::verify`, and is false where either fails. A signature that verifies under its own key is
`Ed25519.Correct`. Unforgeability is said of one signature text, the one an adversary supplies:
`Unforged` holds of it when every message it verifies for was signed. (Said of all texts at once it
would contradict `Correct`, as every message has a signature.)

* `signMessage_inj`: a message whose three parts have no `:` has one reading, also against parts an
  adversary chose.
* `verifyRoot_signRoot`: what the server signs verifies under its public key.
* `Unforged.exists_signed`: what an unforged signature verifies for is a list that was signed
  (`SignedList`), and rows that check to its root are that list (`SignedList.content_eq`).
* `classifySignature_valid`: `Valid` is exactly: the two keys are equal after normalisation and the
  signature verifies under the pinned one.
* `verifyRoot_normalize`: verifying under a key or under its normalised text is the same.
-/

namespace EvidentLedger

open Lib.Text

/-- An Ed25519 implementation, over seeds, public keys and signatures as byte arrays. -/
structure Ed25519 where
  verifyingKey : Bytes 32 → Bytes 32
  sign : Bytes 32 → List UInt8 → Bytes 64
  verify : Bytes 32 → List UInt8 → Bytes 64 → Bool

/-- Every signature verifies under the key of its seed. -/
def Ed25519.Correct (ed : Ed25519) : Prop :=
  ∀ seed message, ed.verify (ed.verifyingKey seed) message (ed.sign seed message) = true

/-- `ServerSigner`: the seed; the verifying key is derived from it. -/
structure ServerSigner where
  signingKey : Bytes 32

variable (ed : Ed25519)

/-- `format!("{}:{}:{}", chain_id, merkle_root, chain_head)`. -/
def signMessage (chainId merkleRoot chainHead : String) : String :=
  chainId ++ ":" ++ merkleRoot ++ ":" ++ chainHead

/-- `ServerSigner::sign_root`. -/
def ServerSigner.signRoot (signer : ServerSigner) (chainId merkleRoot chainHead : String) : String :=
  hexEncode (ed.sign signer.signingKey (asBytes (signMessage chainId merkleRoot chainHead))).1

/-- `ServerSigner::public_key_hex`. -/
def ServerSigner.publicKeyHex (signer : ServerSigner) : String :=
  hexEncode (ed.verifyingKey signer.signingKey).1

/-- `hex::decode` into an array of `n` bytes. -/
def decodeArray (n : Nat) (s : String) : Option (Bytes n) :=
  match hexDecode s with
  | some b => if h : b.length = n then some ⟨b, h⟩ else none
  | none => none

/-- `verify_root`. -/
def verifyRoot (chainId merkleRoot chainHead signatureHex publicKeyHex : String) : Bool :=
  match decodeArray 64 signatureHex, decodeArray 32 publicKeyHex with
  | some signature, some key =>
    ed.verify key (asBytes (signMessage chainId merkleRoot chainHead)) signature
  | _, _ => false

/-- `SignatureCheckResult`. -/
inductive SignatureCheckResult where
  | valid
  | untrustedSignerIdentity (pinnedKey proofKey : String)
  | signatureInvalid (serverIdentity : String)
  deriving Repr, DecidableEq

/-- `normalize_public_key_hex`. -/
def normalizePublicKeyHex (key : String) : String := lower (trim key)

/-- `classify_signature`. -/
def classifySignature (proofPublicKey pinnedKey chainId root chainHead signature : String) :
    SignatureCheckResult :=
  let proofKey := normalizePublicKeyHex proofPublicKey
  let pinned := normalizePublicKeyHex pinnedKey
  if proofKey ≠ pinned then .untrustedSignerIdentity pinned proofKey
  else if verifyRoot ed chainId root chainHead signature pinned then .valid
  else .signatureInvalid pinned

/-- The signature text verifies under `publicKeyHex` for signed messages only. -/
def Unforged (publicKeyHex : String) (signed : Set String) (signatureHex : String) : Prop :=
  ∀ chainId merkleRoot chainHead,
    verifyRoot ed chainId merkleRoot chainHead signatureHex publicKeyHex = true →
      signMessage chainId merkleRoot chainHead ∈ signed

variable {ed}

theorem toList_signMessage (c r h : String) :
    (signMessage c r h).toList = c.toList ++ ':' :: (r.toList ++ ':' :: h.toList) := by
  simp [signMessage, String.toList_append]

/-- **Message framing.** -/
theorem signMessage_inj {c r h c' r' h' : String} (hc : ':' ∉ c.toList) (hr : ':' ∉ r.toList)
    (hh : ':' ∉ h.toList) (he : signMessage c' r' h' = signMessage c r h) :
    c' = c ∧ r' = r ∧ h' = h := by
  have hl := congrArg String.toList he
  rw [toList_signMessage, toList_signMessage] at hl
  obtain ⟨h1, h2, h3⟩ := joined_inj hc hr hh hl
  exact ⟨String.toList_inj.mp h1, String.toList_inj.mp h2, String.toList_inj.mp h3⟩

theorem decodeArray_hexEncode {n : Nat} (b : Bytes n) : decodeArray n (hexEncode b.1) = some b := by
  simp only [decodeArray, hexDecode_hexEncode, b.2, dite_true]

theorem decodeArray_lower (n : Nat) (s : String) : decodeArray n (lower s) = decodeArray n s := by
  rw [decodeArray, hexDecode_lower, decodeArray]

/-- **What the server signs verifies under its public key.** -/
theorem verifyRoot_signRoot (hed : ed.Correct) (signer : ServerSigner) (c r h : String) :
    verifyRoot ed c r h (signer.signRoot ed c r h) (signer.publicKeyHex ed) = true := by
  rw [verifyRoot, ServerSigner.signRoot, ServerSigner.publicKeyHex, decodeArray_hexEncode,
    decodeArray_hexEncode]
  exact hed _ _

theorem signRoot_ne_empty (signer : ServerSigner) (c r h : String) :
    signer.signRoot ed c r h ≠ "" := by
  intro he
  have hlen := length_asBytes_hexEncode (ed.sign signer.signingKey (asBytes (signMessage c r h))).1
  rw [(ed.sign _ _).2, ← ServerSigner.signRoot, he] at hlen
  exact absurd hlen (by decide)

/-- A key text that decodes is its own trimming, and case does not matter. -/
theorem decodeArray_normalize {n : Nat} {key : String} {b : Bytes n}
    (h : decodeArray n key = some b) : decodeArray n (normalizePublicKeyHex key) = some b := by
  have htrim : trim key = key := by
    unfold decodeArray at h
    cases hd : hexDecode key with
    | none => rw [hd] at h; exact absurd h (by simp)
    | some bs => exact trim_of_hexDecode hd
  rw [normalizePublicKeyHex, htrim, decodeArray_lower, h]

theorem verifyRoot_normalize {c r h sig key : String} (hv : verifyRoot ed c r h sig key = true) :
    verifyRoot ed c r h sig (normalizePublicKeyHex key) = true := by
  unfold verifyRoot at hv ⊢
  cases hs : decodeArray 64 sig with
  | none => rw [hs] at hv; exact absurd hv (by simp)
  | some s =>
    cases hk : decodeArray 32 key with
    | none => rw [hs, hk] at hv; exact absurd hv (by simp)
    | some k => rw [hs, hk] at hv; rw [decodeArray_normalize hk]; exact hv

theorem classifySignature_valid {proofKey pinned c r h sig : String} :
    classifySignature ed proofKey pinned c r h sig = .valid ↔
      normalizePublicKeyHex proofKey = normalizePublicKeyHex pinned ∧
        verifyRoot ed c r h sig (normalizePublicKeyHex pinned) = true := by
  unfold classifySignature
  by_cases hk : normalizePublicKeyHex proofKey = normalizePublicKeyHex pinned
  · by_cases hv : verifyRoot ed c r h sig (normalizePublicKeyHex pinned) = true
    · simp [hk, hv]
    · simp [hk, hv]
  · simp [hk]

/-- The public key text of the server is already normalised. -/
theorem normalize_publicKeyHex (signer : ServerSigner) :
    normalizePublicKeyHex (signer.publicKeyHex ed) = signer.publicKeyHex ed := by
  unfold normalizePublicKeyHex ServerSigner.publicKeyHex
  rw [trim_of_hexDecode (hexDecode_hexEncode _), lower_hexEncode]

/-! ## Signed lists -/

/-- A structurally valid, non-empty list of events with its chain: what one signature is for. -/
structure SignedList (sha : Sha256) where
  chainId : Uuid
  events : List EventRow
  nonempty : events ≠ []
  checked : checkEventStructure sha events = .ok (recomputeRootFromEvents sha events)

namespace SignedList

variable {sha : Sha256}

def root (t : SignedList sha) : String := recomputeRootFromEvents sha t.events

/-- The event id of the last event. -/
def head (t : SignedList sha) : Uuid := lastEventId t.events.getLast?

/-- The message `sign_root` signs. -/
def message (t : SignedList sha) : String :=
  signMessage t.chainId.toString t.root t.head.toString

theorem linked (t : SignedList sha) : Linked none t.events := linked_of_checkEventStructure t.checked

theorem colon_not_mem_root (t : SignedList sha) : ':' ∉ t.root.toList := by
  obtain ⟨x, hx⟩ := recompute_eq_digest sha t.nonempty
  rw [root, hx]
  exact colon_not_mem_hexEncode _

/-- A message of the set is read in one way only. -/
theorem message_eq {t : SignedList sha} {c r h : String} (he : signMessage c r h = t.message) :
    c = t.chainId.toString ∧ r = t.root ∧ h = t.head.toString :=
  signMessage_inj (Uuid.colon_not_mem_toString _) t.colon_not_mem_root
    (Uuid.colon_not_mem_toString _) he

theorem root_ne_empty (t : SignedList sha) : t.root ≠ "empty" := by
  obtain ⟨x, hx⟩ := recompute_eq_digest sha t.nonempty
  have hlen : (asBytes (sha256Hex sha x)).length = 64 := length_asBytes_sha256Hex x
  intro h
  rw [root, hx] at h
  rw [h] at hlen
  exact absurd hlen (by decide)

/-- **Rows that check to the root of a signed list are that list.** -/
theorem content_eq {H : Set (List UInt8)} (hH : Set.InjOn sha H) {t : SignedList sha}
    (ht : ∀ b ∈ recomputeInputs sha t.events, b ∈ H) {rows : List EventRow}
    (hrows : ∀ b ∈ recomputeInputs sha rows, b ∈ H)
    (hok : checkEventStructure sha rows = .ok t.root) :
    rows.map EventRow.content = t.events.map EventRow.content := by
  by_cases hne : rows = []
  · subst hne
    exact absurd (Except.ok.inj hok).symm t.root_ne_empty
  · obtain ⟨hl, hroot⟩ := (checkEventStructure_ok hne).mp hok
    exact root_binding hH hne t.nonempty hl t.linked hrows ht hroot

end SignedList

/-- **What an unforged signature verifies for is a signed list.** -/
theorem Unforged.exists_signed {sha : Sha256} {S : Set (SignedList sha)} {c r h key sig : String}
    (hu : Unforged ed key (SignedList.message '' S) sig) (hv : verifyRoot ed c r h sig key = true) :
    ∃ t ∈ S, c = t.chainId.toString ∧ r = t.root ∧ h = t.head.toString := by
  obtain ⟨t, ht, he⟩ := hu c r h hv
  exact ⟨t, ht, SignedList.message_eq he.symm⟩

/-- The signature `sampleEd` gives: the key, and the position of the message in a list. -/
def sampleSignature (messages : List String) (key : Bytes 32) (m : List UInt8) : Bytes 64 :=
  ⟨key.1 ++ (List.replicate 24 0 ++ beBytes (messages.findIdx (asBytes · == m))), by
    rw [List.length_append, key.2]
    rfl⟩

/-- A stand-in for Ed25519 in examples: the messages outside the list share one signature. -/
def sampleEd (messages : List String) : Ed25519 where
  verifyingKey := id
  sign := sampleSignature messages
  verify key m s := s == sampleSignature messages key m

theorem sampleEd_correct (messages : List String) : (sampleEd messages).Correct :=
  fun _ _ => beq_self_eq_true _

/-- The signature of a listed message verifies for listed messages only. -/
theorem sampleEd_unforged {messages : List String} (hlen : messages.length < 2 ^ 64)
    {m : String} (hm : m ∈ messages) (key : String) (seed : Bytes 32) :
    Unforged (sampleEd messages) key {x | x ∈ messages}
      (hexEncode ((sampleEd messages).sign seed (asBytes m)).1) := by
  intro c r h hv
  unfold verifyRoot at hv
  rw [decodeArray_hexEncode] at hv
  cases hk : decodeArray 32 key with
  | none => rw [hk] at hv; exact absurd hv (by simp)
  | some k =>
    rw [hk] at hv
    have hs : sampleSignature messages seed (asBytes m) =
        sampleSignature messages k (asBytes (signMessage c r h)) := beq_iff_eq.mp hv
    obtain ⟨-, htail⟩ := List.append_inj (congrArg Subtype.val hs) (by rw [seed.2, k.2])
    have hidx : messages.findIdx (asBytes · == asBytes m) < messages.length :=
      List.findIdx_lt_length_of_exists ⟨m, hm, beq_self_eq_true _⟩
    have hle : messages.findIdx (asBytes · == asBytes (signMessage c r h)) ≤ messages.length :=
      List.findIdx_le_length
    have heq := beBytes_inj (by omega) (by omega) (List.append_cancel_left htail)
    have hlt : messages.findIdx (asBytes · == asBytes (signMessage c r h)) < messages.length := by
      omega
    obtain ⟨x, hx, hxe⟩ := List.findIdx_lt_length.mp hlt
    rw [← asBytes_inj (beq_iff_eq.mp hxe)]
    exact hx

end EvidentLedger
