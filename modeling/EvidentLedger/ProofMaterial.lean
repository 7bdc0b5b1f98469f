import EvidentLedger.Signing

/-!
# Proof material

Model of the pure part of `src/api/v1/proof_material.rs:32-178` and `src/api/v1/proof_status.rs`: the
proof context of an event, its status, and the two snapshots. The commit path signs the root of the
prefix (`buildProofSnapshot`), the read path takes the signature stored with the event
(`buildProofSnapshotRead`).

* `deriveProofStatus_anchored`: `Anchored` is exactly: a root, a signature, and it verifies.
* `buildProofSnapshot_anchored`: what the commit path makes of a non-empty prefix is `Anchored`.
* `buildProofSnapshotRead_anchored`: the read path says so exactly where the stored signature of a
  non-empty prefix verifies.
-/

namespace EvidentLedger

open Lib.Text

/-- `ProofStatus`. -/
inductive ProofStatus where
  | pending
  | anchored
  | failed
  deriving Repr, DecidableEq

/-- `ProofStatus::as_str`. -/
def ProofStatus.asStr : ProofStatus → String
  | pending => "pending"
  | anchored => "anchored"
  | failed => "failed"

/-- `ProofContext`. -/
structure ProofContext where
  merkleRootPresent : Bool
  signaturePresent : Bool
  signatureValid : Bool
  failureSignal : Bool
  deriving Repr, DecidableEq

/-- `derive_proof_status`. -/
def deriveProofStatus (ctx : ProofContext) : ProofStatus :=
  if ctx.failureSignal then .failed
  else if ctx.merkleRootPresent && ctx.signaturePresent && ctx.signatureValid then .anchored
  else .pending

/-- `detect_failure_signal`. -/
def detectFailureSignal (ctx : ProofContext) : Bool :=
  (ctx.signaturePresent && !ctx.signatureValid) || (!ctx.merkleRootPresent && ctx.signaturePresent)

/-- `proof_context_from_parts`. -/
def proofContextFromParts (merkleRootPresent signaturePresent signatureValid : Bool) :
    ProofContext :=
  let partialContext : ProofContext := ⟨merkleRootPresent, signaturePresent, signatureValid, false⟩
  { partialContext with failureSignal := detectFailureSignal partialContext }

/-- `ProofSnapshot`. -/
structure ProofSnapshot where
  merkleRoot : String
  signature : String
  publicKey : String
  context : ProofContext
  deriving DecidableEq

variable (sha : Sha256) (ed : Ed25519)

/-- `build_proof_snapshot_read`. -/
def buildProofSnapshotRead (chainId targetEventId : Uuid) (prefixEvents : List EventRow)
    (persistedSignature publicKey : String) : ProofSnapshot :=
  let merkleRoot := recomputeRootFromEvents sha prefixEvents
  let merkleRootPresent := !prefixEvents.isEmpty && merkleRoot != ""
  let chainHead := targetEventId.toString
  let signaturePresent := persistedSignature != ""
  let signatureValid := signaturePresent &&
    verifyRoot ed chainId.toString merkleRoot chainHead persistedSignature publicKey
  { merkleRoot
    signature := persistedSignature
    publicKey
    context := proofContextFromParts merkleRootPresent signaturePresent signatureValid }

/-- `build_proof_snapshot`. -/
def buildProofSnapshot (signer : ServerSigner) (chainId targetEventId : Uuid)
    (prefixEvents : List EventRow) : ProofSnapshot :=
  let merkleRoot := recomputeRootFromEvents sha prefixEvents
  let merkleRootPresent := !prefixEvents.isEmpty && merkleRoot != ""
  let chainHead := targetEventId.toString
  let signature := signer.signRoot ed chainId.toString merkleRoot chainHead
  let signaturePresent := signature != ""
  let publicKey := signer.publicKeyHex ed
  let signatureValid := signaturePresent &&
    verifyRoot ed chainId.toString merkleRoot chainHead signature publicKey
  { merkleRoot
    signature
    publicKey
    context := proofContextFromParts merkleRootPresent signaturePresent signatureValid }

variable {sha ed}

theorem deriveProofStatus_anchored {root signature valid : Bool} :
    deriveProofStatus (proofContextFromParts root signature valid) = .anchored ↔
      root = true ∧ signature = true ∧ valid = true := by
  cases root <;> cases signature <;> cases valid <;>
    simp [deriveProofStatus, proofContextFromParts, detectFailureSignal]

/-- A non-empty list has a root. -/
theorem recompute_ne_empty {events : List EventRow} (hne : events ≠ []) :
    recomputeRootFromEvents sha events ≠ "" := by
  obtain ⟨x, hx⟩ := recompute_eq_digest sha hne
  rw [hx]
  exact sha256Hex_ne_empty x

/-- **The read path.** -/
theorem buildProofSnapshotRead_anchored {chainId eventId : Uuid} {events : List EventRow}
    {signature publicKey : String} :
    deriveProofStatus
        (buildProofSnapshotRead sha ed chainId eventId events signature publicKey).context =
        .anchored ↔
      events ≠ [] ∧ signature ≠ "" ∧
        verifyRoot ed chainId.toString (recomputeRootFromEvents sha events) eventId.toString
          signature publicKey = true := by
  unfold buildProofSnapshotRead
  rw [deriveProofStatus_anchored]
  constructor
  · rintro ⟨hroot, hsig, hvalid⟩
    exact ⟨by simp at hroot; exact hroot.1, by simpa using hsig, by simp at hvalid; exact hvalid.2⟩
  · rintro ⟨hne, hsig, hvalid⟩
    exact ⟨by simpa using ⟨hne, recompute_ne_empty hne⟩, by simpa using hsig,
      by simpa using ⟨hsig, hvalid⟩⟩

/-- Both paths make the same of a signature the server has stored. -/
theorem buildProofSnapshot_eq_read (signer : ServerSigner) (chainId eventId : Uuid)
    (events : List EventRow) :
    buildProofSnapshot sha ed signer chainId eventId events =
      buildProofSnapshotRead sha ed chainId eventId events
        (signer.signRoot ed chainId.toString (recomputeRootFromEvents sha events) eventId.toString)
        (signer.publicKeyHex ed) := rfl

/-- **The commit path.** -/
theorem buildProofSnapshot_anchored (hed : ed.Correct) (signer : ServerSigner)
    {chainId eventId : Uuid} {events : List EventRow} (hne : events ≠ []) :
    deriveProofStatus (buildProofSnapshot sha ed signer chainId eventId events).context =
      .anchored := by
  rw [buildProofSnapshot_eq_read, buildProofSnapshotRead_anchored]
  exact ⟨hne, signRoot_ne_empty signer _ _ _, verifyRoot_signRoot hed signer _ _ _⟩

end EvidentLedger
