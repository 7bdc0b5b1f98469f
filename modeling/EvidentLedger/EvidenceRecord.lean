import EvidentLedger.Verifier

/-!
# Evidence records

Model of the second offline verifier, `src/evidence_record.rs:139-365`, and of the command over it
(`verify_event_evidence`, `src/event_evidence_verify.rs:194-235`).

`verifyEvidenceIntegrity` checks a proof file against a record and collects the texts of what fails.
Its signature check is `verify_root` under the key the file itself carries; `evident-verify` uses
`classify_signature` under the pinned key (`signing.rs:143-146`: the embedded key is never a trust
source). It looks at neither `head_event_id`, `leaves_count` nor the two version fields.

* `isValid_iff`: a result is valid exactly on a self-consistent file (`SelfConsistent`).
* `accepted_iff_trusted`: a self-consistent file is accepted under a pinned key exactly when it is
  `Trusted` there.
* `refreshLifecycle_certified`: a record reaches `CERTIFIED` on a valid result with a confirmed
  timestamp, and in no other way.
* `integrity_agrees_iff`: the two verifiers agree on a file exactly when it is trusted or not
  self-consistent; `integrity_disagrees` is a file signed by somebody else.

Only the fields of the record that these functions read are kept.
-/

namespace EvidentLedger

open Lib.Text

/-- `LifecycleStatus`. -/
inductive LifecycleStatus where
  | created
  | registered
  | tsaConfirmed
  | certified
  | revoked
  deriving Repr, DecidableEq

/-- `TsaStatus`. -/
inductive TsaStatus where
  | pending
  | confirmed
  | failed
  | absent
  deriving Repr, DecidableEq

/-- `EvidenceRecord`. -/
structure EvidenceRecord where
  evidenceId : String
  sha256 : String
  chainId : String
  eventId : String
  lifecycleStatus : LifecycleStatus
  tsaStatus : TsaStatus
  deriving DecidableEq

/-- `EvidenceIntegrityResult`. -/
structure EvidenceIntegrityResult where
  eventFound : Bool
  parentChainValid : Bool
  merkleRootValid : Bool
  signatureValid : Bool
  recomputedRoot : Option String
  errors : List String
  deriving DecidableEq

/-- `EvidenceIntegrityResult::is_valid`. -/
def EvidenceIntegrityResult.isValid (r : EvidenceIntegrityResult) : Bool :=
  r.eventFound && r.parentChainValid && r.merkleRootValid && r.signatureValid && r.errors.isEmpty

/-- `classify_tsa_status`. -/
def classifyTsaStatus : Option TsaData → TsaStatus
  | some t => if t.tokenBytes.getD 0 > 0 ∨ t.timestamp.isSome then .confirmed else .pending
  | none => .absent

/-! ## The checks -/

variable (sha : Sha256) (ed : Ed25519)

/-- The event of the record among the leaves, and its hash. -/
def eventErrors (record : EvidenceRecord) (proof : ProofFile) : List String :=
  match proof.events.find? (·.eventId == record.eventId) with
  | some leaf =>
    if lower leaf.fileHash = lower record.sha256 then []
    else ["event file_hash does not match evidence sha256"]
  | none => ["event_id not present in proof events"]

def chainErrors (record : EvidenceRecord) (proof : ProofFile) : List String :=
  if proof.chainId ≠ record.chainId then ["proof chain_id does not match evidence chain_id"] else []

/-- The leaves that parse. -/
def parsedRows (now : Int) (proof : ProofFile) : List EventRow :=
  proof.events.filterMap (EventLeaf.toRow now)

def uuidErrors (now : Int) (proof : ProofFile) : List String :=
  if (parsedRows now proof).length ≠ proof.events.length then
    ["proof events contain invalid UUIDs"]
  else []

def structureErrors : Except StructuralFailure String → List String
  | .ok _ => []
  | .error (.parentChain index) => ["parent chain broken at index " ++ toString index]
  | .error (.sequence index) => ["sequence broken at index " ++ toString index]
  | .error .emptyMerkle => ["empty merkle root"]

def rootErrors (proof : ProofFile) : Except StructuralFailure String → List String
  | .ok root =>
    if root = proof.proof.root then []
    else ["recomputed merkle root does not match proof.root"]
  | .error _ => []

/-- The signature under the key of the file. -/
def embeddedSignatureValid (proof : ProofFile) : Bool :=
  verifyRoot ed proof.chainId proof.proof.root proof.proof.chainHead proof.proof.signature
    proof.proof.publicKey

/-- `verify_evidence_integrity`. -/
def verifyEvidenceIntegrity (now : Int) (record : EvidenceRecord) (proof : ProofFile) :
    EvidenceIntegrityResult :=
  let checked := checkEventStructure sha (parsedRows now proof)
  let signatureValid := embeddedSignatureValid ed proof
  { eventFound := (proof.events.find? (·.eventId == record.eventId)).isSome
    parentChainValid := checked.toOption.isSome
    merkleRootValid := checked.toOption == some proof.proof.root
    signatureValid := signatureValid
    recomputedRoot := checked.toOption
    errors := eventErrors record proof ++ chainErrors record proof ++ uuidErrors now proof ++
      structureErrors checked ++ rootErrors proof checked ++
      (if signatureValid then [] else ["Ed25519 signature verification failed"]) }

/-! ## Lifecycle -/

/-- `derive_lifecycle`. -/
def deriveLifecycle (integrity : EvidenceIntegrityResult) (tsaStatus : TsaStatus) :
    LifecycleStatus :=
  if !integrity.eventFound || !integrity.parentChainValid || !integrity.merkleRootValid then
    .registered
  else if !integrity.signatureValid then .registered
  else
    match tsaStatus with
    | .confirmed => if integrity.isValid then .certified else .tsaConfirmed
    | .pending | .absent | .failed => .registered

/-- `lifecycle_rank`. -/
def lifecycleRank : LifecycleStatus → Nat
  | .created => 0
  | .registered => 1
  | .tsaConfirmed => 2
  | .certified => 3
  | .revoked => 255

/-- `advance_lifecycle`. -/
def advanceLifecycle (current derived : LifecycleStatus) : LifecycleStatus :=
  if current = .revoked then .revoked
  else if lifecycleRank derived ≥ lifecycleRank current then derived
  else current

/-- `refresh_lifecycle`. -/
def refreshLifecycle (now : Int) (record : EvidenceRecord) (proof : ProofFile) : EvidenceRecord :=
  let integrity := verifyEvidenceIntegrity sha ed now record proof
  let tsaStatus := classifyTsaStatus proof.tsa
  { record with
    tsaStatus := tsaStatus
    lifecycleStatus := advanceLifecycle record.lifecycleStatus
      (deriveLifecycle integrity tsaStatus) }

/-- `EventEvidenceReport`. -/
structure EventEvidenceReport where
  integrity : EvidenceIntegrityResult
  lifecycle : LifecycleStatus
  tsaStatus : TsaStatus
  registeredRoot : String
  recomputedRoot : Option String
  deriving DecidableEq

/-- `verify_event_evidence` once both files are loaded: the report, and on success the record that
is written back. -/
def verifyEventEvidence (now : Int) (record : EvidenceRecord) (proof : ProofFile) :
    Except EventEvidenceReport (EventEvidenceReport × EvidenceRecord) :=
  let integrity := verifyEvidenceIntegrity sha ed now record proof
  let report := fun r : EvidenceRecord =>
    ({ integrity := integrity
       lifecycle := r.lifecycleStatus
       tsaStatus := r.tsaStatus
       registeredRoot := proof.proof.root
       recomputedRoot := integrity.recomputedRoot } : EventEvidenceReport)
  if integrity.isValid then
    let record := refreshLifecycle sha ed now record proof
    .ok (report record, record)
  else .error (report record)

/-! ## Self-consistent and trusted files -/

/-- The record's event is in the file with its hash, the file is of its chain, its events check to
its root, and its signature verifies under the key beside it. -/
structure SelfConsistent (record : EvidenceRecord) (proof : ProofFile) : Prop where
  event : ∃ leaf, proof.events.find? (·.eventId == record.eventId) = some leaf ∧
    lower leaf.fileHash = lower record.sha256
  chain : proof.chainId = record.chainId
  structure_ok : ∃ rows, eventsToRows 0 proof.events = some rows ∧
    checkEventStructure sha rows = .ok proof.proof.root
  signature : embeddedSignatureValid ed proof = true

/-- The file names the pinned key, its own head and count, and the supported versions. -/
structure Trusted (pinned : String) (proof : ProofFile) : Prop where
  key : normalizePublicKeyHex proof.proof.publicKey = normalizePublicKeyHex pinned
  head : proof.headEventId = proof.proof.chainHead
  count : proof.proof.leavesCount = proof.events.length
  version : proof.proof.version = some PROOF_VERSION
  leafVersion : proof.leafVersion = LEAF_VERSION

variable {sha ed} {now : Int} {record : EvidenceRecord} {proof : ProofFile} {pinned : String}

theorem eventErrors_nil : eventErrors record proof = [] ↔
    ∃ leaf, proof.events.find? (·.eventId == record.eventId) = some leaf ∧
      lower leaf.fileHash = lower record.sha256 := by
  unfold eventErrors
  cases proof.events.find? (·.eventId == record.eventId) with
  | none => simp
  | some leaf => simp

theorem chainErrors_nil : chainErrors record proof = [] ↔ proof.chainId = record.chainId := by
  unfold chainErrors
  split_ifs with h
  · simp [h]
  · simp [Decidable.not_not.mp h]

theorem filterMap_of_eventsToRows : ∀ {events : List EventLeaf} {rows : List EventRow},
    eventsToRows now events = some rows → events.filterMap (EventLeaf.toRow now) = rows
  | [], _, h => by
    rw [← Option.some.inj h]
    rfl
  | event :: events, rows, h => by
    unfold eventsToRows at h
    cases hrow : event.toRow now with
    | none => rw [hrow] at h; exact absurd h (by simp)
    | some row =>
      rw [hrow] at h
      obtain ⟨tail, htail, rfl⟩ := Option.map_eq_some_iff.mp h
      rw [List.filterMap_cons_some hrow, filterMap_of_eventsToRows htail]

theorem uuidErrors_nil : uuidErrors now proof = [] ↔
    eventsToRows now proof.events = some (parsedRows now proof) := by
  have hlen : (parsedRows now proof).length = proof.events.length ↔
      (eventsToRows now proof.events).isSome = true := by
    rw [eventsToRows_isSome, parsedRows, List.filterMap_length_eq_length]
  unfold uuidErrors
  constructor
  · intro h
    split_ifs at h with hne
    obtain ⟨rows, hrows⟩ := Option.isSome_iff_exists.mp (hlen.mp (Decidable.not_not.mp hne))
    rw [hrows, parsedRows, filterMap_of_eventsToRows hrows]
  · intro h
    rw [if_neg (Decidable.not_not.mpr (hlen.mpr (by rw [h]; rfl)))]

theorem structure_valid {checked : Except StructuralFailure String} :
    (checked.toOption.isSome = true ∧ (checked.toOption == some proof.proof.root) = true ∧
      structureErrors checked = [] ∧ rootErrors proof checked = []) ↔
        checked = .ok proof.proof.root := by
  cases checked with
  | error e => simp [Except.toOption]
  | ok root =>
    by_cases h : root = proof.proof.root
    · simp [Except.toOption, structureErrors, rootErrors, h]
    · simp [Except.toOption, h]

/-- **A valid result is a self-consistent file.** -/
theorem isValid_iff : (verifyEvidenceIntegrity sha ed now record proof).isValid = true ↔
    SelfConsistent sha ed record proof := by
  have hfound : ∀ {leaf : EventLeaf}, proof.events.find? (·.eventId == record.eventId) = some leaf →
      (proof.events.find? (·.eventId == record.eventId)).isSome = true := fun h => by rw [h]; rfl
  unfold EvidenceIntegrityResult.isValid verifyEvidenceIntegrity
  simp only [Bool.and_eq_true, List.isEmpty_iff, List.append_eq_nil_iff]
  constructor
  · rintro ⟨⟨⟨⟨-, hpc⟩, hmr⟩, hsig⟩, ⟨⟨⟨⟨hev, hch⟩, huu⟩, hst⟩, hro⟩, -⟩
    have hrows := uuidErrors_nil.mp huu
    refine ⟨eventErrors_nil.mp hev, chainErrors_nil.mp hch, ?_, hsig⟩
    exact Verifier.checkEventStructure_now.mp
      ⟨_, hrows, structure_valid.mp ⟨hpc, hmr, hst, hro⟩⟩
  · intro hs
    obtain ⟨leaf, hleaf, -⟩ := hs.event
    obtain ⟨rows, hrows, hok⟩ := Verifier.checkEventStructure_now.mpr hs.structure_ok
    have hparsed : parsedRows now proof = rows := filterMap_of_eventsToRows hrows
    rw [← hparsed] at hrows hok
    obtain ⟨hpc, hmr, hst, hro⟩ := structure_valid.mpr hok
    refine ⟨⟨⟨⟨hfound hleaf, hpc⟩, hmr⟩, hs.signature⟩, ⟨⟨⟨⟨eventErrors_nil.mpr hs.event,
      chainErrors_nil.mpr hs.chain⟩, uuidErrors_nil.mpr hrows⟩, hst⟩, hro⟩, ?_⟩
    rw [if_pos hs.signature]

/-- **A self-consistent file is accepted exactly when it is trusted.** -/
theorem accepted_iff_trusted (hs : SelfConsistent sha ed record proof) :
    Verifier.Accepted sha ed pinned proof.forVerifier ↔ Trusted pinned proof := by
  constructor
  · intro ha
    obtain ⟨hkey, -⟩ := classifySignature_valid.mp ha.signature
    exact ⟨hkey, ha.head, ha.count.symm, ha.version, Option.some.inj ha.leafVersion⟩
  · intro ht
    refine ⟨ht.version, congrArg some ht.leafVersion, ?_, ht.count.symm, ht.head, hs.structure_ok⟩
    refine classifySignature_valid.mpr ⟨ht.key, ?_⟩
    rw [← ht.key]
    exact verifyRoot_normalize hs.signature

theorem deriveLifecycle_certified {integrity : EvidenceIntegrityResult} {tsaStatus : TsaStatus} :
    deriveLifecycle integrity tsaStatus = .certified ↔
      integrity.isValid = true ∧ tsaStatus = .confirmed := by
  unfold deriveLifecycle
  by_cases hv : integrity.isValid = true
  · have h := hv
    simp only [EvidenceIntegrityResult.isValid, Bool.and_eq_true] at h
    obtain ⟨⟨⟨⟨h1, h2⟩, h3⟩, h4⟩, -⟩ := h
    cases tsaStatus <;> simp [h1, h2, h3, h4, hv]
  · split_ifs
    · simp [hv]
    · simp [hv]
    · cases tsaStatus <;> simp [hv]

theorem advanceLifecycle_certified {current derived : LifecycleStatus}
    (hc : current ≠ .certified) (h : advanceLifecycle current derived = .certified) :
    derived = .certified := by
  unfold advanceLifecycle at h
  split_ifs at h
  · exact h
  · exact absurd h hc

/-- **A record moves to `CERTIFIED` on a valid result with a confirmed timestamp only.** -/
theorem refreshLifecycle_certified (hc : record.lifecycleStatus ≠ .certified)
    (h : (refreshLifecycle sha ed now record proof).lifecycleStatus = .certified) :
    (verifyEvidenceIntegrity sha ed now record proof).isValid = true ∧
      classifyTsaStatus proof.tsa = .confirmed :=
  deriveLifecycle_certified.mp (advanceLifecycle_certified hc h)

/-- The command certifies nothing that the integrity check does not find valid. -/
theorem verifyEventEvidence_ok {out : EventEvidenceReport × EvidenceRecord}
    (h : verifyEventEvidence sha ed now record proof = .ok out) :
    SelfConsistent sha ed record proof ∧ out.2 = refreshLifecycle sha ed now record proof := by
  by_cases hv : (verifyEvidenceIntegrity sha ed now record proof).isValid = true
  · simp only [verifyEventEvidence, if_pos hv] at h
    exact ⟨isValid_iff.mp hv, by rw [← Except.ok.inj h]⟩
  · simp only [verifyEventEvidence, if_neg hv] at h
    exact absurd h (by simp)

/-- **When the two offline verifiers agree.** A valid result means acceptance under the pinned key,
and a move to `CERTIFIED` a file with that key's signature, its own head and count and the supported
versions, exactly if the file is trusted or is not self-consistent with the record at all. -/
theorem integrity_agrees_iff (sha : Sha256) (ed : Ed25519) (env : Verifier.Env) (pinned : String)
    (hpin : env.pinnedKey = some pinned) (now : Int) (record : EvidenceRecord)
    (proof : ProofFile) :
    (((verifyEvidenceIntegrity sha ed now record proof).isValid = true →
        (Verifier.verifyFile sha ed env proof.forVerifier).exitCode = 0) ∧
      (record.lifecycleStatus ≠ .certified →
        (refreshLifecycle sha ed now record proof).lifecycleStatus = .certified →
        verifyRoot ed proof.chainId proof.proof.root proof.proof.chainHead proof.proof.signature
            (normalizePublicKeyHex pinned) = true ∧
          proof.headEventId = proof.proof.chainHead ∧
          proof.proof.leavesCount = proof.events.length ∧
          proof.proof.version = some PROOF_VERSION ∧ proof.leafVersion = LEAF_VERSION)) ↔
      (¬ SelfConsistent sha ed record proof ∨ Trusted pinned proof) := by
  have hexit : (Verifier.verifyFile sha ed env proof.forVerifier).exitCode = 0 ↔
      Verifier.Accepted sha ed pinned proof.forVerifier := by
    rw [Verifier.verifyFile_exitCode, hpin]
    simp
  rw [hexit, isValid_iff]
  constructor
  · rintro ⟨hvalid, -⟩
    by_cases hs : SelfConsistent sha ed record proof
    · exact Or.inr ((accepted_iff_trusted hs).mp (hvalid hs))
    · exact Or.inl hs
  · intro hcase
    have htrusted : SelfConsistent sha ed record proof → Trusted pinned proof := fun hs =>
      hcase.resolve_left (not_not_intro hs)
    refine ⟨fun hs => (accepted_iff_trusted hs).mpr (htrusted hs), fun hc h => ?_⟩
    have hs := isValid_iff.mp (refreshLifecycle_certified hc h).1
    have ht := htrusted hs
    refine ⟨?_, ht.head, ht.count, ht.version, ht.leafVersion⟩
    rw [← ht.key]
    exact verifyRoot_normalize hs.signature

/-- The record of the last event of `sampleEvents`. -/
def sampleRecord : EvidenceRecord where
  evidenceId := "ev_2"
  sha256 := "bb"
  chainId := (Uuid.small 9).toString
  eventId := (Uuid.small 2).toString
  lifecycleStatus := .registered
  tsaStatus := .absent

/-- Somebody else's key. -/
def otherSigner : ServerSigner := ⟨⟨List.replicate 32 (UInt8.ofNat 1), rfl⟩⟩

/-- The list of `sampleEvents` signed with it, with a timestamp. -/
def selfSignedFile : ProofFile :=
  Verifier.signedFile Verifier.fileEd otherSigner Verifier.sampleSigned (some ⟨some 1, none, none⟩)

theorem integrity_agrees_iff_sampleRecord :
    (((verifyEvidenceIntegrity sampleSha Verifier.fileEd 7 sampleRecord
          selfSignedFile).isValid = true →
        (Verifier.verifyFile sampleSha Verifier.fileEd
          (Verifier.sampleEnv Verifier.sampleKey Verifier.sampleFile)
          selfSignedFile.forVerifier).exitCode = 0) ∧
      (sampleRecord.lifecycleStatus ≠ .certified →
        (refreshLifecycle sampleSha Verifier.fileEd 7 sampleRecord
          selfSignedFile).lifecycleStatus = .certified →
        verifyRoot Verifier.fileEd selfSignedFile.chainId
            selfSignedFile.proof.root selfSignedFile.proof.chainHead selfSignedFile.proof.signature
            (normalizePublicKeyHex Verifier.sampleKey) = true ∧
          selfSignedFile.headEventId = selfSignedFile.proof.chainHead ∧
          selfSignedFile.proof.leavesCount = selfSignedFile.events.length ∧
          selfSignedFile.proof.version = some PROOF_VERSION ∧
          selfSignedFile.leafVersion = LEAF_VERSION)) ↔
      (¬ SelfConsistent sampleSha Verifier.fileEd sampleRecord
          selfSignedFile ∨ Trusted Verifier.sampleKey selfSignedFile) :=
  integrity_agrees_iff sampleSha Verifier.fileEd
    (Verifier.sampleEnv Verifier.sampleKey Verifier.sampleFile)
    Verifier.sampleKey (by decide +kernel) 7 sampleRecord selfSignedFile

theorem selfConsistent_selfSignedFile :
    SelfConsistent sampleSha Verifier.fileEd sampleRecord
      selfSignedFile where
  event := ⟨⟨2, (Uuid.small 2).toString, (Uuid.small 1).toString, "bb"⟩, by decide +kernel, rfl⟩
  chain := rfl
  structure_ok := by
    have ha : Verifier.Accepted sampleSha Verifier.fileEd (otherSigner.publicKeyHex Verifier.fileEd)
        (Verifier.signedFile Verifier.fileEd otherSigner Verifier.sampleSigned none).forVerifier :=
      Verifier.accepted_signedFile (sampleEd_correct _) otherSigner Verifier.sampleSigned none
    exact ha.structure_ok
  signature := verifyRoot_signRoot (sampleEd_correct _) otherSigner _ _ _

/-- **The verifiers disagree on a file its author signed**: valid, and enough for `CERTIFIED`, but
not accepted under the pinned key. -/
theorem integrity_disagrees :
    (verifyEvidenceIntegrity sampleSha Verifier.fileEd 7 sampleRecord
        selfSignedFile).isValid = true ∧
      (refreshLifecycle sampleSha Verifier.fileEd 7 sampleRecord
        selfSignedFile).lifecycleStatus = .certified ∧
      (Verifier.sampleEnv Verifier.sampleKey Verifier.sampleFile).pinnedKey =
        some Verifier.sampleKey ∧
      (Verifier.verifyFile sampleSha Verifier.fileEd
        (Verifier.sampleEnv Verifier.sampleKey Verifier.sampleFile)
        selfSignedFile.forVerifier).exitCode ≠ 0 := by
  have hvalid : (verifyEvidenceIntegrity sampleSha Verifier.fileEd 7 sampleRecord
      selfSignedFile).isValid = true := isValid_iff.mpr selfConsistent_selfSignedFile
  refine ⟨hvalid, ?_, by decide +kernel, ?_⟩
  · have hd := deriveLifecycle_certified.mpr
      ⟨hvalid, (by decide : classifyTsaStatus selfSignedFile.tsa = .confirmed)⟩
    unfold refreshLifecycle
    simp only [hd]
    rfl
  · intro h
    obtain ⟨pinned, hpin, ha⟩ := Verifier.verifyFile_exitCode.mp h
    have hk : Verifier.sampleKey = pinned :=
      Option.some.inj ((by decide +kernel : (Verifier.sampleEnv Verifier.sampleKey
        Verifier.sampleFile).pinnedKey = some Verifier.sampleKey).symm.trans hpin)
    rw [← hk] at ha
    have hkey := (classifySignature_valid.mp ha.signature).1
    exact absurd hkey (by decide +kernel)

end EvidentLedger
