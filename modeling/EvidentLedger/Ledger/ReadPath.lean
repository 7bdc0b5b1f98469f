import EvidentLedger.Ledger.Commit

/-!
# `GET /v1/proof` and `GET /v1/verify`

The two handlers as functions of the tables they read: `verify_event_access`
(`src/api/v1/event_access.rs:37-95`), `build_proof_response` (`api/v1/proof_material.rs:243-289`),
the handler of `api/v1/verify.rs:35-141` with `resolve_proof_state` (`api/v1/proof_state.rs:38-123`),
`verify_chain_prefix` (`api/v1/chain_verification.rs:26-67`), `api/v1/file_verification.rs`,
`resolve_and_cache_tsa_verification` (`tsa/read_verify.rs:48-190`) and
`IdentityVerificationService::verify` (`service/identity_verification.rs:41-104`).

* The join of `verify_event_access` finds no event whose chain is not there; a chain without an owner,
  of another account, or none at all are one answer.
* The cache columns of `tsa_tokens` are a table of their own here (`TsaCache`); `verify_token_fresh`
  asks OpenSSL, so it is a parameter.
* A `SELECT` does not fail here, and the times of the responses are numbers.
-/

namespace EvidentLedger.Ledger

open Lib.Text

/-! ## Errors -/

/-- The errors of `ApiError` that the two handlers return. -/
inductive ReadError where
  | notFound
  | invalidVerifyFileHash
  | proofNotReady
  | proofGenerationFailed
  | internal
  deriving Repr, DecidableEq

namespace ReadError

/-- `status_code`. -/
def statusCode : ReadError → Nat
  | notFound => 404
  | invalidVerifyFileHash => 400
  | proofNotReady => 409
  | proofGenerationFailed => 422
  | internal => 500

/-- `code`. -/
def code : ReadError → String
  | notFound => "not_found"
  | invalidVerifyFileHash => "invalid_request"
  | proofNotReady => "proof_not_ready"
  | proofGenerationFailed => "proof_generation_failed"
  | internal => "internal_error"

/-- `message`. -/
def message : ReadError → String
  | notFound => "Resource not found"
  | invalidVerifyFileHash => "file_hash must be a valid SHA-256 hex string (64 chars, 0-9a-f)"
  | proofNotReady => "Proof material is not yet available for this event"
  | proofGenerationFailed => "Proof generation failed for this event"
  | internal => "Internal server error"

end ReadError

/-! ## Access -/

/-- `verify_event_access`. -/
def verifyEventAccess (db : Db) (accountId eventId : Uuid) : Except ReadError EventRecord :=
  match db.events.find? fun e => e.eventId == eventId && (db.chain? e.chainId).isSome with
  | none => .error .notFound
  | some event =>
    match db.owner? event.chainId with
    | none => .error .notFound
    | some ownerId => if ownerId ≠ accountId then .error .notFound else .ok event

/-- `load_event_prefix`. -/
def loadEventPrefix (db : Db) (chainId : Uuid) (targetSequence : Int64) : List EventRow :=
  (orderBySequence ((db.eventsOf chainId).filter (·.sequence ≤ targetSequence))).map EventRecord.toRow

/-! ## Timestamp tokens -/

/-- `TsaVerificationStatus`. -/
inductive TsaVerificationStatus where
  | verified
  | verifiedCached
  | failed
  | unavailable
  deriving Repr, DecidableEq

namespace TsaVerificationStatus

/-- `as_str`. -/
def asStr : TsaVerificationStatus → String
  | verified => "verified"
  | verifiedCached => "verified_cached"
  | failed => "failed"
  | unavailable => "unavailable"

/-- `is_failure`. -/
def isFailure (status : TsaVerificationStatus) : Bool := status == failed

/-- `cache_value`. -/
def cacheValue : TsaVerificationStatus → Option String
  | verified | verifiedCached => some "verified"
  | failed => some "failed"
  | unavailable => some "unavailable"

end TsaVerificationStatus

/-- `TsaVerificationReason`. -/
inductive TsaVerificationReason where
  | trustMaterialMissing
  | trustMaterialInvalid
  | tsaNetworkUnavailable
  | verificationFailed
  deriving Repr, DecidableEq

/-- `TsaVerificationReason::as_str`. -/
def TsaVerificationReason.asStr : TsaVerificationReason → String
  | trustMaterialMissing => "trust_material_missing"
  | trustMaterialInvalid => "trust_material_invalid"
  | tsaNetworkUnavailable => "tsa_network_unavailable"
  | verificationFailed => "verification_failed"

/-- `TsaVerificationOutcome`. -/
structure TsaVerificationOutcome where
  status : TsaVerificationStatus
  reason : Option TsaVerificationReason
  deriving DecidableEq

/-- `CachedTsaVerification`. -/
structure CachedTsaVerification where
  verificationStatus : Option String
  tokenSha256 : Option String
  deriving DecidableEq

/-- The cache columns of the rows of `tsa_tokens`, by chain and root. -/
abbrev TsaCache := Uuid → String → CachedTsaVerification

/-- `cached_status_if_fresh`. -/
def cachedStatusIfFresh (cache : CachedTsaVerification) (currentTokenSha : String) :
    Option TsaVerificationStatus := do
  let status ← cache.verificationStatus
  let cachedSha ← cache.tokenSha256
  if cachedSha ≠ currentTokenSha then none
  else if status = "verified" then some .verifiedCached
  else none

/-- `persist_verification_cache`: the first outcome for these bytes stays. -/
def persistVerificationCache (cache : TsaCache) (chainId : Uuid) (merkleRoot tokenSha : String)
    (outcome : TsaVerificationStatus) : TsaCache :=
  match outcome.cacheValue with
  | none => cache
  | some statusValue => fun c root =>
    if c = chainId ∧ root = merkleRoot ∧ ((cache c root).verificationStatus = none ∨
      (cache c root).tokenSha256 ≠ some tokenSha) then ⟨some statusValue, some tokenSha⟩
    else cache c root

/-- The state of the server, and how it checks the bytes of a token against a root. -/
structure ReadState extends AppState where
  verifyTokenFresh : List UInt8 → String → TsaVerificationOutcome

variable (state : ReadState)

/-- `resolve_and_cache_tsa_verification`. -/
def resolveAndCacheTsaVerification (cache : TsaCache) (chainId : Uuid) (merkleRoot : String)
    (token : List UInt8) : TsaVerificationOutcome × TsaCache :=
  let currentSha := sha256Hex state.sha token
  match cachedStatusIfFresh (cache chainId merkleRoot) currentSha with
  | some cached => (⟨cached, none⟩, cache)
  | none =>
    let outcome := state.verifyTokenFresh token merkleRoot
    (outcome, persistVerificationCache cache chainId merkleRoot currentSha outcome.status)

/-! ## The state of a proof -/

/-- `TsaStatus`. -/
inductive TsaStatus where
  | verified
  | failed
  | notProvided
  deriving Repr, DecidableEq

/-- The JSON object `tsa` of a proof. -/
structure TsaReport where
  timestamp : Int64
  serial : String
  tokenBytes : Int64
  verificationStatus : String
  verificationReason : Option String
  deriving DecidableEq

/-- `ResolvedProofState`. -/
structure ResolvedProofState where
  status : ProofStatus
  tsa : Option TsaReport
  context : ProofContext
  resolvedRoot : String
  deriving DecidableEq

/-- `tsa_validation_failure_signal`. -/
def tsaValidationFailureSignal (tsaRowPresent : Bool) (validationStatus : TsaStatus) : Bool :=
  tsaRowPresent && validationStatus == .failed

/-- `proof_context_with_tsa`. -/
def proofContextWithTsa (base : ProofContext) (tsaRowPresent : Bool)
    (validationStatus : TsaStatus) : ProofContext :=
  { base with
    failureSignal :=
      base.failureSignal || tsaValidationFailureSignal tsaRowPresent validationStatus }

/-- The row of a token, as it is reported. -/
def tsaReport (row : TsaTokenRow) (outcome : TsaVerificationOutcome) : TsaReport where
  timestamp := row.tsaTimestamp
  serial := row.tsaSerial
  tokenBytes := Int64.ofNat row.tsaToken.length
  verificationStatus := outcome.status.asStr
  verificationReason := outcome.reason.map TsaVerificationReason.asStr

/-- `resolve_proof_state`. -/
def resolveProofState (db : Db) (cache : TsaCache) (chainId : Uuid) (snapshot : ProofSnapshot) :
    ResolvedProofState × TsaCache :=
  match db.tsaToken? chainId snapshot.merkleRoot with
  | none =>
    let context := proofContextWithTsa snapshot.context false .notProvided
    (⟨deriveProofStatus context, none, context, snapshot.merkleRoot⟩, cache)
  | some row =>
    let (outcome, cache) :=
      resolveAndCacheTsaVerification state cache chainId snapshot.merkleRoot row.tsaToken
    let tsaStatus := if outcome.status.isFailure then TsaStatus.failed else .verified
    let context := proofContextWithTsa snapshot.context true tsaStatus
    (⟨deriveProofStatus context, some (tsaReport row outcome), context, snapshot.merkleRoot⟩, cache)

/-- The snapshot of an event, from its rows and its stored signature. -/
def readSnapshot (db : Db) (event : EventRecord) : ProofSnapshot :=
  buildProofSnapshotRead state.sha state.ed event.chainId event.eventId
    (loadEventPrefix db event.chainId event.sequence) event.signature (state.signer.publicKeyHex state.ed)

/-! ## `GET /v1/proof/{event_id}` -/

/-- The JSON of a proof that is pending, or has failed. -/
structure ProofEnvelope where
  eventId : Uuid
  chainId : Uuid
  sequence : Int64
  proofStatus : String
  requestId : Uuid
  deriving DecidableEq

/-- `anchored_proof_response`. -/
structure AnchoredProof where
  proofVersion : String
  proofType : String
  leafVersion : String
  eventId : Uuid
  chainId : Uuid
  sequence : Int64
  parentEventId : Uuid
  fileHash : String
  merkleRoot : String
  signature : String
  publicKey : String
  tsa : Option TsaReport
  createdAt : Int
  proofStatus : String
  requestId : Uuid
  deriving DecidableEq

/-- `build_proof_response`. -/
def buildProofResponse (db : Db) (cache : TsaCache) (event : EventRecord) (requestId : Uuid) :
    (ProofEnvelope ⊕ AnchoredProof) × TsaCache :=
  let snapshot := readSnapshot state db event
  let (resolved, cache) := resolveProofState state db cache event.chainId snapshot
  match resolved.status with
  | .pending | .failed =>
    (.inl ⟨event.eventId, event.chainId, event.sequence, resolved.status.asStr, requestId⟩, cache)
  | .anchored =>
    (.inr
      { proofVersion := PROOF_VERSION
        proofType := PROOF_TYPE
        leafVersion := LEAF_VERSION
        eventId := event.eventId
        chainId := event.chainId
        sequence := event.sequence
        parentEventId := event.parentEventId
        fileHash := event.fileHash
        merkleRoot := snapshot.merkleRoot
        signature := snapshot.signature
        publicKey := snapshot.publicKey
        tsa := resolved.tsa
        createdAt := event.createdAt
        proofStatus := ProofStatus.anchored.asStr
        requestId }, cache)

/-- The handler of `GET /v1/proof/{event_id}`. -/
def proofHandler (db : Db) (cache : TsaCache) (accountId eventId requestId : Uuid) :
    Except ReadError ((ProofEnvelope ⊕ AnchoredProof) × TsaCache) := do
  let event ← verifyEventAccess db accountId eventId
  pure (buildProofResponse state db cache event requestId)

/-! ## `GET /v1/verify/{event_id}` -/

/-- `normalize_query_file_hash`. -/
def normalizeQueryFileHash (raw : Option String) : Except ReadError (Option String) :=
  match raw with
  | none => .ok none
  | some raw =>
    let normalized := lower (trim raw)
    if (asBytes normalized).length ≠ 64 then .error .invalidVerifyFileHash
    else if normalized.toList.all fun c => c.isDigit || ('a' ≤ c && c ≤ 'f') then
      .ok (some normalized)
    else .error .invalidVerifyFileHash

/-- `FileVerification`. -/
structure FileVerification where
  provided : Bool
  providedHash : Option String
  isValidFileHash : Option Bool
  deriving DecidableEq

/-- `verify_file_hash`. -/
def verifyFileHash (provided : Option String) (stored : String) : FileVerification :=
  match provided with
  | none => ⟨false, none, none⟩
  | some hash => ⟨true, some hash, some (hash == stored)⟩

/-- `Debug` of a failure. -/
def debugFailure : StructuralFailure → String
  | .parentChain index => "ParentChain \x7b index: " ++ toString index ++ " \x7d"
  | .sequence index => "Sequence \x7b index: " ++ toString index ++ " \x7d"
  | .emptyMerkle => "EmptyMerkle"

/-- `ChainVerification`. -/
structure ChainVerification where
  valid : Bool
  merkleValid : Bool
  signatureValid : Bool
  errors : List String
  deriving DecidableEq

/-- The errors of `verify_chain_prefix`. -/
def chainErrors (sha : Sha256) (events : List EventRow) : List String :=
  (match checkEventStructure sha events with
    | .ok _ => []
    | .error failure => ["Structural check failed: " ++ debugFailure failure]) ++
  if events ≠ [] ∧ recomputeRootFromEvents sha events = "" then ["Merkle root could not be computed"]
  else []

/-- `verify_chain_prefix`. -/
def verifyChainPrefix (chainId eventId : Uuid) (eventSignature publicKey : String)
    (events : List EventRow) (expectedRoot : String) : ChainVerification :=
  let recomputedRoot := recomputeRootFromEvents state.sha events
  let merkleValid := !events.isEmpty && recomputedRoot != "" && recomputedRoot == expectedRoot
  let signatureValid := eventSignature != "" &&
    verifyRoot state.ed chainId.toString expectedRoot eventId.toString eventSignature publicKey
  let errors := chainErrors state.sha events
  ⟨merkleValid && signatureValid && errors.isEmpty, merkleValid, signatureValid, errors⟩

/-- `IdentityVerificationResult`. -/
structure IdentityVerificationResult where
  present : Bool
  valid : Bool
  reason : Option String
  fingerprint : Option String
  keyId : Option Uuid
  deriving DecidableEq

/-- `IdentityVerificationService::verify`; none for an event hash that is not one. -/
def verifyIdentity (db : Db) (event : EventRecord) (canonicalEventHashHex : String) :
    Option IdentityVerificationResult :=
  match event.identitySignature with
  | none => some ⟨false, false, none, none, none⟩
  | some signatureHex =>
    match event.identityKeyId with
    | none => some ⟨true, false, some "key_not_found", event.identityFingerprint, none⟩
    | some keyId =>
      match db.identityKeys.find? (·.id == keyId) with
      | none => some ⟨true, false, some "key_not_found", event.identityFingerprint, some keyId⟩
      | some key =>
        match decodeArray 32 canonicalEventHashHex with
        | none => none
        | some rawHash =>
          let valid :=
            verifyEd25519Signature state.toAppState key.publicKey rawHash.1 signatureHex
          some ⟨true, valid, if valid then none else some "signature_mismatch",
            event.identityFingerprint, some keyId⟩

/-- The JSON of a verification. -/
structure VerifyResponse where
  eventId : Uuid
  chainId : Uuid
  sequence : Int64
  proofStatus : String
  chain : ChainVerification
  file : FileVerification
  identitySignature : Option IdentityVerificationResult
  requestId : Uuid
  deriving DecidableEq

/-- The response for an event that is anchored. -/
def verifyResponse (db : Db) (event : EventRecord) (providedFileHash : Option String)
    (resolvedRoot : String) (requestId : Uuid) : Except ReadError VerifyResponse :=
  match verifyIdentity state db event
    (buildLeaf state.sha event.sequence event.eventId event.parentEventId event.fileHash) with
  | none => .error .internal
  | some identity => .ok
    { eventId := event.eventId
      chainId := event.chainId
      sequence := event.sequence
      proofStatus := ProofStatus.anchored.asStr
      chain := verifyChainPrefix state event.chainId event.eventId event.signature
        (state.signer.publicKeyHex state.ed) (loadEventPrefix db event.chainId event.sequence)
        resolvedRoot
      file := verifyFileHash providedFileHash event.fileHash
      identitySignature := if identity.present then some identity else none
      requestId }

/-- The handler of `GET /v1/verify/{event_id}`: its answer, and the cache it leaves. -/
def verifyHandler (db : Db) (cache : TsaCache) (accountId eventId : Uuid) (fileHash : Option String)
    (requestId : Uuid) : Except ReadError VerifyResponse × TsaCache :=
  match verifyEventAccess db accountId eventId with
  | .error err => (.error err, cache)
  | .ok event =>
    match normalizeQueryFileHash fileHash with
    | .error err => (.error err, cache)
    | .ok providedFileHash =>
      let (resolved, cache) :=
        resolveProofState state db cache event.chainId (readSnapshot state db event)
      match resolved.status with
      | .pending => (.error .proofNotReady, cache)
      | .failed => (.error .proofGenerationFailed, cache)
      | .anchored => (verifyResponse state db event providedFileHash resolved.resolvedRoot requestId,
          cache)

/-! ## What the handlers find -/

/-- The event that a reader gets is one of the tables, with the id asked for. -/
theorem mem_of_verifyEventAccess {db : Db} {accountId eventId : Uuid} {e : EventRecord}
    (h : verifyEventAccess db accountId eventId = .ok e) : e ∈ db.events ∧ e.eventId = eventId := by
  unfold verifyEventAccess at h
  split at h
  · exact absurd h (by simp)
  · rename_i found hfound
    split at h
    · exact absurd h (by simp)
    · split_ifs at h
      obtain rfl := Except.ok.inj h
      refine ⟨List.mem_of_find?_eq_some hfound, ?_⟩
      have hid := List.find?_some hfound
      simp only [Bool.and_eq_true, beq_iff_eq] at hid
      exact hid.1

/-- The hash of an event is one, so that every identity is checked. -/
theorem exists_verifyIdentity (state : ReadState) (db : Db) (e : EventRecord) :
    ∃ identity, verifyIdentity state db e
      (buildLeaf state.sha e.sequence e.eventId e.parentEventId e.fileHash) = some identity := by
  have hhash : decodeArray 32 (buildLeaf state.sha e.sequence e.eventId e.parentEventId e.fileHash) =
      some (state.sha (leafInput e.sequence e.eventId e.parentEventId e.fileHash)) :=
    decodeArray_hexEncode _
  unfold verifyIdentity
  rw [hhash]
  cases e.identitySignature with
  | none => exact ⟨_, rfl⟩
  | some signature =>
    cases e.identityKeyId with
    | none => exact ⟨_, rfl⟩
    | some keyId =>
      cases hkey : db.identityKeys.find? (·.id == keyId) with
      | none => simp [hkey]
      | some key => simp [hkey]

end EvidentLedger.Ledger
