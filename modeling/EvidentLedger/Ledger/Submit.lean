import EvidentLedger.Ledger.Statement
import EvidentLedger.ProofMaterial

/-!
# Event submission

The programs of `POST /chains` (`src/service/chains.rs`), `POST /events` (`src/service/ledger.rs`,
`src/api/events.rs`) and `POST /v1/events` (`src/api/v1/submit_event.rs`), statement by statement,
with `src/service/capabilities.rs`, `src/service/entitlements.rs`,
`src/service/identity_signing.rs`, `src/api/v1/validation.rs`, `src/api/v1/idempotency/` and
`src/tsa_worker.rs` as far as they call them.

* A `?` is an early return, and a transaction handle that goes out of scope is rolled back
  (`orRollback`).
* `From<sqlx::Error>` compares with the constraint `"uniq_idempotency"`, which no table has: the
  constraint of `events` is `"uniq_idem"`. A duplicate key is a database error.
* What the two paths do after their commit is outside any transaction: `postCommitTsa` and the two
  reads of `finalizeEventSubmission`.
-/

namespace EvidentLedger.Ledger

open Lib.Text Lib.Interleave Lib.Transaction

/-- A program that does not end early. -/
abbrev Action (α : Type) := Prog (Call.Answer (S := schema)) α

/-- A statement and a question, with their answers. -/
def runSql (s : Sql) : Action (Except DbError s.Res) := Prog.call (Call.sql (S := schema) s)

def runAsk (a : Ask) : Action a.Ans := Prog.call (Call.ask (S := schema) a)

/-- The same in a program that may end early. -/
def statement {ε : Type} (f : DbError → ε) (s : Sql) : Program schema ε s.Res :=
  sql (S := schema) f s

def question {ε : Type} (a : Ask) : Program schema ε a.Ans := ask (S := schema) a

/-- The signer, and the implementations it runs on. -/
structure AppState where
  sha : Sha256
  ed : Ed25519
  signer : ServerSigner

/-! ## Errors -/

/-- `LedgerError`. -/
inductive LedgerError where
  | chainNotFound
  | chainAccessDenied
  | parentMismatch
  | duplicateIdempotencyKey
  | duplicateChainSequence
  | usageLimitExceeded
  | tsaLimitExceeded
  | qualifiedTsaUnavailable
  | identityNotSupportedOnLegacyPath
  | databaseError (err : DbError)
  deriving Repr, DecidableEq

/-- `From<sqlx::Error>`. -/
def LedgerError.from (err : DbError) : LedgerError :=
  match err with
  | .database constraint =>
    if constraint = some "uniq_idempotency" then .duplicateIdempotencyKey
    else if constraint = some "events_chain_sequence_unique" then .duplicateChainSequence
    else .databaseError err
  | _ => .databaseError err

/-- The errors of `ApiError` that submission returns. -/
inductive ApiError where
  | notFound
  | conflict
  | invalidRequest
  | usageLimitExceeded
  | internal
  | entitlementMissing
  | identityKeyNotFound
  | identityKeyRevoked
  | identityKeyNotVerified
  | invalidIdentitySignature
  deriving Repr, DecidableEq

namespace ApiError

/-- `status_code`. -/
def statusCode : ApiError → Nat
  | notFound => 404
  | conflict => 409
  | invalidRequest => 400
  | usageLimitExceeded => 429
  | internal => 500
  | entitlementMissing => 403
  | identityKeyNotFound => 404
  | identityKeyRevoked => 403
  | identityKeyNotVerified => 403
  | invalidIdentitySignature => 401

/-- `code`. -/
def code : ApiError → String
  | notFound => "not_found"
  | conflict => "conflict"
  | invalidRequest => "invalid_request"
  | usageLimitExceeded => "usage_limit_exceeded"
  | internal => "internal_error"
  | entitlementMissing => "entitlement_missing"
  | identityKeyNotFound => "identity_key_not_found"
  | identityKeyRevoked => "identity_key_revoked"
  | identityKeyNotVerified => "identity_key_not_verified"
  | invalidIdentitySignature => "invalid_identity_signature"

/-- `message`. -/
def message : ApiError → String
  | notFound => "Resource not found"
  | conflict => "Request conflict"
  | invalidRequest => "Invalid request"
  | usageLimitExceeded => "Monthly commit limit for your tariff plan has been reached."
  | internal => "Internal server error"
  | entitlementMissing => "Identity feature not available on current plan"
  | identityKeyNotFound => "Identity key not found"
  | identityKeyRevoked => "Identity key has been revoked"
  | identityKeyNotVerified => "Identity key is not verified"
  | invalidIdentitySignature => "Signature verification failed"

/-- No two errors have one code. -/
theorem code_inj {e e' : ApiError} (h : e.code = e'.code) : e = e' := by
  cases e <;> cases e' <;> first | rfl | exact absurd h (by decide)

end ApiError

/-- `map_ledger_error`. -/
def mapLedgerError : LedgerError → ApiError
  | .chainNotFound | .chainAccessDenied => .notFound
  | .usageLimitExceeded => .usageLimitExceeded
  | .tsaLimitExceeded => .internal
  | .qualifiedTsaUnavailable => .internal
  | .parentMismatch | .duplicateIdempotencyKey | .duplicateChainSequence => .conflict
  | .identityNotSupportedOnLegacyPath => .internal
  | .databaseError _ => .internal

/-- `IdentitySigningError`. -/
inductive IdentitySigningError where
  | keyNotFound
  | keyRevoked
  | keyNotVerified
  | invalidSignature
  | invalidEventHash
  | database (err : DbError)
  deriving Repr, DecidableEq

/-- `map_identity_signing_error`. -/
def mapIdentitySigningError : IdentitySigningError → ApiError
  | .keyNotFound => .identityKeyNotFound
  | .keyRevoked => .identityKeyRevoked
  | .keyNotVerified => .identityKeyNotVerified
  | .invalidSignature => .invalidIdentitySignature
  | .invalidEventHash | .database _ => .internal

/-! ## Requests and responses -/

/-- `SubmitEventRequest`; `parent_event_id` is never read. -/
structure SubmitEventRequest where
  chainId : Uuid
  fileHash : String
  idempotencyKey : String
  parentEventId : Option Uuid
  eventId : Option Uuid
  identityKeyId : Option Uuid
  identitySignature : Option String
  identityFingerprint : Option String
  deriving DecidableEq

/-- `V1IdentitySignature`. -/
structure V1IdentitySignature where
  keyId : Uuid
  signature : String
  deriving DecidableEq

/-- `V1SubmitEventRequest`. -/
structure V1SubmitEventRequest where
  chainId : Uuid
  fileHash : String
  eventType : String
  eventId : Option Uuid
  identitySignature : Option V1IdentitySignature
  deriving DecidableEq

/-- The response to a committed legacy event. -/
structure CommitResponse where
  leafVersion : String
  eventId : Uuid
  chainId : Uuid
  headEventId : Uuid
  sequence : Int64
  proof : ProofPayload
  events : List EventLeaf
  tsa : Option TsaData
  deriving DecidableEq

/-- The response of `submit_event`: the event of an earlier request with that key, or a new one. -/
inductive SubmitResponse where
  | cached (eventId chainId : Uuid) (headEventId : Option Uuid)
  | committed (response : CommitResponse)
  deriving DecidableEq

/-- `PlannedEvent`. -/
structure PlannedEvent where
  eventId : Uuid
  sequence : Int64
  parentEventId : Uuid
  deriving DecidableEq

/-! ## Plans -/

namespace AccountCapabilities

/-- `can_commit`. -/
def canCommit (c : AccountCapabilities) (currentCommits : Int) : Bool :=
  match c.monthlyCommitsLimit with
  | some limit => currentCommits < limit
  | none => true

/-- `can_use_tsa`. -/
def canUseTsa (c : AccountCapabilities) (currentTsaRequests : Int) : Bool :=
  match c.monthlyTsaLimit with
  | some limit => currentTsaRequests < limit
  | none => true

/-- `tsa_available`. -/
def tsaAvailable (c : AccountCapabilities) : Bool := c.tsaMode == .machine

end AccountCapabilities

/-- `tsa_class_from_plan`. -/
def tsaClassFromPlan (planName : String) : String :=
  if planName = "legal" then "legal"
  else if planName = "identity" then "identity"
  else if planName = "vault" then "vault"
  else "basic"

/-- `trust_level_from_plan`. -/
def trustLevelFromPlan (planName : String) : String :=
  if planName = "identity" then "IDENTITY"
  else if planName = "vault" then "VAULT"
  else if planName = "legal" then "ENHANCED"
  else "BASIC"

/-! ## Statements shared by both paths -/

/-- A statement whose failure is a ledger error, by `?` or by `map_err(DatabaseError)`. -/
def query (s : Sql) : Program schema LedgerError s.Res := statement LedgerError.from s

def queryRaw (s : Sql) : Program schema LedgerError s.Res := statement LedgerError.databaseError s

/-- The row of a chain that was there, locked. -/
def lockChain (chainId : Uuid) : Program schema LedgerError (Option Uuid) := do
  match ← query (.selectChainForUpdate chainId) with
  | some owner => pure owner
  | none => throw .chainNotFound

/-- The owner of a chain, if another; a chain without an owner is taken over. -/
def claimChain (accountId chainId : Uuid) (owner : Option Uuid) :
    Program schema LedgerError Unit :=
  match owner with
  | some owner => require (owner == accountId) .chainAccessDenied
  | none => query (.updateChainAccount accountId chainId)

/-- The row of a chain, new or locked. -/
def insertOrLockChain (accountId chainId : Uuid) : Program schema LedgerError (Option Uuid) := do
  match ← query (.insertChainOnConflict chainId accountId) with
  | some owner => pure owner
  | none => lockChain chainId

/-- `ensure_chain_access_in_tx`. -/
def ensureChainAccessInTx (accountId chainId : Uuid) : Program schema LedgerError Unit := do
  let owner ← insertOrLockChain accountId chainId
  claimChain accountId chainId owner

/-- `event_id.unwrap_or_else(Uuid::new_v4)`. -/
def eventIdOrNew (eventId : Option Uuid) : Program schema LedgerError Uuid :=
  match eventId with
  | some eventId => pure eventId
  | none => question .newUuid

/-- `plan_next_event`. -/
def planNextEvent (chainId : Uuid) (eventId : Option Uuid) :
    Program schema LedgerError PlannedEvent := do
  let headEventId ← queryRaw (.selectHead chainId)
  let sequence ← query (.selectNextSequence chainId)
  let eventId ← eventIdOrNew eventId
  pure ⟨eventId, sequence, Option.getD headEventId Uuid.nil⟩

/-- The quotas of `insert_event_in_tx`. -/
def reserveUsage (accountId : Uuid) : Program schema LedgerError Unit := do
  query (.insertUsage accountId)
  let usage ← query (.selectUsageForUpdate accountId)
  let capabilities ← query (.selectCapabilities accountId)
  require (AccountCapabilities.canCommit capabilities usage.1) .usageLimitExceeded
  require (AccountCapabilities.canUseTsa capabilities usage.2) .tsaLimitExceeded
  require (AccountCapabilities.tsaAvailable capabilities) .qualifiedTsaUnavailable

/-- The row `insert_event_in_tx` inserts, with an empty placeholder for the signature. -/
def SubmitEventRequest.row (req : SubmitEventRequest) (eventId parentEventId : Uuid)
    (sequence : Int64) (createdAt : Int) : EventRecord where
  eventId
  chainId := req.chainId
  parentEventId
  fileHash := req.fileHash
  idempotencyKey := req.idempotencyKey
  signature := ""
  createdAt
  sequence
  identityKeyId := req.identityKeyId
  identitySignature := req.identitySignature
  identityFingerprint := req.identityFingerprint

/-- `insert_event_in_tx`; the signature is a placeholder until `persistEventSignature`. -/
def insertEventInTx (accountId : Uuid) (req : SubmitEventRequest) :
    Program schema LedgerError (Uuid × Int64) := do
  reserveUsage accountId
  let headEventId ← queryRaw (.selectHead req.chainId)
  let sequence ← query (.selectNextSequence req.chainId)
  let eventId ← eventIdOrNew req.eventId
  query (.insertEvent (req.row eventId (Option.getD headEventId Uuid.nil) sequence 0))
  query (.updateHead eventId req.chainId)
  query (.updateUsage accountId)
  pure (eventId, sequence)

variable (state : AppState)

/-- `proof_snapshot_at_event`. -/
def proofSnapshotAtEvent (chainId targetEventId : Uuid) (targetSequence : Int64) :
    Program schema LedgerError ProofSnapshot := do
  let events ← queryRaw (.selectEventPrefix chainId targetSequence)
  pure (buildProofSnapshot state.sha state.ed state.signer chainId targetEventId events)

/-- `persist_event_signature`. -/
def persistEventSignature (eventId : Uuid) (signature : String) :
    Program schema LedgerError Unit :=
  queryRaw (.updateSignature signature eventId)

/-- Sign and store: the last writes of an event in both paths. -/
def signEvent (chainId eventId : Uuid) (sequence : Int64) :
    Program schema LedgerError ProofSnapshot := do
  let snapshot ← proofSnapshotAtEvent state chainId eventId sequence
  persistEventSignature eventId snapshot.signature
  pure snapshot

/-! ## After the commit -/

/-- The root of the rows read, if any. -/
def chainRoot (events : List EventRow) : Option String :=
  if events = [] then none else some (recomputeRootFromEvents state.sha events)

/-- `compute_chain_root`. -/
def computeChainRoot (chainId : Uuid) : Action (Option String) := do
  match ← runSql (.selectChainEvents .computeChainRoot chainId) with
  | .ok events => pure (chainRoot state events)
  | .error _ => pure none

/-- `stamp_chain`: without a token nothing is stored, and a failing insert is only reported. -/
def stampChain (chainId : Uuid) (merkleRoot : String) (headEventId : Uuid) : Action Unit :=
  match decodeArray 32 merkleRoot with
  | none => pure ()
  | some hash => do
    match ← runAsk (.timestamp hash.1) with
    | none => pure ()
    | some resp => do
      let _ ← runSql (.insertTsaToken
        { chainId
          eventId := headEventId
          merkleRoot
          tsaToken := resp.token
          tsaTimestamp := resp.timestamp
          tsaSerial := resp.serial })
      pure ()

/-- `post_commit_tsa`, and the first lines of `finalize_event_submission`. -/
def postCommitTsa (chainId eventId : Uuid) : Action Unit := do
  match ← computeChainRoot state chainId with
  | some root => stampChain chainId root eventId
  | none => pure ()

/-- `on_proof_anchored`; its failure is only reported. -/
def publish (eventId : Uuid) (fileHash tsaClass : String) : Action Unit := do
  let _ ← runAsk (.onProofAnchored eventId fileHash tsaClass)
  pure ()

/-- The JSON `finalize_event_submission` makes. -/
def commitResponse (chainId eventId : Uuid) (sequence : Int64)
    (merkleRoot signature publicKey : String) (events : List EventRow) (tsa : Option TsaData) :
    CommitResponse where
  leafVersion := LEAF_VERSION
  eventId
  chainId
  headEventId := eventId
  sequence
  proof :=
    { root := merkleRoot
      chainHead := eventId.toString
      signature
      publicKey
      leavesCount := events.length
      version := some PROOF_VERSION
      proofType := some PROOF_TYPE }
  events := events.map EventRow.toLeaf
  tsa

/-- `finalize_event_submission`. -/
def finalizeEventSubmission (chainId eventId : Uuid) (sequence : Int64)
    (merkleRoot signature publicKey : String) : Program schema LedgerError CommitResponse := do
  ExceptT.lift (postCommitTsa state chainId eventId)
  let tsaRecord ← query (.selectTsaRecord chainId eventId)
  let events ← query (.selectChainEvents .finalizeEventSubmission chainId)
  pure (commitResponse chainId eventId sequence merkleRoot signature publicKey events tsaRecord)

/-! ## `POST /events` -/

/-- The body of the transaction: an earlier event with this key, or a new one. -/
def submitEventInTx (accountId : Uuid) (req : SubmitEventRequest) :
    Program schema LedgerError (SubmitResponse ⊕ (Uuid × Int64 × ProofSnapshot)) := do
  ensureChainAccessInTx accountId req.chainId
  match ← query (.selectByIdempotencyKey req.chainId req.idempotencyKey) with
  | some existing =>
    let headEventId ← queryRaw (.selectHead req.chainId)
    pure (.inl (.cached existing.1 req.chainId headEventId))
  | none =>
    let inserted ← insertEventInTx accountId req
    let snapshot ← signEvent state req.chainId inserted.1 inserted.2
    pure (.inr (inserted.1, inserted.2, snapshot))

/-- The public proof of an anchored event, under the class of its plan. -/
def publishLegacy (accountId eventId : Uuid) (fileHash : String) (proofStatus : ProofStatus) :
    Program schema LedgerError Unit :=
  if proofStatus = .anchored then do
    let capabilities ← queryRaw (.selectCapabilities accountId)
    ExceptT.lift (publish eventId fileHash
      (tsaClassFromPlan (AccountCapabilities.planName capabilities)))
  else pure ()

/-- What follows the commit. -/
def submitEventAfter (accountId : Uuid) (req : SubmitEventRequest) (eventId : Uuid)
    (sequence : Int64) (snapshot : ProofSnapshot) : Program schema LedgerError CommitResponse := do
  publishLegacy accountId eventId req.fileHash (deriveProofStatus snapshot.context)
  finalizeEventSubmission state req.chainId eventId sequence snapshot.merkleRoot
    snapshot.signature snapshot.publicKey

/-- `submit_event`. -/
def submitEvent (accountId : Uuid) (req : SubmitEventRequest) :
    Program schema LedgerError SubmitResponse := do
  beginTx LedgerError.from
  match ← orRollback (submitEventInTx state accountId req) with
  | .inl response =>
    rollbackTx
    pure response
  | .inr (eventId, sequence, snapshot) =>
    commitTx LedgerError.from
    let response ← submitEventAfter state accountId req eventId sequence snapshot
    pure (.committed response)

/-- `reject_identity_fields_on_legacy`. -/
def rejectIdentityFieldsOnLegacy (req : SubmitEventRequest) : Bool :=
  req.identityKeyId.isNone && req.identitySignature.isNone && req.identityFingerprint.isNone

/-- The handler of `POST /events`. -/
def eventsHandler (accountId : Uuid) (req : SubmitEventRequest) :
    Program schema LedgerError SubmitResponse := do
  require (rejectIdentityFieldsOnLegacy req) .identityNotSupportedOnLegacyPath
  submitEvent state accountId req

/-! ## `POST /v1/events` -/

/-- `is_valid_file_hash`. -/
def isValidFileHash (fileHash : String) : Bool :=
  let hash := trim fileHash
  (asBytes hash).length == 64 && hash.toList.all fun c => (hexVal c).isSome

def ALLOWED_EVENT_TYPES : List String := ["submission", "amendment", "cancellation"]

/-- `is_valid_event_type`. -/
def isValidEventType (eventType : String) : Bool := ALLOWED_EVENT_TYPES.contains eventType

/-- `validate_submit_request`. -/
def validateSubmitRequest (body : V1SubmitEventRequest) : Bool :=
  isValidEventType body.eventType && isValidFileHash body.fileHash &&
    !(body.identitySignature.isSome && body.eventId.isNone)

/-- `normalized_file_hash`. -/
def normalizedFileHash (fileHash : String) : String := lower (trim fileHash)

/-- A character of a JSON string, as `serde_json` escapes it. -/
def jsonEscape (c : Char) : List Char :=
  if c = '"' then ['\\', '"']
  else if c = '\\' then ['\\', '\\']
  else if c.toNat = 8 then ['\\', 'b']
  else if c.toNat = 9 then ['\\', 't']
  else if c.toNat = 10 then ['\\', 'n']
  else if c.toNat = 12 then ['\\', 'f']
  else if c.toNat = 13 then ['\\', 'r']
  else if c.toNat < 32 then
    ['\\', 'u', '0', '0', hexDigit (c.toNat / 16), hexDigit (c.toNat % 16)]
  else [c]

/-- `canonicalize_value` of a string. -/
def jsonString (s : String) : String :=
  String.ofList ('"' :: (s.toList.flatMap jsonEscape ++ ['"']))

/-- `request_hash`: the keys in order. -/
def requestHash (body : V1SubmitEventRequest) : String :=
  sha256Hex state.sha (asBytes ("\x7b" ++
    jsonString "chain_id" ++ ":" ++ jsonString body.chainId.toString ++ "," ++
    jsonString "event_type" ++ ":" ++ jsonString body.eventType ++ "," ++
    jsonString "file_hash" ++ ":" ++ jsonString body.fileHash ++ "\x7d"))

/-- A statement of the v1 path itself. -/
def queryV1 (s : Sql) : Program schema ApiError s.Res := statement (fun _ => .internal) s

/-- `map_err`. -/
def mapErr {ε ε' α : Type} (f : ε → ε') (prog : Program schema ε α) : Program schema ε' α :=
  ExceptT.mk (prog.run >>= fun r => pure (r.mapError f))

/-- `require_feature(Feature::Identity)`: every failure is a missing entitlement. -/
def requireIdentityFeature (accountId : Uuid) : Program schema ApiError Unit := do
  let capabilities ← statement (fun _ => ApiError.entitlementMissing)
    (.selectCapabilities accountId)
  require (AccountCapabilities.identityEnabled capabilities) .entitlementMissing

/-- `verify_ed25519_signature`. -/
def verifyEd25519Signature (publicKeyHex : String) (message : List UInt8) (signatureHex : String) :
    Bool :=
  match decodeArray 32 publicKeyHex, decodeArray 64 signatureHex with
  | some key, some signature => state.ed.verify key message signature
  | _, _ => false

/-- The checks of a key in `validate_and_prepare`. -/
def checkIdentityKey (key : IdentityKeyRow) (signatureHex canonicalEventHashHex : String) :
    Except IdentitySigningError (Uuid × String × String) :=
  if key.revokedAt.isSome then .error .keyRevoked
  else if key.verifiedAt.isNone then .error .keyNotVerified
  else
    match decodeArray 32 canonicalEventHashHex with
    | none => .error .invalidEventHash
    | some rawHash =>
      if verifyEd25519Signature state key.publicKey rawHash.1 signatureHex then
        .ok (key.id, signatureHex, key.fingerprint)
      else .error .invalidSignature

/-- `validate_and_prepare`. -/
def validateAndPrepare (accountId identityKeyId : Uuid)
    (signatureHex canonicalEventHashHex : String) :
    Program schema IdentitySigningError (Uuid × String × String) := do
  match ← statement IdentitySigningError.database (.selectIdentityKey identityKeyId accountId) with
  | none => throw .keyNotFound
  | some key => ExceptT.mk (pure (checkIdentityKey state key signatureHex canonicalEventHashHex))

/-- The identity columns of a v1 event. -/
def identityFields (accountId : Uuid) (identitySignature : Option V1IdentitySignature)
    (canonicalEventHash : String) : Program schema ApiError (Option (Uuid × String × String)) := do
  match identitySignature with
  | none => pure none
  | some identity =>
    requireIdentityFeature accountId
    let fields ← mapErr mapIdentitySigningError
      (validateAndPrepare state accountId identity.keyId identity.signature canonicalEventHash)
    pure (some fields)

/-- Hours of an idempotency record. -/
def IDEMPOTENCY_TTL_HOURS : Int := 24

/-- `now + Duration::hours(IDEMPOTENCY_TTL_HOURS)`. -/
def recordExpiry (now : Int) : Int := now + IDEMPOTENCY_TTL_HOURS * 3600000000

/-- `build_v1_response`. -/
def buildV1Response (eventId chainId : Uuid) (sequence : Int64) (proofStatus : ProofStatus)
    (trustLevel : String) (requestId : Uuid) : V1Response :=
  ⟨eventId, chainId, sequence, proofStatus.asStr, trustLevel, requestId⟩

/-- `insert_in_tx`, with the error `submit_v1_event` makes of a duplicate. -/
def insertInTx (record : IdempotencyRecord) : Program schema ApiError Unit :=
  statement (fun err => if err = .database (some "uniq_idempotency_account_key") then .conflict
    else .internal) (.insertRecord record)

/-- The new event of a v1 request, with its idempotency record. -/
def insertV1InTx (accountId : Uuid) (idempotencyKey : String) (body : V1SubmitEventRequest)
    (trustLevel fileHash requestHash : String) :
    Program schema ApiError (Uuid × ProofStatus × V1Response) := do
  mapErr mapLedgerError (ensureChainAccessInTx accountId body.chainId)
  let planned ← mapErr mapLedgerError (planNextEvent body.chainId body.eventId)
  let canonicalEventHash :=
    buildLeaf state.sha planned.sequence planned.eventId planned.parentEventId fileHash
  let fields ← identityFields state accountId body.identitySignature canonicalEventHash
  let inserted ← mapErr mapLedgerError (insertEventInTx accountId
    { chainId := body.chainId
      fileHash
      idempotencyKey
      parentEventId := none
      eventId := some planned.eventId
      identityKeyId := fields.map (·.1)
      identitySignature := fields.map (·.2.1)
      identityFingerprint := fields.map (·.2.2) })
  let snapshot ← mapErr (fun _ => ApiError.internal)
    (signEvent state body.chainId inserted.1 inserted.2)
  let proofStatus := deriveProofStatus snapshot.context
  let requestId ← question .newUuid
  let responseJson :=
    buildV1Response inserted.1 body.chainId inserted.2 proofStatus trustLevel requestId
  let now ← question .utcNow
  let id ← question .newUuid
  insertInTx
    { id
      accountId
      idempotencyKey
      requestHash
      responseJson
      createdAt := now
      expiresAt := recordExpiry now }
  pure (inserted.1, proofStatus, responseJson)

/-- The body of the transaction: an active record, or a new event. -/
def submitV1InTx (accountId : Uuid) (idempotencyKey : String) (body : V1SubmitEventRequest)
    (trustLevel fileHash requestHash : String) :
    Program schema ApiError (V1Response ⊕ (Uuid × ProofStatus × V1Response)) := do
  match ← queryV1 (.selectActiveRecord accountId idempotencyKey) with
  | some record =>
    require (record.requestHash == requestHash) .conflict
    pure (.inl record.responseJson)
  | none =>
    let inserted ←
      insertV1InTx state accountId idempotencyKey body trustLevel fileHash requestHash
    pure (.inr inserted)

/-- `materialize_public_proof_after_anchor`, where the event is anchored. -/
def publishV1 (proofStatus : ProofStatus) (eventId : Uuid) (fileHash tsaClass : String) :
    Action Unit :=
  if proofStatus = .anchored then publish eventId fileHash tsaClass else pure ()

/-- `submit_v1_event`; the status code is always `200 OK`. -/
def submitV1Event (accountId : Uuid) (idempotencyKey : String) (body : V1SubmitEventRequest) :
    Program schema ApiError V1Response := do
  require (validateSubmitRequest body) .invalidRequest
  let capabilities ← queryV1 (.selectCapabilities accountId)
  let planName := AccountCapabilities.planName capabilities
  let fileHash := normalizedFileHash body.fileHash
  let hash := requestHash state { body with fileHash, identitySignature := none }
  beginTx fun _ => .internal
  match ← orRollback (submitV1InTx state accountId idempotencyKey body (trustLevelFromPlan planName)
      fileHash hash) with
  | .inl response =>
    commitTx fun _ => .internal
    pure response
  | .inr (eventId, proofStatus, response) =>
    commitTx fun _ => .internal
    ExceptT.lift (publishV1 proofStatus eventId fileHash (tsaClassFromPlan planName))
    ExceptT.lift (postCommitTsa state body.chainId eventId)
    pure response

/-! ## `POST /chains` and all requests -/

/-- `create_chain`: the new chain id. -/
def createChain (accountId : Uuid) : Program schema DbError Uuid := do
  let chainId ← question .newUuid
  statement id (.insertChain chainId accountId)
  pure chainId

/-- The three requests, and their outcomes. -/
inductive Request where
  | createChain (accountId : Uuid)
  | submitEvent (accountId : Uuid) (req : SubmitEventRequest)
  | submitV1Event (accountId : Uuid) (idempotencyKey : String) (body : V1SubmitEventRequest)

inductive Reply where
  | chain (result : Except DbError Uuid)
  | event (result : Except LedgerError SubmitResponse)
  | v1 (result : Except ApiError V1Response)

def Request.run : Request → Action Reply
  | .createChain accountId => Reply.chain <$> (Ledger.createChain accountId).run
  | .submitEvent accountId req => Reply.event <$> (eventsHandler state accountId req).run
  | .submitV1Event accountId idempotencyKey body =>
    Reply.v1 <$> (Ledger.submitV1Event state accountId idempotencyKey body).run

end EvidentLedger.Ledger
