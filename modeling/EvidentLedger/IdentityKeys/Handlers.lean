import EvidentLedger.Binding
import EvidentLedger.Lib.Interleave
import EvidentLedger.Signing
import EvidentLedger.Uuid

/-!
# Registration of identity keys

Model of `register_handler` and `challenge_handler` (`src/api/identity_keys.rs:73-224`) with
`service/identity_challenge.rs` and `service/identity_keys.rs:30-91`. A registration reads its challenge,
checks it and the signature, looks for the fingerprint, inserts the key and marks the challenge as used, in
autocommitted statements of their own.

* `Shared.trace` is what the requests have done so far. No function reads it.
* Of the plan of an account the model has what `require_feature` makes of it.
* A statement may fail; then it changes nothing.
-/

namespace EvidentLedger.IdentityKeys

open Lib.Interleave Lib.Text

/-! ## Rows -/

structure IdentityChallenge where
  id : Uuid
  accountId : Uuid
  challenge : String
  createdAt : Int
  expiresAt : Int
  usedAt : Option Int
  deriving DecidableEq

/-- A row of `identity_keys`. -/
structure IdentityKey where
  id : Uuid
  accountId : Uuid
  publicKey : String
  fingerprint : String
  label : Option String
  createdAt : Int
  verifiedAt : Int
  revokedAt : Option Int
  deriving DecidableEq

namespace IdentityChallenge

def isExpired (now : Int) (challenge : IdentityChallenge) : Bool := now > challenge.expiresAt

def isUsed (challenge : IdentityChallenge) : Bool := challenge.usedAt.isSome

/-- `SET used_at = now() WHERE id = $1 AND used_at IS NULL`. -/
def mark (id : Uuid) (now : Int) (challenge : IdentityChallenge) : IdentityChallenge :=
  if challenge.id == id && !challenge.isUsed then { challenge with usedAt := some now } else challenge

@[simp] theorem mark_id {id : Uuid} {now : Int} {challenge : IdentityChallenge} :
    (challenge.mark id now).id = challenge.id := by
  unfold mark
  split_ifs <;> rfl

theorem mark_of_ne {id : Uuid} {now : Int} {challenge : IdentityChallenge} (h : challenge.id ≠ id) :
    challenge.mark id now = challenge := by
  unfold mark
  rw [if_neg (by simp [h])]

theorem isUsed_mark {id : Uuid} {now : Int} {challenge : IdentityChallenge} (h : challenge.id = id) :
    (challenge.mark id now).isUsed = true := by
  unfold mark
  split_ifs with hunused
  · rfl
  · simpa [h] using hunused

theorem isUsed_mark_of_used {id : Uuid} {now : Int} {challenge : IdentityChallenge}
    (h : challenge.isUsed = true) : (challenge.mark id now).isUsed = true := by
  unfold mark
  split_ifs
  · rfl
  · exact h

end IdentityChallenge

/-! ## Statements -/

/-- An entry of the trace, with the number of the request. -/
inductive Trace where
  | loaded (p : Nat)
  | inserted (p : Nat) (key : IdentityKey)
  | marked (p : Nat)
  deriving DecidableEq

def Trace.caller : Trace → Nat
  | loaded p | inserted p _ | marked p => p

structure Shared where
  challenges : List IdentityChallenge
  keys : List IdentityKey
  trace : List Trace

inductive DbError where
  | uniqueViolation
  | other
  deriving DecidableEq

/-- How a statement ends, and what it finds outside the tables. -/
structure Choice where
  fails : Bool
  now : Int
  id : Uuid
  challenge : String
  entitled : Bool

inductive Call where
  | requireFeature (accountId : Uuid)
  | insertChallenge (accountId : Uuid)
  | findByIdAndAccount (challengeId accountId : Uuid)
  | utcNow
  | findByFingerprint (fingerprint : String)
  | insertKey (accountId : Uuid) (publicKey fingerprint : String) (label : Option String)
  | markUsed (challengeId : Uuid)

def Call.Answer : Call → Type
  | requireFeature _ => Bool
  | insertChallenge _ => Except DbError IdentityChallenge
  | findByIdAndAccount _ _ => Except DbError (Option IdentityChallenge)
  | utcNow => Int
  | findByFingerprint _ => Except DbError (Option IdentityKey)
  | insertKey .. => Except DbError IdentityKey
  | markUsed _ => Except DbError (Option Uuid)

/-- A statement that may fail. -/
def statement (c : Choice) {α : Type} (g : Shared) (answer : α) (g' : Shared) :
    Option (Except DbError α × Shared × Unit) :=
  if c.fails then some (.error .other, g, ()) else some (.ok answer, g', ())

/-- The five minutes of `expires_at`. -/
def CHALLENGE_INTERVAL : Int := 5 * 60 * 1000000

def newChallenge (c : Choice) (accountId : Uuid) : IdentityChallenge :=
  ⟨c.id, accountId, c.challenge, c.now, c.now + CHALLENGE_INTERVAL, none⟩

def newKey (c : Choice) (accountId : Uuid) (publicKey fingerprint : String) (label : Option String) :
    IdentityKey :=
  ⟨c.id, accountId, publicKey, fingerprint, label, c.now, c.now, none⟩

def exec (p : Nat) (c : Choice) : (q : Call) → Shared → Unit → Option (q.Answer × Shared × Unit)
  | .requireFeature _, g, _ => some (c.entitled, g, ())
  | .insertChallenge accountId, g, _ =>
    if g.challenges.any (·.id == c.id) then some (.error .uniqueViolation, g, ())
    else
      statement c g (newChallenge c accountId)
        { g with challenges := g.challenges ++ [newChallenge c accountId] }
  | .findByIdAndAccount challengeId accountId, g, _ =>
    statement c g (g.challenges.find? fun row => row.id == challengeId && row.accountId == accountId)
      { g with trace := g.trace ++ [.loaded p] }
  | .utcNow, g, _ => some (c.now, g, ())
  | .findByFingerprint fingerprint, g, _ =>
    statement c g (g.keys.find? (·.fingerprint == fingerprint)) g
  | .insertKey accountId publicKey fingerprint label, g, _ =>
    let key := newKey c accountId publicKey fingerprint label
    if g.keys.any fun row => row.id == key.id || row.fingerprint == key.fingerprint then
      some (.error .uniqueViolation, g, ())
    else statement c g key { g with keys := g.keys ++ [key], trace := g.trace ++ [.inserted p key] }
  | .markUsed challengeId, g, _ =>
    if g.challenges.any fun row => row.id == challengeId && !row.isUsed then
      statement c g (some challengeId)
        { g with
          challenges := g.challenges.map (·.mark challengeId c.now)
          trace := g.trace ++ [.marked p] }
    else statement c g none g

def system : System Call.Answer Shared Unit Choice := ⟨exec⟩

/-! ## Handlers -/

abbrev Program (α : Type) := Prog Call.Answer α

/-- `error_response`. -/
structure ErrorResponse where
  status : Nat
  code : String
  message : String
  deriving DecidableEq

/-- How a handler fails: it answers, or it panics. -/
inductive Failure where
  | response (error : ErrorResponse)
  | panicked
  deriving DecidableEq

def errorResponse (status : Nat) (code message : String) : Failure := .response ⟨status, code, message⟩

def internalError : Failure := errorResponse 500 "internal_error" "Internal server error"

def entitlementMissing : Failure :=
  errorResponse 403 "entitlement_missing" "Identity feature not available on current plan"

inductive IdentityChallengeError where
  | challengeNotFound
  | challengeExpired
  | challengeAlreadyUsed
  | database
  deriving DecidableEq

def mapChallengeError : IdentityChallengeError → Failure
  | .challengeExpired => errorResponse 410 "challenge_expired" "Challenge expired"
  | .challengeAlreadyUsed => errorResponse 409 "challenge_already_used" "Challenge already used"
  | .challengeNotFound => errorResponse 404 "challenge_not_found" "Challenge not found"
  | .database => internalError

structure RegisterKeyRequest where
  challengeId : Uuid
  publicKey : String
  signature : String
  label : Option String
  deriving DecidableEq

structure RegisterKeyResponse where
  keyId : Uuid
  fingerprint : String
  createdAt : Int
  deriving DecidableEq

structure ChallengeResponse where
  challengeId : Uuid
  challenge : String
  expiresAt : Int
  deriving DecidableEq

/-- The functions of the server that the handlers use. -/
structure AppState where
  sha : Sha256
  ed : Ed25519

section Handlers

variable (state : AppState)

def verifyEd25519Signature (publicKeyHex : String) (message : List UInt8) (signatureHex : String) :
    Bool :=
  match decodeArray 32 publicKeyHex, decodeArray 64 signatureHex with
  | some key, some signature => state.ed.verify key message signature
  | _, _ => false

def fingerprintFromPublicKeyHex (publicKeyHex : String) : Option String :=
  (hexDecode publicKeyHex).map (sha256Hex state.sha)

/-- `validate`, with the time that `is_expired` reads. -/
def validate (challenge : IdentityChallenge) : Program (Except IdentityChallengeError Unit) := do
  if challenge.isUsed then pure (.error .challengeAlreadyUsed)
  else
    let now ← (Prog.call Call.utcNow : Program Int)
    pure (if challenge.isExpired now then .error .challengeExpired else .ok ())

inductive IdentityKeyError where
  | fingerprintAlreadyExists
  | database
  deriving DecidableEq

/-- `IdentityKeyRepository::create`. -/
def create (accountId : Uuid) (publicKey fingerprint : String) (label : Option String) :
    Program (Except IdentityKeyError IdentityKey) := do
  match ← (Prog.call (Call.findByFingerprint fingerprint) :
    Program (Except DbError (Option IdentityKey))) with
  | .error _ => pure (.error .database)
  | .ok (some _) => pure (.error .fingerprintAlreadyExists)
  | .ok none =>
    let inserted ← (Prog.call (Call.insertKey accountId publicKey fingerprint label) :
      Program (Except DbError IdentityKey))
    pure (inserted.mapError fun e =>
      match e with
      | .uniqueViolation => .fingerprintAlreadyExists
      | .other => .database)

/-- `mark_used`, with what the handler makes of its errors. -/
def markUsed (challengeId : Uuid) (key : IdentityKey) : Program (Except Failure RegisterKeyResponse) := do
  match ← (Prog.call (Call.markUsed challengeId) : Program (Except DbError (Option Uuid))) with
  | .error _ => pure (.error internalError)
  | .ok none => pure (.error (mapChallengeError .challengeAlreadyUsed))
  | .ok (some _) => pure (.ok ⟨key.id, key.fingerprint, key.createdAt⟩)

/-- `register_handler`, once the challenge is validated. -/
def registerKey (accountId : Uuid) (body : RegisterKeyRequest) (challenge : IdentityChallenge) :
    Program (Except Failure RegisterKeyResponse) :=
  match hexDecode challenge.challenge with
  | none => pure (.error .panicked)
  | some rawChallenge =>
    if !verifyEd25519Signature state body.publicKey rawChallenge body.signature then
      pure (.error (errorResponse 401 "invalid_signature" "Signature verification failed"))
    else
      match fingerprintFromPublicKeyHex state body.publicKey with
      | none => pure (.error (errorResponse 400 "invalid_request" "Invalid public key"))
      | some fingerprint => do
        let label := (body.label.map trim).filter (· ≠ "")
        match ← create accountId body.publicKey fingerprint label with
        | .error .fingerprintAlreadyExists =>
          pure (.error (errorResponse 409 "conflict" "Identity key already registered"))
        | .error .database => pure (.error internalError)
        | .ok key => markUsed challenge.id key

/-- `register_handler`, once the account is entitled. -/
def registerEntitled (accountId : Uuid) (body : RegisterKeyRequest) :
    Program (Except Failure RegisterKeyResponse) := do
  match ← (Prog.call (Call.findByIdAndAccount body.challengeId accountId) :
    Program (Except DbError (Option IdentityChallenge))) with
  | .error _ => pure (.error internalError)
  | .ok none => pure (.error (errorResponse 404 "challenge_not_found" "Challenge not found"))
  | .ok (some challenge) =>
    match ← validate challenge with
    | .error err => pure (.error (mapChallengeError err))
    | .ok _ => registerKey state accountId body challenge

def registerHandler (accountId : Uuid) (body : RegisterKeyRequest) :
    Program (Except Failure RegisterKeyResponse) := do
  let entitled ← (Prog.call (Call.requireFeature accountId) : Program Bool)
  if !entitled then pure (.error entitlementMissing) else registerEntitled state accountId body

def challengeHandler (accountId : Uuid) : Program (Except Failure ChallengeResponse) := do
  let entitled ← (Prog.call (Call.requireFeature accountId) : Program Bool)
  if !entitled then pure (.error entitlementMissing)
  else
    match ← (Prog.call (Call.insertChallenge accountId) :
      Program (Except DbError IdentityChallenge)) with
    | .error _ => pure (.error internalError)
    | .ok challenge =>
      pure (.ok ⟨challenge.id, challenge.challenge, challenge.expiresAt⟩)

inductive Request where
  | challenge (accountId : Uuid)
  | register (accountId : Uuid) (body : RegisterKeyRequest)
  deriving DecidableEq

/-- The challenge that a request answers. -/
def Request.challengeId? : Request → Option Uuid
  | challenge _ => none
  | register _ body => some body.challengeId

inductive Reply where
  | challenge (result : Except Failure ChallengeResponse)
  | registered (result : Except Failure RegisterKeyResponse)

def Request.run : Request → Program Reply
  | challenge accountId => Reply.challenge <$> challengeHandler accountId
  | register accountId body => Reply.registered <$> registerHandler state accountId body

abbrev KeyConfig := Config Call.Answer Shared Unit Reply

/-- Any number of requests over some challenges and keys; none has begun. -/
def start (requests : Nat → Request) (challenges : List IdentityChallenge) (keys : List IdentityKey) :
    KeyConfig :=
  ⟨⟨challenges, keys, []⟩, fun p => ((requests p).run state, ())⟩

end Handlers

end EvidentLedger.IdentityKeys
