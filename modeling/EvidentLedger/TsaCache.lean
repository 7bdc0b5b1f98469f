import EvidentLedger.Json
import EvidentLedger.Binding
import EvidentLedger.Lib.Interleave

/-!
# The cache of token verifications

Model of the read path of time stamps (`src/tsa/read_verify.rs:17-209`, `src/tsa/verify.rs`,
`src/api/v1/proof_state.rs:39-166`). A reader loads a row of `tsa_tokens` with its cache columns. If they
say `verified` for the digest of the token it answers `verified_cached`; else it verifies the token itself
and writes the outcome where there is none, or one for another digest. Meanwhile rows are added
(`stamp_chain`, `src/tsa_worker.rs:18-34`), and the token of a row may be replaced, which leaves the cache
columns alone.

* `TsaEnv` is what a fresh verification finds around it, at every call anew: the environment variables,
  the trust files, `serde_json`, `base64` and `notary_tsa`.
* `Shared.verifications` is what was verified so far. No function reads it.
* `Sound`: a cached `verified` goes back to a fresh verification of a token with this digest, for the same
  chain and root.

## Results

* `verifyTokenFresh_status`: a fresh verification never answers `verified_cached`.
* **`cache_sound`**: every `verified_cached` was preceded by a fresh verification of the same token.
-/

namespace EvidentLedger.Tsa

open Lib.Text Lib.Interleave

/-! ## A fresh verification -/

inductive TsaVerificationStatus where
  | verified
  | verifiedCached
  | failed
  | unavailable
  deriving DecidableEq

/-- What is stored of a status. -/
def TsaVerificationStatus.cacheValue : TsaVerificationStatus → Option String
  | verified | verifiedCached => some "verified"
  | failed => some "failed"
  | unavailable => some "unavailable"

inductive TsaVerificationReason where
  | trustMaterialMissing
  | trustMaterialInvalid
  | verificationFailed
  deriving DecidableEq

structure TsaVerificationOutcome where
  status : TsaVerificationStatus
  reason : Option TsaVerificationReason
  deriving DecidableEq

namespace TsaVerificationOutcome

def asVerified : TsaVerificationOutcome := ⟨.verified, none⟩

def asFailed (reason : TsaVerificationReason) : TsaVerificationOutcome := ⟨.failed, some reason⟩

def asUnavailable (reason : TsaVerificationReason) : TsaVerificationOutcome :=
  ⟨.unavailable, some reason⟩

end TsaVerificationOutcome

inductive TsaConfigError where
  | missingCaPath
  | caNotFound (path : String)
  | missingTsaCertPath
  | tsaCertNotFound (path : String)

structure TsaEnv where
  devMode : Option String
  appEnv : Option String
  /-- `FREETSA_CA_CERT_PATH` and `FREETSA_UNTRUSTED_CERT_PATH`. -/
  caCertPath : Option String
  untrustedCertPath : Option String
  isFile : String → Bool
  fromStr : String → Option Json
  base64Encode : List UInt8 → String
  base64Decode : String → Option (List UInt8)
  parseAndValidateTsr : List UInt8 → List UInt8 → Bool
  verifyTsrBytes : List UInt8 → List UInt8 → String → String → Bool

section Fresh

variable (env : TsaEnv)

def stubsAllowedInCurrentEnv : Bool :=
  env.devMode.any (fun v => ["1", "true", "yes"].contains (lower v)) ||
    env.appEnv.any fun v => lower v == "development"

def isEvidentStubJsonToken (bytes : List UInt8) : Bool :=
  (fromUtf8 bytes).any (containsText "\"stub\":true")

def stubSha256FromTokenBytes (token : List UInt8) : Option String := do
  let text ← fromUtf8 token
  let payload ← env.fromStr text
  let sha256 ← payload.get? "sha256"
  sha256.asStr

def validateStubToken (tokenB64 bundleHash : String) : Bool :=
  match env.base64Decode (trim tokenB64) with
  | none => false
  | some bytes =>
    (fromUtf8 bytes).any fun text => containsText "\"stub\":true" text && containsText bundleHash text

/-- `verify_tsa_attestation`, of an attestation whose signature is said to be valid. -/
def verifyTsaAttestation (tsrHash rawTokenB64 bundleHash : String) : Bool :=
  if tsrHash ≠ bundleHash then false
  else if rawTokenB64 = "" then false
  else validateStubToken env rawTokenB64 bundleHash

def verifyStubToken (token : List UInt8) (merkleRootHex : String) : TsaVerificationOutcome :=
  if stubsAllowedInCurrentEnv env then
    match stubSha256FromTokenBytes env token with
    | none => .asFailed .verificationFailed
    | some tsrHash =>
      if verifyTsaAttestation env tsrHash (env.base64Encode token) merkleRootHex then .asVerified
      else .asFailed .verificationFailed
  else .asFailed .verificationFailed

/-- `freetsa_trust_path_options_from_env`: an empty path is none. -/
def trustPath (value : Option String) : Option String := (value.map trim).filter (· ≠ "")

/-- `check_tsa_configuration`, with the paths it has checked. -/
def checkTsaConfiguration (caPath untrustedPath : Option String) :
    Except TsaConfigError (String × String) :=
  match caPath with
  | none => .error .missingCaPath
  | some ca =>
    if !env.isFile ca then .error (.caNotFound ca)
    else
      match untrustedPath with
      | none => .error .missingTsaCertPath
      | some untrusted =>
        if !env.isFile untrusted then .error (.tsaCertNotFound untrusted) else .ok (ca, untrusted)

def reasonFromConfigError : TsaConfigError → TsaVerificationReason
  | .missingCaPath | .missingTsaCertPath => .trustMaterialMissing
  | .caNotFound _ | .tsaCertNotFound _ => .trustMaterialInvalid

def verifyRfc3161Token (token : List UInt8) (merkleRootHex : String) : TsaVerificationOutcome :=
  match hexDecode merkleRootHex with
  | none => .asFailed .verificationFailed
  | some hash =>
    if hash.length ≠ 32 then .asFailed .verificationFailed
    else if !env.parseAndValidateTsr token hash then .asFailed .verificationFailed
    else
      match checkTsaConfiguration env (trustPath env.caCertPath) (trustPath env.untrustedCertPath) with
      | .error e => .asUnavailable (reasonFromConfigError e)
      | .ok (ca, untrusted) =>
        if env.verifyTsrBytes token hash ca untrusted then .asVerified
        else .asFailed .verificationFailed

def verifyTokenFresh (token : List UInt8) (merkleRootHex : String) : TsaVerificationOutcome :=
  if isEvidentStubJsonToken token then verifyStubToken env token merkleRootHex
  else verifyRfc3161Token env token merkleRootHex

/-- **A fresh verification is never one from the cache.** -/
theorem verifyTokenFresh_status (token : List UInt8) (merkleRootHex : String) :
    (verifyTokenFresh env token merkleRootHex).status ≠ .verifiedCached := by
  unfold verifyTokenFresh verifyStubToken verifyRfc3161Token
  split_ifs
  · split
    · exact TsaVerificationStatus.noConfusion
    · split_ifs <;> exact TsaVerificationStatus.noConfusion
  · exact TsaVerificationStatus.noConfusion
  · split
    · exact TsaVerificationStatus.noConfusion
    · split_ifs
      · exact TsaVerificationStatus.noConfusion
      · exact TsaVerificationStatus.noConfusion
      · split
        · exact TsaVerificationStatus.noConfusion
        · split_ifs <;> exact TsaVerificationStatus.noConfusion

end Fresh

/-! ## Rows and steps -/

structure CachedTsaVerification where
  verificationStatus : Option String
  tokenSha256 : Option String
  deriving DecidableEq

/-- A row of `tsa_tokens`; its key is the chain and the root. -/
structure TsaRow where
  chainId : Uuid
  merkleRoot : String
  tsaToken : List UInt8
  cache : CachedTsaVerification
  deriving DecidableEq

/-- A fresh verification, for a row. -/
structure Verification where
  chainId : Uuid
  merkleRoot : String
  token : List UInt8
  outcome : TsaVerificationOutcome
  deriving DecidableEq

structure Shared where
  rows : List TsaRow
  verifications : List Verification

inductive Call where
  /-- `SELECT … FROM tsa_tokens WHERE chain_id = $1 AND merkle_root = $2`. -/
  | select (chainId : Uuid) (merkleRoot : String)
  /-- `verify_token_fresh`, for a row. -/
  | verify (chainId : Uuid) (merkleRoot : String) (token : List UInt8)
  /-- The conditional `UPDATE` of the cache columns. -/
  | updateCache (chainId : Uuid) (merkleRoot tokenSha status : String)
  /-- A replacement of the token of a row. -/
  | replaceToken (chainId : Uuid) (merkleRoot : String) (token : List UInt8)
  /-- `INSERT INTO tsa_tokens … ON CONFLICT (chain_id, merkle_root) DO NOTHING`. -/
  | insertToken (chainId : Uuid) (merkleRoot : String) (token : List UInt8)

def Call.Answer : Call → Type
  | select _ _ => Except Unit (Option TsaRow)
  | verify _ _ _ => TsaVerificationOutcome
  | _ => Except Unit Unit

/-- Whether a statement fails, and what a verification finds. -/
structure Choice where
  fails : Bool
  env : TsaEnv

/-- The row of a key. -/
def TsaRow.Has (row : TsaRow) (chainId : Uuid) (merkleRoot : String) : Bool :=
  row.chainId == chainId && row.merkleRoot == merkleRoot

/-- `SET verification_status = $1, token_sha256 = $2 … WHERE verification_status IS NULL OR token_sha256
IS DISTINCT FROM $2`. -/
def TsaRow.refresh (chainId : Uuid) (merkleRoot tokenSha status : String) (row : TsaRow) : TsaRow :=
  if row.Has chainId merkleRoot &&
      (row.cache.verificationStatus == none || row.cache.tokenSha256 != some tokenSha) then
    { row with cache := ⟨some status, some tokenSha⟩ }
  else row

/-- The row with another token; the cache columns stay. -/
def TsaRow.replace (chainId : Uuid) (merkleRoot : String) (token : List UInt8) (row : TsaRow) : TsaRow :=
  if row.Has chainId merkleRoot then { row with tsaToken := token } else row

/-- A statement that may fail; then it changes nothing. -/
def statement (c : Choice) {α : Type} (g : Shared) (answer : α) (g' : Shared) :
    Option (Except Unit α × Shared × Unit) :=
  if c.fails then some (.error (), g, ()) else some (.ok answer, g', ())

def exec (_ : Nat) (c : Choice) : (q : Call) → Shared → Unit → Option (q.Answer × Shared × Unit)
  | .select chainId merkleRoot, g, _ =>
    statement c g (g.rows.find? (·.Has chainId merkleRoot)) g
  | .verify chainId merkleRoot token, g, _ =>
    let outcome := verifyTokenFresh c.env token merkleRoot
    some (outcome, { g with
      verifications := g.verifications ++ [⟨chainId, merkleRoot, token, outcome⟩] }, ())
  | .updateCache chainId merkleRoot tokenSha status, g, _ =>
    statement c g () { g with rows := g.rows.map (·.refresh chainId merkleRoot tokenSha status) }
  | .replaceToken chainId merkleRoot token, g, _ =>
    statement c g () { g with rows := g.rows.map (·.replace chainId merkleRoot token) }
  | .insertToken chainId merkleRoot token, g, _ =>
    statement c g () (if g.rows.any (·.Has chainId merkleRoot) then g
      else { g with rows := g.rows ++ [⟨chainId, merkleRoot, token, ⟨none, none⟩⟩] })

/-- The system of the readers and the others. -/
def system : System Call.Answer Shared Unit Choice := ⟨exec⟩

/-! ## Programs -/

abbrev Program (α : Type) := Prog Call.Answer α

section Read

variable (sha : Sha256)

def tokenSha256Hex (token : List UInt8) : String := sha256Hex sha token

def cachedStatusIfFresh (cache : CachedTsaVerification) (currentTokenSha : String) :
    Option TsaVerificationStatus := do
  let status ← cache.verificationStatus
  let cachedSha ← cache.tokenSha256
  if cachedSha ≠ currentTokenSha then none
  else if status = "verified" then some .verifiedCached
  else none

def persistVerificationCache (chainId : Uuid) (merkleRoot tokenSha : String)
    (outcome : TsaVerificationStatus) : Program (Except Unit Unit) :=
  match outcome.cacheValue with
  | none => pure (.ok ())
  | some status => Prog.call (Call.updateCache chainId merkleRoot tokenSha status)

def resolveAndCacheTsaVerification (chainId : Uuid) (merkleRoot : String) (token : List UInt8)
    (cache : CachedTsaVerification) : Program (Except Unit TsaVerificationOutcome) :=
  let currentSha := tokenSha256Hex sha token
  match cachedStatusIfFresh cache currentSha with
  | some cached => pure (.ok ⟨cached, none⟩)
  | none => do
    let outcome ← Prog.call (Call.verify chainId merkleRoot token)
    let persisted ← persistVerificationCache chainId merkleRoot currentSha outcome.status
    pure (persisted.map fun _ => outcome)

/-- The part of `resolve_proof_state` about the time stamp: the row that was loaded, and the outcome. -/
def resolveTsa (chainId : Uuid) (merkleRoot : String) :
    Program (Except Unit (Option (TsaRow × TsaVerificationOutcome))) := do
  match ← (Prog.call (Call.select chainId merkleRoot) : Program (Except Unit (Option TsaRow))) with
  | .error _ => pure (.error ())
  | .ok none => pure (.ok none)
  | .ok (some row) =>
    let outcome ← resolveAndCacheTsaVerification sha chainId merkleRoot row.tsaToken row.cache
    pure (outcome.map fun outcome => some (row, outcome))

inductive Request where
  | read (chainId : Uuid) (merkleRoot : String)
  | replace (chainId : Uuid) (merkleRoot : String) (token : List UInt8)
  | stamp (chainId : Uuid) (merkleRoot : String) (token : List UInt8)
  deriving DecidableEq

inductive Reply where
  | read (result : Except Unit (Option (TsaRow × TsaVerificationOutcome)))
  | done (result : Except Unit Unit)
  deriving DecidableEq

def Request.run : Request → Program Reply
  | read chainId merkleRoot => Reply.read <$> resolveTsa sha chainId merkleRoot
  | replace chainId merkleRoot token =>
    Reply.done <$> (Prog.call (Call.replaceToken chainId merkleRoot token) : Program (Except Unit Unit))
  | stamp chainId merkleRoot token =>
    Reply.done <$> (Prog.call (Call.insertToken chainId merkleRoot token) : Program (Except Unit Unit))

abbrev TsaConfig := Config Call.Answer Shared Unit Reply

/-- Any number of requests over some rows; none has begun, and nothing was verified. -/
def start (requests : Nat → Request) (rows : List TsaRow) : TsaConfig :=
  ⟨⟨rows, []⟩, fun p => ((requests p).run sha, ())⟩

end Read

/-! ## What the cache goes back to -/

section Soundness

variable (sha : Sha256) (T : Set (List UInt8))

/-- A token with this digest was verified for the chain and the root. -/
def Backed (chainId : Uuid) (merkleRoot tokenSha : String) (verifications : List Verification) : Prop :=
  ∃ v ∈ verifications, v.chainId = chainId ∧ v.merkleRoot = merkleRoot ∧
    tokenSha256Hex sha v.token = tokenSha ∧ v.outcome.status = .verified

/-- A cached `verified` of a row is backed. -/
def TsaRow.Sound (row : TsaRow) (verifications : List Verification) : Prop :=
  row.cache.verificationStatus = some "verified" → ∀ tokenSha,
    row.cache.tokenSha256 = some tokenSha →
      Backed sha row.chainId row.merkleRoot tokenSha verifications

/-- **The cache is sound**; all tokens are from `T`. -/
structure Sound (g : Shared) : Prop where
  rows : ∀ row ∈ g.rows, row.Sound sha g.verifications
  tokens : ∀ row ∈ g.rows, row.tsaToken ∈ T
  verified : ∀ v ∈ g.verifications, v.token ∈ T

/-- Between the steps of a reader the others verify, and change the rows. -/
def discipline : Discipline Shared where
  Inv := Sound sha T
  Rely _ g g' := g.verifications <+: g'.verifications
  refl _ _ := List.prefix_refl _
  trans h h' := h.trans h'

variable {sha T} {p : Nat} {chainId : Uuid} {merkleRoot tokenSha status : String}
  {token : List UInt8} {row : TsaRow} {verifications verifications' : List Verification}
  {g g' : Shared}

theorem Backed.mono (h : Backed sha chainId merkleRoot tokenSha verifications)
    (hp : verifications <+: verifications') :
    Backed sha chainId merkleRoot tokenSha verifications' := by
  obtain ⟨v, hmem, hv⟩ := h
  exact ⟨v, hp.subset hmem, hv⟩

theorem TsaRow.Sound.mono (h : row.Sound sha verifications) (hp : verifications <+: verifications') :
    row.Sound sha verifications' :=
  fun hstatus tokenSha htoken => (h hstatus tokenSha htoken).mono hp

theorem has_iff : row.Has chainId merkleRoot = true ↔
    row.chainId = chainId ∧ row.merkleRoot = merkleRoot := by
  simp [TsaRow.Has]

/-- Other rows, with as many verifications. -/
theorem Sound.rows_map (hs : Sound sha T g) (f : TsaRow → TsaRow)
    (hsound : ∀ row ∈ g.rows, (f row).Sound sha g.verifications)
    (htoken : ∀ row ∈ g.rows, (f row).tsaToken ∈ T) : Sound sha T { g with rows := g.rows.map f } := by
  refine ⟨fun row hmem => ?_, fun row hmem => ?_, hs.verified⟩
  · obtain ⟨old, hold, rfl⟩ := List.mem_map.mp hmem
    exact hsound old hold
  · obtain ⟨old, hold, rfl⟩ := List.mem_map.mp hmem
    exact htoken old hold

/-- **A late write is harmless**: it writes what was verified for the digest that it writes. -/
theorem sound_refresh (hs : Sound sha T g)
    (hbacked : status = "verified" → Backed sha chainId merkleRoot tokenSha g.verifications) :
    Sound sha T { g with rows := g.rows.map (·.refresh chainId merkleRoot tokenSha status) } := by
  refine hs.rows_map _ (fun row hmem => ?_) fun row hmem => ?_
  · unfold TsaRow.refresh
    split_ifs with h
    · rw [Bool.and_eq_true, has_iff] at h
      obtain ⟨⟨rfl, rfl⟩, -⟩ := h
      intro hstatus tokenSha' htoken
      obtain rfl := Option.some.inj htoken
      exact hbacked (Option.some.inj hstatus)
    · exact hs.rows row hmem
  · unfold TsaRow.refresh
    split_ifs
    · exact hs.tokens row hmem
    · exact hs.tokens row hmem

theorem sound_replace (hs : Sound sha T g) (htoken : token ∈ T) :
    Sound sha T { g with rows := g.rows.map (·.replace chainId merkleRoot token) } := by
  refine hs.rows_map _ (fun row hmem => ?_) fun row hmem => ?_
  · unfold TsaRow.replace
    split_ifs
    · exact hs.rows row hmem
    · exact hs.rows row hmem
  · unfold TsaRow.replace
    split_ifs
    · exact htoken
    · exact hs.tokens row hmem

theorem sound_insert (hs : Sound sha T g) (htoken : token ∈ T) :
    Sound sha T { g with rows := g.rows ++ [⟨chainId, merkleRoot, token, ⟨none, none⟩⟩] } := by
  refine ⟨fun row hmem => ?_, fun row hmem => ?_, hs.verified⟩
  · rcases List.mem_append.mp hmem with hmem | hmem
    · exact hs.rows row hmem
    · obtain rfl := List.mem_singleton.mp hmem
      exact fun h => absurd h (by simp)
  · rcases List.mem_append.mp hmem with hmem | hmem
    · exact hs.tokens row hmem
    · obtain rfl := List.mem_singleton.mp hmem
      exact htoken

theorem sound_verify {v : Verification} (hs : Sound sha T g) (htoken : v.token ∈ T) :
    Sound sha T { g with verifications := g.verifications ++ [v] } := by
  refine ⟨fun row hmem => (hs.rows row hmem).mono (List.prefix_append _ _), hs.tokens,
    fun w hmem => ?_⟩
  rcases List.mem_append.mp hmem with hmem | hmem
  · exact hs.verified w hmem
  · obtain rfl := List.mem_singleton.mp hmem
    exact htoken

end Soundness

/-! ## Readers in any interleaving -/

section Readers

variable {sha : Sha256} {T : Set (List UInt8)} {p : Nat} {chainId : Uuid} {merkleRoot : String}
  {token : List UInt8} {α : Type}

variable (sha T p) in
/-- Under the discipline, in every run. -/
abbrev Meets (Pre : Unit → Shared → Prop) (prog : Program α) (Post : α → Unit → Shared → Prop) : Prop :=
  Triple system (fun _ _ _ => True) (discipline sha T) p Pre prog Post

/-- A fact about what was verified stays. -/
theorem stable_verified {P : List Verification → Prop}
    (hP : ∀ vs vs', vs <+: vs' → P vs → P vs') :
    Stable (discipline sha T) p fun (_ : Unit) g => P g.verifications :=
  fun _ _ _ h _ hr _ => hP _ _ hr h

theorem stable_true : Stable (discipline sha T) p fun (_ : Unit) _ => True :=
  fun _ _ _ _ _ _ _ => trivial

/-- A step that changes no verification. -/
theorem keeps_rows {g g' : Shared} (hs : Sound sha T g') (hv : g'.verifications = g.verifications) :
    (discipline sha T).Keeps p g g' :=
  ⟨hs, fun _ _ => Eq.subst (motive := fun vs => g.verifications <+: vs) hv.symm
    (List.prefix_refl _)⟩

/-- The row that a reader has loaded. -/
def Loaded (sha : Sha256) (T : Set (List UInt8)) (chainId : Uuid) (merkleRoot : String) (row : TsaRow)
    (verifications : List Verification) : Prop :=
  row.Has chainId merkleRoot = true ∧ row.tsaToken ∈ T ∧ row.Sound sha verifications

theorem Loaded.mono {row : TsaRow} {vs vs' : List Verification} (hp : vs <+: vs')
    (h : Loaded sha T chainId merkleRoot row vs) : Loaded sha T chainId merkleRoot row vs' :=
  ⟨h.1, h.2.1, h.2.2.mono hp⟩

/-- What a `SELECT` has found. -/
def Found (sha : Sha256) (T : Set (List UInt8)) (chainId : Uuid) (merkleRoot : String)
    (r : Except Unit (Option TsaRow)) (verifications : List Verification) : Prop :=
  ∀ row, r = .ok (some row) → Loaded sha T chainId merkleRoot row verifications

theorem triple_select : Meets sha T p (fun _ _ => True)
    (Prog.call (Call.select chainId merkleRoot))
      fun r _ g => Found sha T chainId merkleRoot r g.verifications := by
  refine triple_call stable_true (fun r => stable_verified fun vs vs' hp h row hr =>
    (h row hr).mono hp) ?_
  rintro l g c r g' l' - hi - he
  have he' : statement c g (g.rows.find? (·.Has chainId merkleRoot)) g = some (r, g', l') := he
  unfold statement at he'
  split_ifs at he'
  · obtain ⟨rfl, rfl, -⟩ := he'
    exact ⟨keeps_rows hi rfl, fun row hr => absurd hr (by simp)⟩
  · obtain ⟨rfl, rfl, -⟩ := he'
    refine ⟨keeps_rows hi rfl, fun row hr => ?_⟩
    have hfind := Except.ok.inj hr
    have hmem := List.mem_of_find?_eq_some hfind
    exact ⟨by simpa using List.find?_some hfind, hi.tokens row hmem, hi.rows row hmem⟩

/-- A fresh verification is on record. -/
def Recorded (chainId : Uuid) (merkleRoot : String) (token : List UInt8)
    (outcome : TsaVerificationOutcome) (verifications : List Verification) : Prop :=
  outcome.status ≠ .verifiedCached ∧ ⟨chainId, merkleRoot, token, outcome⟩ ∈ verifications

theorem triple_verify (htoken : token ∈ T) : Meets sha T p (fun _ _ => True)
    (Prog.call (Call.verify chainId merkleRoot token))
      fun outcome _ g => Recorded chainId merkleRoot token outcome g.verifications := by
  refine triple_call stable_true (fun r => stable_verified fun vs vs' hp h =>
    ⟨h.1, hp.subset h.2⟩) ?_
  rintro l g c r g' l' - hi - he
  obtain ⟨rfl, rfl, -⟩ := he
  exact ⟨⟨sound_verify hi htoken, fun _ _ => List.prefix_append _ _⟩,
    verifyTokenFresh_status c.env token merkleRoot, List.mem_append_right _ (by simp)⟩

/-- A statement that keeps the cache sound. -/
theorem triple_statement {q : Call} {P : List Verification → Prop} {f : Shared → Shared}
    (hP : ∀ vs vs', vs <+: vs' → P vs → P vs')
    (hsound : ∀ g, Sound sha T g → P g.verifications → Sound sha T (f g))
    (hverified : ∀ g, (f g).verifications = g.verifications)
    (hexec : ∀ c g, ∀ r g' l', exec p c q g () = some (r, g', l') → g' = g ∨ g' = f g) :
    Meets sha T p (fun _ g => P g.verifications) (Prog.call q) fun _ _ g => P g.verifications := by
  refine triple_call (stable_verified hP) (fun r => stable_verified hP) ?_
  rintro l g c r g' l' hp hi - he
  rcases hexec c g r g' l' he with rfl | rfl
  · exact ⟨keeps_rows hi rfl, hp⟩
  · exact ⟨keeps_rows (hsound g hi hp) (hverified g), by rw [hverified]; exact hp⟩

theorem exec_statement {c : Choice} {g g' : Shared} {a : α} {r : Except Unit α} {l' : Unit}
    {f : Shared} (h : statement c g a f = some (r, g', l')) : g' = g ∨ g' = f := by
  unfold statement at h
  split_ifs at h
  · obtain ⟨-, rfl, -⟩ := h
    exact Or.inl rfl
  · obtain ⟨-, rfl, -⟩ := h
    exact Or.inr rfl

/-- The write of an outcome that was found. -/
theorem triple_persist {outcome : TsaVerificationOutcome} :
    Meets sha T p (fun _ g => Recorded chainId merkleRoot token outcome g.verifications)
      (persistVerificationCache chainId merkleRoot (tokenSha256Hex sha token) outcome.status)
      fun _ _ _ => True := by
  have hmono : ∀ vs vs' : List Verification, vs <+: vs' →
      Recorded chainId merkleRoot token outcome vs → Recorded chainId merkleRoot token outcome vs' :=
    fun vs vs' hp h => ⟨h.1, hp.subset h.2⟩
  unfold persistVerificationCache
  cases hvalue : outcome.status.cacheValue with
  | none => exact triple_ret (stable_verified hmono) fun _ _ _ _ => trivial
  | some status =>
    refine triple_post (triple_statement (P := Recorded chainId merkleRoot token outcome)
      (f := fun g => { g with
        rows := g.rows.map (·.refresh chainId merkleRoot (tokenSha256Hex sha token) status) }) hmono
      (fun g hs hrec => sound_refresh hs ?_) (fun _ => rfl) fun c g r g' l' he => exec_statement he)
      fun _ _ _ _ => trivial
    rintro rfl
    refine ⟨⟨chainId, merkleRoot, token, outcome⟩, hrec.2, rfl, rfl, rfl, ?_⟩
    have hcached := hrec.1
    cases hstatus : outcome.status with
    | verified => rfl
    | verifiedCached => exact absurd hstatus hcached
    | failed | unavailable =>
      rw [hstatus] at hvalue
      exact absurd hvalue (by decide)

/-- What an answer of `resolve_tsa` is owed to. -/
def Answered (chainId : Uuid) (merkleRoot : String) (r : Except Unit (Option (TsaRow ×
    TsaVerificationOutcome))) (verifications : List Verification) : Prop :=
  ∀ row outcome, r = .ok (some (row, outcome)) → outcome.status = .verifiedCached →
    ∃ v ∈ verifications, v.chainId = chainId ∧ v.merkleRoot = merkleRoot ∧ v.token = row.tsaToken ∧
      v.outcome.status = .verified

theorem Answered.mono {r : Except Unit (Option (TsaRow × TsaVerificationOutcome))}
    {vs vs' : List Verification} (hp : vs <+: vs') (h : Answered chainId merkleRoot r vs) :
    Answered chainId merkleRoot r vs' := by
  intro row outcome hr hstatus
  obtain ⟨v, hmem, hv⟩ := h row outcome hr hstatus
  exact ⟨v, hp.subset hmem, hv⟩

theorem cachedStatusIfFresh_some {cache : CachedTsaVerification} {current : String}
    {status : TsaVerificationStatus} (h : cachedStatusIfFresh cache current = some status) :
    status = .verifiedCached ∧ cache.verificationStatus = some "verified" ∧
      cache.tokenSha256 = some current := by
  unfold cachedStatusIfFresh at h
  obtain ⟨stored, hstored, h⟩ := Option.bind_eq_some_iff.mp h
  obtain ⟨cachedSha, hsha, h⟩ := Option.bind_eq_some_iff.mp h
  split_ifs at h with hfresh hverified
  rw [hstored, hsha, hverified, Decidable.not_not.mp hfresh]
  exact ⟨(Option.some.inj h).symm, rfl, rfl⟩

/-- **A cached status goes back to a verification of this very token.** -/
theorem Loaded.backed (hT : Set.InjOn sha T) {row : TsaRow} {g : Shared}
    (hs : Sound sha T g) (h : Loaded sha T chainId merkleRoot row g.verifications)
    {status : TsaVerificationStatus}
    (hcached : cachedStatusIfFresh row.cache (tokenSha256Hex sha row.tsaToken) = some status) :
    ∃ v ∈ g.verifications, v.chainId = chainId ∧ v.merkleRoot = merkleRoot ∧
      v.token = row.tsaToken ∧ v.outcome.status = .verified := by
  obtain ⟨hhas, htoken, hrow⟩ := h
  obtain ⟨rfl, rfl⟩ := has_iff.mp hhas
  obtain ⟨-, hstatus, hdigest⟩ := cachedStatusIfFresh_some hcached
  obtain ⟨v, hmem, hc, hr, hsame, hv⟩ := hrow hstatus _ hdigest
  exact ⟨v, hmem, hc, hr, hT (hs.verified v hmem) htoken (sha256Hex_inj hsame), hv⟩

/-- `resolve_and_cache_tsa_verification`, for a row that was loaded. -/
theorem triple_resolve (hT : Set.InjOn sha T) {row : TsaRow} :
    Meets sha T p (fun _ g => Loaded sha T chainId merkleRoot row g.verifications)
      (resolveAndCacheTsaVerification sha chainId merkleRoot row.tsaToken row.cache)
      fun r _ g => Answered chainId merkleRoot (r.map fun outcome => some (row, outcome))
        g.verifications := by
  unfold resolveAndCacheTsaVerification
  dsimp only
  cases hcached : cachedStatusIfFresh row.cache (tokenSha256Hex sha row.tsaToken) with
  | some status =>
    refine triple_ret (stable_verified fun _ _ => Loaded.mono) fun l g h hi => ?_
    intro row' outcome hr _
    obtain ⟨rfl, -⟩ := Prod.mk.inj (Option.some.inj (Except.ok.inj hr))
    exact h.backed hT hi hcached
  | none =>
    intro l g hl hi
    refine triple_bind (triple_verify hl.2.1) (fun outcome => ?_) l g trivial hi
    have hfresh : Meets sha T p
        (fun _ g => Recorded chainId merkleRoot row.tsaToken outcome g.verifications)
        (persistVerificationCache chainId merkleRoot (tokenSha256Hex sha row.tsaToken) outcome.status)
        fun _ _ _ => outcome.status ≠ .verifiedCached := fun l g hrec hi =>
      triple_post triple_persist (fun _ _ _ _ => hrec.1) l g hrec hi
    refine triple_bind hfresh fun persisted => triple_ret (fun _ _ _ h _ _ _ => h) ?_
    rintro l g hne - row' outcome' hr hstatus
    cases persisted with
    | error e => exact absurd hr (by simp [Except.map])
    | ok u =>
      obtain ⟨-, rfl⟩ := Prod.mk.inj (Option.some.inj (Except.ok.inj hr))
      exact absurd hstatus hne

/-- **A reader**, among any others. -/
theorem triple_resolveTsa (hT : Set.InjOn sha T) :
    Meets sha T p (fun _ _ => True) (resolveTsa sha chainId merkleRoot)
      fun r _ g => Answered chainId merkleRoot r g.verifications := by
  refine triple_bind triple_select fun r => ?_
  have hst : Stable (discipline sha T) p fun (_ : Unit) g =>
      Found sha T chainId merkleRoot r g.verifications :=
    stable_verified fun vs vs' hp h row hr => (h row hr).mono hp
  cases r with
  | error e => exact triple_ret hst fun _ _ _ _ _ _ h => absurd h (by simp)
  | ok found =>
    cases found with
    | none => exact triple_ret hst fun _ _ _ _ _ _ h => absurd h (by simp)
    | some row =>
      exact triple_bind (triple_pre (fun _ _ h _ => h row rfl) (triple_resolve hT)) fun r =>
        triple_ret (stable_verified fun _ _ => Answered.mono) fun _ _ h _ => h

/-- What a reply is owed to. -/
def ReplyOk (request : Request) (reply : Reply) (verifications : List Verification) : Prop :=
  ∀ chainId merkleRoot r, request = .read chainId merkleRoot → reply = .read r →
    Answered chainId merkleRoot r verifications

theorem triple_run (hT : Set.InjOn sha T) {request : Request}
    (htokens : ∀ chainId merkleRoot token, request = .replace chainId merkleRoot token ∨
      request = .stamp chainId merkleRoot token → token ∈ T) :
    Meets sha T p (fun _ _ => True) (request.run sha)
      fun reply _ g => ReplyOk request reply g.verifications := by
  cases request with
  | read chainId merkleRoot =>
    refine triple_bind (triple_resolveTsa hT) fun r => triple_ret
      (stable_verified fun _ _ => Answered.mono) fun l g h _ => ?_
    intro c m r' hreq hr
    obtain ⟨rfl, rfl⟩ := Request.read.inj hreq
    obtain rfl := Reply.read.inj hr
    exact h
  | replace chainId merkleRoot token =>
    refine triple_bind (triple_statement (P := fun _ => True)
      (f := fun g => { g with rows := g.rows.map (·.replace chainId merkleRoot token) })
      (fun _ _ _ h => h) (fun g hs _ => sound_replace hs (htokens _ _ _ (Or.inl rfl)))
      (fun _ => rfl) fun c g r g' l' he => exec_statement he) fun r => triple_ret stable_true ?_
    exact fun _ _ _ _ _ _ _ h => Request.noConfusion h
  | stamp chainId merkleRoot token =>
    refine triple_bind (triple_statement (P := fun _ => True)
      (f := fun g => if g.rows.any (·.Has chainId merkleRoot) then g
        else { g with rows := g.rows ++ [⟨chainId, merkleRoot, token, ⟨none, none⟩⟩] })
      (fun _ _ _ h => h) (fun g hs _ => ?_) (fun g => ?_) fun c g r g' l' he => exec_statement he)
      fun r => triple_ret stable_true fun _ _ _ _ _ _ _ h => Request.noConfusion h
    · split_ifs
      · exact hs
      · exact sound_insert hs (htokens _ _ _ (Or.inr rfl))
    · split_ifs <;> rfl

end Readers

/-- **The cache is sound**: every `verified_cached` was preceded by a fresh verification of the token of
the row that found it verified, for the same chain and root. -/
theorem cache_sound (sha : Sha256) (requests : Nat → Request) (rows : List TsaRow)
    (T : Set (List UInt8)) (hT : Set.InjOn sha T)
    (hrows : ∀ row ∈ rows, row.tsaToken ∈ T ∧ row.cache.verificationStatus = none)
    (htokens : ∀ p chainId merkleRoot token, requests p = .replace chainId merkleRoot token ∨
      requests p = .stamp chainId merkleRoot token → token ∈ T)
    {y : TsaConfig} (hy : Reach system (fun _ _ _ => True) (start sha requests rows) y)
    {p : Nat} {chainId : Uuid} {merkleRoot : String} {row : TsaRow} {outcome : TsaVerificationOutcome}
    (hreq : requests p = .read chainId merkleRoot)
    (hanswer : (y.procs p).1.result = some (.read (.ok (some (row, outcome)))))
    (hcached : outcome.status = .verifiedCached) :
    ∃ v ∈ y.shared.verifications, v.chainId = chainId ∧ v.merkleRoot = merkleRoot ∧
      v.token = row.tsaToken ∧ v.outcome.status = .verified := by
  have hinit : (discipline sha T).Inv (start sha requests rows).shared := by
    refine ⟨fun row hmem hstatus => ?_, fun row hmem => (hrows row hmem).1, by simp [start]⟩
    rw [(hrows row hmem).2] at hstatus
    exact absurd hstatus (by simp)
  have hsafe : ∀ p, Safe system (fun _ _ _ => True) (discipline sha T) p
      (fun reply _ g => ReplyOk (requests p) reply g.verifications)
      ((start sha requests rows).procs p).1 ((start sha requests rows).procs p).2
      (start sha requests rows).shared :=
    fun p => triple_run hT (htokens p) () _ trivial hinit
  obtain ⟨hinv, hsafe⟩ := reach_safe hinit hsafe hy
  exact (hsafe p).result hinv hanswer chainId merkleRoot _ hreq rfl row outcome rfl hcached

/-! ### A stub token, verified once -/

def sampleRoot : String := "aaaaaaaaaaaaaaaaaaaaaaaaaaaaaaaaaaaaaaaaaaaaaaaaaaaaaaaaaaaaaaaa"

def sampleTokenText : String := "\x7b\"sha256\":\"" ++ sampleRoot ++ "\",\"stub\":true\x7d"

/-- A development environment that reads this token. -/
def sampleEnv : TsaEnv where
  devMode := some "1"
  appEnv := none
  caCertPath := none
  untrustedCertPath := none
  isFile _ := false
  fromStr text :=
    if text = sampleTokenText then
      some (.object [("sha256", .string sampleRoot), ("stub", .bool true)])
    else none
  base64Encode _ :=
    "eyJzaGEyNTYiOiJhYWFhYWFhYWFhYWFhYWFhYWFhYWFhYWFhYWFhYWFhYWFhYWFhYWFhYWFhYWFhYWFhYWFhYWFhYWFhYWFhYWFhIiwic3R1YiI6dHJ1ZX0="
  base64Decode _ := some (asBytes sampleTokenText)
  parseAndValidateTsr _ _ := false
  verifyTsrBytes _ _ _ _ := false

def sampleRow : TsaRow := ⟨Uuid.small 1, sampleRoot, asBytes sampleTokenText, ⟨none, none⟩⟩

/-- The second reader is answered from the cache. -/
theorem cache_sound_sampleRun : ∃ y : TsaConfig,
    (y.procs 1).1.result.isSome = true ∧
      ∃ v ∈ y.shared.verifications, v.chainId = Uuid.small 1 ∧ v.merkleRoot = sampleRoot ∧
        v.token = asBytes sampleTokenText ∧ v.outcome.status = .verified := by
  have hrun : ((start sampleSha (fun _ => .read (Uuid.small 1) sampleRoot) [sampleRow]).run system
      (fun _ _ _ => True) (List.replicate 3 (0, ⟨false, sampleEnv⟩) ++ [(1, ⟨false, sampleEnv⟩)])).map
        (fun y => (y.procs 1).1.result) =
      some (some (.read (.ok (some ({ sampleRow with
        cache := ⟨some "verified", some (sha256Hex sampleSha (asBytes sampleTokenText))⟩ },
        ⟨.verifiedCached, none⟩))))) := by decide +kernel
  obtain ⟨y, hy, hanswer⟩ := Reach.exists_of_run hrun
  refine ⟨y, by rw [hanswer]; rfl, ?_⟩
  exact cache_sound sampleSha (fun _ => .read (Uuid.small 1) sampleRoot) [sampleRow]
    {asBytes sampleTokenText} (Set.injOn_singleton _ _) (by simp [sampleRow]) (by simp) hy rfl hanswer rfl

end EvidentLedger.Tsa
