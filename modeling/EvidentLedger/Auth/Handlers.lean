import EvidentLedger.Auth.Pairing
import EvidentLedger.Lib.Growth

/-!
# Accounts, sessions and desktop tokens

The handlers of registration, login and logout (`src/auth/web_auth.rs`, `src/auth/web_me.rs`), of the
dashboard's desktop tokens (`src/api/dashboard_desktop.rs:57-90, 179-219`) and the authentication of
API requests (`src/auth/mod.rs:33-102`), with the services below them: `src/auth/session_store.rs`,
`src/service/accounts.rs`, `src/service/desktop_tokens.rs` and `src/middleware/session_auth.rs`.

* Every statement commits by itself, but for a registration, whose rows are local until its commit.
* A statement may fail, and then changes nothing. Clocks and random values are arbitrary.
* `Shared.trace` is what the statements did. No function reads it.
* Creating and revoking API keys is left to `ApiKeys`; the time of the last use, which nothing reads, is
  left out.
-/

namespace EvidentLedger.Auth

open Lib.Interleave Lib.Growth Lib.Text Lib.Percent
open EvidentLedger.ApiKeys (ApiKeyRow GeneratedApiKey)
open EvidentLedger.IdentityDashboard (splitOnce)

/-! ## What the handlers rest on -/

/-- Lower case, password hashes and timestamps as text, and the configuration. -/
structure Env where
  sha : Sha256
  /-- `str::to_lowercase`. -/
  toLowercase : String → String
  /-- `hash_password`, of a password and a salt. -/
  hashPassword : String → String → Option String
  /-- `verify_password`; none where the hash cannot be parsed. -/
  verifyPassword : String → String → Option Bool
  toRfc3339 : Int → String
  devMode : Bool

def MIN_PASSWORD_CHARS : Nat := 12

/-- `validate_password`. -/
def validatePassword (password : String) : Bool := MIN_PASSWORD_CHARS ≤ password.length

/-- `is_valid_email`. -/
def isValidEmail (email : String) : Bool :=
  let email := trim email
  if email.isEmpty || 254 < (asBytes email).length then false
  else
    match splitOnce '@' email with
    | none => false
    | some (localPart, domain) =>
      !localPart.isEmpty && !domain.isEmpty && domain.contains '.' && domain.head? != some '.' &&
        domain.getLast? != some '.'

def DEFAULT_TTL_DAYS : Int := 30

def secondsOfDays (days : Int) : Int := days * 24 * 60 * 60

/-! ## Tables -/

/-- A row of `tariff_plans`. -/
structure PlanRow where
  planId : Uuid
  name : String
  deriving DecidableEq

/-- A row of `accounts`. -/
structure AccountRow where
  accountId : Uuid
  email : String
  tariffPlanId : Uuid
  passwordHash : Option String
  subscriptionStatus : String
  createdAt : Int
  deriving DecidableEq

/-- A row of `sessions`. -/
structure SessionRow where
  id : Uuid
  accountId : Uuid
  tokenHash : String
  expiresAt : Int
  deriving DecidableEq

/-- `DesktopTokenRecord`. -/
structure DesktopTokenRecord where
  id : Uuid
  accountId : Uuid
  tokenHash : String
  createdAt : Int
  expiresAt : Int
  revokedAt : Option Int
  deriving DecidableEq

/-- What a statement did, with the number of the request. -/
inductive Event where
  | purged (now : Int)
  | rotated (p : Nat) (accountId : Uuid)
  | opened (p : Nat) (row : SessionRow)
  | closed (p : Nat) (tokenHash : String)
  | found (p : Nat) (row : SessionRow) (now : Int)
  | connected (p : Nat) (row : DesktopTokenRecord)
  | revoked (p : Nat) (accountId tokenId : Uuid)
  | passwordSet (p : Nat) (accountId : Uuid)
  deriving DecidableEq

structure Shared where
  plans : List PlanRow
  accounts : List AccountRow
  apiKeys : List ApiKeyRow
  sessions : List SessionRow
  desktopTokens : List DesktopTokenRecord
  trace : List Event

/-- The rows that a registration has inserted and not committed. -/
abbrev Local := Option AccountRow × Option ApiKeyRow

def Shared.log (g : Shared) (e : Event) : Shared := { g with trace := g.trace ++ [e] }

@[simp] theorem log_trace (g : Shared) (e : Event) : (g.log e).trace = g.trace ++ [e] := rfl

/-- `id = $1 AND account_id = $2 AND revoked_at IS NULL`. -/
def DesktopTokenRecord.isActive (id accountId : Uuid) (row : DesktopTokenRecord) : Bool :=
  row.id == id && row.accountId == accountId && row.revokedAt.isNone

/-- `SET revoked_at = now()`, on the rows of the condition. -/
def DesktopTokenRecord.revoke (id accountId : Uuid) (now : Int) (row : DesktopTokenRecord) :
    DesktopTokenRecord :=
  if row.isActive id accountId then { row with revokedAt := some now } else row

/-- `SET password_hash = $2`, `WHERE account_id = $1 AND password_hash IS NULL`. -/
def AccountRow.setPassword (accountId : Uuid) (passwordHash : String) (row : AccountRow) : AccountRow :=
  if row.accountId = accountId ∧ row.passwordHash = none then
    { row with passwordHash := some passwordHash }
  else row

/-! ## Statements -/

/-- How a statement ends, and what it finds outside the tables. -/
structure Choice where
  fails : Bool
  now : Int
  uuid : Uuid
  bytes16 : Bytes 16
  bytes32 : Bytes 32
  salt : String

inductive Sql where
  | emailExists (email : String)
  | selectFreePlan
  | insertAccount (accountId : Uuid) (email : String) (tariffPlanId : Uuid)
      (passwordHash : Option String)
  | insertApiKey (accountId : Uuid) (generated : GeneratedApiKey) (label : String)
  | commit
  | selectLogin (email : String)
  | selectProfile (accountId : Uuid)
  | setPassword (accountId : Uuid) (passwordHash : String)
  | hasPassword (accountId : Uuid)
  | cleanupExpiredSessions
  | deleteSessionsForAccount (accountId : Uuid)
  | insertSession (accountId : Uuid) (tokenHash : String) (expiresAt : Int)
  | deleteSession (tokenHash : String)
  | selectSession (tokenHash : String)
  | touchSession (id : Uuid)
  | selectApiKey (keyHash : String)
  | selectDesktopToken (tokenHash : String)
  | touchDesktopToken (id : Uuid)
  | insertDesktopToken (id accountId : Uuid) (tokenHash : String) (expiresAt : Int)
  | revokeDesktopToken (id accountId : Uuid)

def Sql.Res : Sql → Type
  | emailExists _ => Bool
  | selectFreePlan => Option PlanRow
  | insertAccount .. => Int
  | selectLogin _ | selectProfile _ => Option (AccountRow × PlanRow)
  | setPassword .. | revokeDesktopToken .. => Nat
  | hasPassword _ => Option Bool
  | selectSession _ => Option SessionRow
  | selectApiKey _ => Option ApiKeyRow
  | selectDesktopToken _ => Option DesktopTokenRecord
  | insertApiKey .. | commit | cleanupExpiredSessions | deleteSessionsForAccount _ | insertSession ..
  | deleteSession _ | touchSession _ | touchDesktopToken _ | insertDesktopToken .. => Unit

inductive Ask where
  | now
  | uuid
  | sessionBytes
  | tokenBytes
  | salt

def Ask.Ans : Ask → Type
  | now => Int
  | uuid => Uuid
  | sessionBytes => Bytes 32
  | tokenBytes => Bytes 16
  | salt => String

abbrev Answer := Call.Answer String Sql.Res Ask.Ans

/-- `accounts a JOIN tariff_plans tp ON tp.plan_id = a.tariff_plan_id`. -/
def withPlan (plans : List PlanRow) (row : AccountRow) : Option (AccountRow × PlanRow) :=
  (plans.find? fun plan => plan.planId = row.tariffPlanId).map fun plan => (row, plan)

/-- `COMMIT` of a registration. -/
def commitRows (g : Shared) : Local → Except String Unit × Shared
  | (none, _) => (.ok (), g)
  | (some row, key) =>
    if g.accounts.any (fun other => other.accountId = row.accountId ∨ other.email = row.email) ||
        key.any fun key => g.apiKeys.any fun other =>
          other.apiKeyId = key.apiKeyId ∨ other.keyHash = key.keyHash then
      (.error "duplicate key", g)
    else (.ok (), { g with accounts := g.accounts ++ [row], apiKeys := g.apiKeys ++ key.toList })

/-- A statement that does not fail for reasons of its own. -/
def Sql.exec (p : Nat) (c : Choice) :
    (s : Sql) → Shared → Local → Except String s.Res × Shared × Local
  | .emailExists email, g, l => (.ok (g.accounts.any fun row => row.email = email), g, l)
  | .selectFreePlan, g, l => (.ok (g.plans.find? fun plan => plan.name = "free"), g, l)
  | .insertAccount accountId email tariffPlanId passwordHash, g, _ =>
    (.ok c.now, g, (some ⟨accountId, email, tariffPlanId, passwordHash, "none", c.now⟩, none))
  | .insertApiKey accountId generated label, g, l =>
    (.ok (), g, (l.1,
      some ⟨c.uuid, accountId, generated.keyHash, generated.keyPrefix, label, c.now, none⟩))
  | .commit, g, l => ((commitRows g l).1, (commitRows g l).2, (none, none))
  | .selectLogin email, g, l =>
    (.ok ((g.accounts.filter fun row => row.email = email).findSome? (withPlan g.plans)), g, l)
  | .selectProfile accountId, g, l =>
    (.ok ((g.accounts.filter fun row => row.accountId = accountId).findSome? (withPlan g.plans)), g, l)
  | .setPassword accountId passwordHash, g, l =>
    if g.accounts.any fun row => row.accountId = accountId ∧ row.passwordHash = none then
      (.ok (1 : Nat), { g with accounts := g.accounts.map (AccountRow.setPassword accountId passwordHash) }.log
        (.passwordSet p accountId), l)
    else (.ok (0 : Nat), g, l)
  | .hasPassword accountId, g, l =>
    (.ok ((g.accounts.find? fun row => row.accountId = accountId).map (·.passwordHash.isSome)), g, l)
  | .cleanupExpiredSessions, g, l =>
    (.ok (), { g with sessions := g.sessions.filter fun row => !decide (row.expiresAt < c.now) }.log
      (.purged c.now), l)
  | .deleteSessionsForAccount accountId, g, l =>
    (.ok (), { g with sessions := g.sessions.filter fun row => !decide (row.accountId = accountId) }.log
      (.rotated p accountId), l)
  | .insertSession accountId tokenHash expiresAt, g, l =>
    if g.sessions.any fun other => other.id = c.uuid ∨ other.tokenHash = tokenHash then
      (.error "duplicate key", g, l)
    else
      let row : SessionRow := ⟨c.uuid, accountId, tokenHash, expiresAt⟩
      (.ok (), { g with sessions := g.sessions ++ [row] }.log (.opened p row), l)
  | .deleteSession tokenHash, g, l =>
    (.ok (), { g with sessions := g.sessions.filter fun row => !decide (row.tokenHash = tokenHash) }.log
      (.closed p tokenHash), l)
  | .selectSession tokenHash, g, l =>
    match g.sessions.find? fun row => row.tokenHash = tokenHash ∧ c.now ≤ row.expiresAt with
    | none => (.ok none, g, l)
    | some row => (.ok (some row), g.log (.found p row c.now), l)
  | .touchSession _, g, l => (.ok (), g, l)
  | .selectApiKey keyHash, g, l =>
    (.ok (g.apiKeys.find? fun row => row.keyHash = keyHash ∧ row.revokedAt = none), g, l)
  | .selectDesktopToken tokenHash, g, l =>
    (.ok (g.desktopTokens.find? fun row =>
      row.tokenHash = tokenHash ∧ row.revokedAt = none ∧ c.now < row.expiresAt), g, l)
  | .touchDesktopToken _, g, l => (.ok (), g, l)
  | .insertDesktopToken id accountId tokenHash expiresAt, g, l =>
    if g.desktopTokens.any fun other => other.id = id ∨ other.tokenHash = tokenHash then
      (.error "duplicate key", g, l)
    else
      let row : DesktopTokenRecord := ⟨id, accountId, tokenHash, c.now, expiresAt, none⟩
      (.ok (), { g with desktopTokens := g.desktopTokens ++ [row] }.log (.connected p row), l)
  | .revokeDesktopToken id accountId, g, l =>
    if g.desktopTokens.any (·.isActive id accountId) then
      (.ok (1 : Nat), { g with desktopTokens := g.desktopTokens.map (DesktopTokenRecord.revoke id accountId c.now) }.log
        (.revoked p accountId id), l)
    else (.ok (0 : Nat), g, l)

def Ask.answer (c : Choice) : (a : Ask) → a.Ans
  | .now => c.now
  | .uuid => c.uuid
  | .sessionBytes => c.bytes32
  | .tokenBytes => c.bytes16
  | .salt => c.salt

def exec (p : Nat) (c : Choice) :
    (q : Call Sql Ask) → Shared → Local → Option (Answer q × Shared × Local)
  | .sql s, g, l =>
    if c.fails then some ((.error "database error" : Except String s.Res), g, (none, none))
    else some (s.exec p c g l)
  | .ask a, g, l => some (a.answer c, g, l)

def system : System Answer Shared Local Choice := ⟨exec⟩

/-! ## Programs -/

/-- The errors of `ApiError` that these handlers return. -/
inductive ApiError where
  | unauthorized
  | notFound
  | invalidRequest
  | invalidCredentials
  | emailAlreadyRegistered
  | passwordAlreadySet
  | internal
  deriving DecidableEq

inductive AuthError where
  | missing
  | invalid
  deriving DecidableEq

abbrev Handler (ε α : Type) := Program String Sql.Res Ask.Ans ε α

section Services

variable {ε : Type} (env : Env) (f : String → ε)

/-! ### Sessions -/

def createSession (accountId : Uuid) : Handler ε String := do
  query f Sql.cleanupExpiredSessions
  query f (Sql.deleteSessionsForAccount accountId)
  let bytes ← ask Ask.sessionBytes
  let token := generateSessionToken bytes
  let now : Int ← ask Ask.now
  query f (Sql.insertSession accountId (hashSessionToken env.sha token)
    (now + secondsOfDays SESSION_TTL_DAYS))
  pure token

def deleteSessionByToken (token : String) : Handler ε Unit := do
  query f Sql.cleanupExpiredSessions
  query f (Sql.deleteSession (hashSessionToken env.sha token))

def resolveSessionAccountId (token : String) : Handler ε (Option Uuid) := do
  query f Sql.cleanupExpiredSessions
  let row : Option SessionRow ← query f (Sql.selectSession (hashSessionToken env.sha token))
  match row with
  | none => pure none
  | some row =>
    query f (Sql.touchSession row.id)
    pure (some row.accountId)

/-! ### Desktop tokens -/

structure CreatedDesktopToken where
  id : Uuid
  generated : GeneratedDesktopToken
  expiresAt : Int
  deriving DecidableEq

def createDesktopToken (accountId : Uuid) : Handler ε CreatedDesktopToken := do
  let bytes ← ask Ask.tokenBytes
  let generated := generateDesktopToken env.sha bytes
  let id : Uuid ← ask Ask.uuid
  let now : Int ← ask Ask.now
  query f (Sql.insertDesktopToken id accountId generated.tokenHash
    (now + secondsOfDays DEFAULT_TTL_DAYS))
  pure ⟨id, generated, now + secondsOfDays DEFAULT_TTL_DAYS⟩

def revokeDesktopToken (accountId tokenId : Uuid) : Handler ε Bool := do
  let updated : Nat ← query f (Sql.revokeDesktopToken tokenId accountId)
  pure (decide (0 < updated))

/-! ### Accounts -/

structure RegisterResult where
  accountId : Uuid
  email : String
  apiKey : String
  tariffPlanId : Uuid
  planName : String
  createdAt : Int
  deriving DecidableEq

inductive RegisterError where
  | emailAlreadyRegistered
  | database (error : String)
  deriving DecidableEq

/-- `register_account`, without a password, and `register_web_account`, with one. -/
def register (email : String) (passwordHash : Option String) :
    Handler RegisterError RegisterResult := do
  let email := env.toLowercase (trim email)
  let exists_ : Bool ← query .database (Sql.emailExists email)
  require (!exists_) .emailAlreadyRegistered
  let plan : Option PlanRow ← query .database Sql.selectFreePlan
  let freePlan ← orElse plan (.database "free tariff plan missing")
  let accountId : Uuid ← ask Ask.uuid
  let createdAt : Int ←
    query .database (Sql.insertAccount accountId email freePlan.planId passwordHash)
  let bytes ← ask Ask.tokenBytes
  let generated := generateApiKey env.sha bytes
  query .database (Sql.insertApiKey accountId generated "default")
  query .database Sql.commit
  pure ⟨accountId, email, generated.fullKey, freePlan.planId, freePlan.name, createdAt⟩

def registerAccount (email : String) : Handler RegisterError RegisterResult := register env email none

def registerWebAccount (email passwordHash : String) : Handler RegisterError RegisterResult :=
  register env email (some passwordHash)

def setAccountPassword (accountId : Uuid) (passwordHash : String) : Handler ApiError Unit := do
  let updated : Nat ← query (fun _ => ApiError.internal) (Sql.setPassword accountId passwordHash)
  if updated = 1 then pure ()
  else
    let found : Option Bool ← query (fun _ => .internal) (Sql.hasPassword accountId)
    let hasPassword ← orElse found .notFound
    throw (if hasPassword then .passwordAlreadySet else .notFound)

end Services

/-! ## Authentication -/

/-- The headers of a request that are read, where they are text. -/
structure Headers where
  cookie : Option String
  authorization : Option String
  apiKey : Option String
  deriving DecidableEq

structure AuthedAccount where
  accountId : Uuid
  keyHash : String
  deriving DecidableEq

section Authentication

variable {ε : Type} (env : Env)

def resolveDesktopBearer (f : AuthError → ε) (headers : Headers) :
    Handler ε (Option AuthedAccount) :=
  match headers.authorization.bind bearerToken with
  | none => pure none
  | some raw =>
    match hashDesktopTokenForLookup env.sha raw with
    | none => pure none
    | some tokenHash => do
      let found : Option DesktopTokenRecord ←
        query (fun _ => f .invalid) (Sql.selectDesktopToken tokenHash)
      let record ← orElse found (f .invalid)
      let _ ← try_ (Sql.touchDesktopToken record.id)
      pure (some ⟨record.accountId, record.tokenHash⟩)

def resolveAuthedAccount (f : AuthError → ε) (headers : Headers) : Handler ε AuthedAccount := do
  match ← resolveDesktopBearer env f headers with
  | some auth => pure auth
  | none =>
    let rawKey ← orElse headers.apiKey (f .missing)
    let found : Option ApiKeyRow ←
      query (fun _ => f .invalid) (Sql.selectApiKey (hashApiKeyForLookup env.sha rawKey))
    let row ← orElse found (f .invalid)
    pure ⟨row.accountId, row.keyHash⟩

def requireWebSession (headers : Headers) : Handler ApiError Uuid := do
  let cookieHeader ← orElse headers.cookie .unauthorized
  let token ← orElse (parseSessionCookie cookieHeader) .unauthorized
  let found ← resolveSessionAccountId env (fun _ => .internal) token
  orElse found .unauthorized

/-- `optional_session_user`: every failure is none. -/
def optionalSessionUser (headers : Headers) : Handler ε (Option Uuid) :=
  match headers.cookie.bind parseSessionCookie with
  | none => pure none
  | some token => do
    let found ← toOption (resolveSessionAccountId env id token)
    pure found.join

/-- `session_auth_middleware`. -/
def sessionUser (headers : Headers) : Handler ApiError Uuid := do
  let user ← optionalSessionUser env headers
  orElse user .unauthorized

end Authentication

/-! ## Handlers -/

structure WebLoginResponse where
  accountId : Uuid
  email : String
  plan : String
  subscriptionStatus : String
  setCookie : String
  deriving DecidableEq

structure WebMeResponse where
  accountId : Uuid
  email : String
  plan : String
  subscriptionStatus : String
  createdAt : Int
  deriving DecidableEq

/-- What the confirmation of a connection answers; nothing where `connectForm` panics. -/
inductive Confirmation where
  | login (target : String)
  | connected (tokenId : Uuid) (reply : Option ConnectReply)
  deriving DecidableEq

section Handlers

variable (env : Env)

def webRegisterError : RegisterError → ApiError
  | .emailAlreadyRegistered => .emailAlreadyRegistered
  | .database _ => .internal

def registerHandler (email password : String) : Handler ApiError RegisterResult := do
  require (isValidEmail email && validatePassword password) .invalidRequest
  let salt : String ← ask Ask.salt
  let passwordHash ← orElse (env.hashPassword password salt) .internal
  mapError webRegisterError (registerWebAccount env email passwordHash)

def loginHandler (email password : String) : Handler ApiError WebLoginResponse := do
  require (isValidEmail email) .invalidCredentials
  let found : Option (AccountRow × PlanRow) ←
    query (fun _ => ApiError.internal) (Sql.selectLogin (env.toLowercase (trim email)))
  let row ← orElse found .invalidCredentials
  let storedHash ← orElse row.1.passwordHash .invalidCredentials
  let valid ← orElse (env.verifyPassword password storedHash) .internal
  require valid .invalidCredentials
  let token ← createSession env (fun _ => .internal) row.1.accountId
  pure ⟨row.1.accountId, row.1.email, row.2.name, row.1.subscriptionStatus,
    sessionCookieValue token !env.devMode⟩

def getMe (headers : Headers) : Handler ApiError WebMeResponse := do
  let accountId ← requireWebSession env headers
  let found : Option (AccountRow × PlanRow) ←
    query (fun _ => ApiError.internal) (Sql.selectProfile accountId)
  let row ← orElse found .unauthorized
  pure ⟨accountId, row.1.email, row.2.name, row.1.subscriptionStatus, row.1.createdAt⟩

/-- `logout_handler`: the cookie that it sets. -/
def logoutHandler (headers : Headers) : Handler ApiError String := do
  let cookieHeader ← orElse headers.cookie .unauthorized
  let token ← orElse (parseSessionCookie cookieHeader) .unauthorized
  let _ ← requireWebSession env headers
  deleteSessionByToken env (fun _ => .internal) token
  pure (clearSessionCookie !env.devMode)

def setPasswordHandler (headers : Headers) (password : String) : Handler ApiError Uuid := do
  let auth ← resolveAuthedAccount env (fun _ => ApiError.unauthorized) headers
  require (validatePassword password) .invalidRequest
  let salt : String ← ask Ask.salt
  let passwordHash ← orElse (env.hashPassword password salt) .internal
  setAccountPassword auth.accountId passwordHash
  pure auth.accountId

def createTokenHandler (headers : Headers) : Handler ApiError CreatedDesktopToken := do
  let accountId ← sessionUser env headers
  createDesktopToken env (fun _ => .internal) accountId

def revokeTokenHandler (headers : Headers) (tokenId : Uuid) : Handler ApiError Unit := do
  let accountId ← sessionUser env headers
  let revoked ← revokeDesktopToken (fun _ => ApiError.internal) accountId tokenId
  require revoked .notFound

/-- `connect_form`, behind `session_ui_auth_middleware`. -/
def confirmHandler (headers : Headers) (original : String) (redirectUri : Option String) :
    Handler ApiError Confirmation := do
  match ← optionalSessionUser env headers with
  | none => pure (.login ("/login?next=" ++ urlencodingEncode original))
  | some accountId =>
    let created ← createDesktopToken env (fun _ => ApiError.internal) accountId
    match connectForm created.generated (env.toRfc3339 created.expiresAt) redirectUri with
    | some .invalidRequest => throw .invalidRequest
    | reply => pure (.connected created.id reply)

end Handlers

/-! ## Requests -/

inductive Request where
  | registerAccount (email : String)
  | registerWeb (email password : String)
  | login (email password : String)
  | me (headers : Headers)
  | logout (headers : Headers)
  | setPassword (headers : Headers) (password : String)
  | createToken (headers : Headers)
  | confirm (headers : Headers) (original : String) (redirectUri : Option String)
  | revokeToken (headers : Headers) (tokenId : Uuid)
  | api (headers : Headers)
  deriving DecidableEq

inductive Reply where
  | registered (result : Except RegisterError RegisterResult)
  | registeredWeb (result : Except ApiError RegisterResult)
  | loggedIn (result : Except ApiError WebLoginResponse)
  | me (result : Except ApiError WebMeResponse)
  | loggedOut (result : Except ApiError String)
  | passwordSet (result : Except ApiError Uuid)
  | created (result : Except ApiError CreatedDesktopToken)
  | confirmed (result : Except ApiError Confirmation)
  | revoked (result : Except ApiError Unit)
  | api (result : Except AuthError AuthedAccount)
  deriving DecidableEq

def Request.run (env : Env) : Request → Prog Answer Reply
  | registerAccount email => finish Reply.registered (Auth.registerAccount env email)
  | registerWeb email password => finish Reply.registeredWeb (registerHandler env email password)
  | login email password => finish Reply.loggedIn (loginHandler env email password)
  | me headers => finish Reply.me (getMe env headers)
  | logout headers => finish Reply.loggedOut (logoutHandler env headers)
  | setPassword headers password => finish Reply.passwordSet (setPasswordHandler env headers password)
  | createToken headers => finish Reply.created (createTokenHandler env headers)
  | confirm headers original redirectUri =>
    finish Reply.confirmed (confirmHandler env headers original redirectUri)
  | revokeToken headers tokenId => finish Reply.revoked (revokeTokenHandler env headers tokenId)
  | api headers => finish Reply.api (resolveAuthedAccount env id headers)

abbrev AuthConfig := Config Answer Shared Local Reply

/-- Any number of requests; nobody is logged in. -/
def start (env : Env) (requests : Nat → Request) (plans : List PlanRow) (accounts : List AccountRow)
    (apiKeys : List ApiKeyRow) : AuthConfig :=
  ⟨⟨plans, accounts, apiKeys, [], [], []⟩, fun p => ((requests p).run env, (none, none))⟩

end EvidentLedger.Auth
