import EvidentLedger.Auth.Requests

/-!
# Sessions and tokens over whole runs

Any number of requests that take turns statement by statement, with any failures, clocks and random
values.

## Results

* **`session_needs_login`**: whoever is served for an account with a session cookie has the token of a
  session that a login opened with the account's password, and that nothing has ended since.
* **`logout_is_final`**, **`login_ends_sessions`**: a session that was logged out, or that was there before
  a later login, is gone; its token is of use only if a login draws it again.
* **`token_needs_session`**: a desktop token that is accepted was created for its account by a request with
  such a session.
* **`revoked_token_refused`**: no request that begins after a revocation is accepted with the token.
* **`revoked_once`**, **`password_set_once`**: a token is revoked by one request, its owner's, and the
  password of an account is set by one request and stays.
-/

namespace EvidentLedger.Auth

open Lib.Interleave Lib.Growth Lib.Lifetime Lib.Text

variable {env : Env} {requests : Nat → Request} {plans : List PlanRow} {accounts : List AccountRow}
  {apiKeys : List ApiKeys.ApiKeyRow} {y z : AuthConfig}

/-! ## Runs -/

section Runs

variable (env requests plans accounts apiKeys) in
/-- Any number of steps of the service. -/
abbrev Runs (y : AuthConfig) : Prop :=
  Reach system (fun _ _ _ => True) (start env requests plans accounts apiKeys) y

theorem inv_start (hids : (accounts.map AccountRow.accountId).Nodup) :
    Inv env requests (start env requests plans accounts apiKeys).shared where
  sessions := ⟨rfl, chronicle_nil, fun _ _ h => absurd h List.not_mem_nil⟩
  tokens := ⟨List.nodup_nil, List.nodup_nil, fun _ h => absurd h List.not_mem_nil,
    fun _ _ h => absurd h List.not_mem_nil, fun _ _ _ h => absurd h List.not_mem_nil,
    fun _ _ _ _ _ h => absurd h List.not_mem_nil⟩
  passwords := ⟨hids, fun _ _ h => absurd h List.not_mem_nil, fun _ _ _ h => absurd h List.not_mem_nil⟩

theorem meets_start (p : Nat) : Meets system (fun _ _ _ => True) (world env requests) p (fun _ => True)
    ((start env requests plans accounts apiKeys).procs p).1 fun reply g =>
      Told env requests (fun _ => True) p g (requests p) reply :=
  meets_request stays_true (requests p) rfl

/-- **In every state reached** the invariant holds, and every answer tells what it is to tell. -/
theorem reach_told (hids : (accounts.map AccountRow.accountId).Nodup)
    (hy : Runs env requests plans accounts apiKeys y) : Inv env requests y.shared ∧
      ∀ p reply, (y.procs p).1.result = some reply →
        Told env requests (fun _ => True) p y.shared (requests p) reply :=
  reach_learns (W := world env requests) (inv_start hids) meets_start hy

theorem reach_grows (hids : (accounts.map AccountRow.accountId).Nodup)
    (hy : Runs env requests plans accounts apiKeys y) (hz : Reach system (fun _ _ _ => True) y z) :
    Grows y.shared z.shared :=
  reach_le (W := world env requests) (inv_start hids) meets_start hy hz

/-- **A request that has not begun** tells of what happened later. -/
theorem reach_told_later (hids : (accounts.map AccountRow.accountId).Nodup)
    (hy : Runs env requests plans accounts apiKeys y)
    (hz : Reach system (fun _ _ _ => True) y z) {q : Nat} {F : Shared → Prop}
    (hF : Stays env requests F) (hnow : F y.shared)
    (hidle : y.procs q = (start env requests plans accounts apiKeys).procs q) {reply : Reply}
    (hres : (z.procs q).1.result = some reply) :
    Told env requests F q z.shared (requests q) reply :=
  reach_later (W := world env requests) (inv_start hids) meets_start
    (meets_request hF (requests q) rfl) hy hidle hnow hz hres

end Runs

/-! ## Sessions -/

section Sessions

/-- The headers of a request. -/
def Request.headers : Request → Option Headers
  | .me headers | .logout headers | .setPassword headers _ | .createToken headers
  | .confirm headers _ _ | .revokeToken headers _ | .api headers => some headers
  | _ => none

/-- The session token of a request. -/
def Request.sessionToken (request : Request) : Option String :=
  (request.headers.bind Headers.cookie).bind parseSessionCookie

/-- A reply that only a session gets: an API key or a desktop token is enough for the others. -/
def Reply.served : Reply → Bool
  | .me (.ok _) | .loggedOut (.ok _) | .created (.ok _) | .confirmed (.ok (.connected _ _))
  | .revoked (.ok _) => true
  | _ => false

/-- The account that the reply is about; that of a logout names none. -/
def ServedFor (p : Nat) (g : Shared) (accountId : Uuid) : Reply → Prop
  | .me (.ok r) => r.accountId = accountId
  | .loggedOut (.ok _) => ∃ tokenHash, .closed p tokenHash ∈ g.trace
  | .created (.ok created) => Connected p accountId created.id g
  | .confirmed (.ok (.connected id _)) => Connected p accountId id g
  | .revoked (.ok _) => ∃ id, .revoked p accountId id ∈ g.trace
  | _ => False

/-- **The session was opened by a login of its account**, and was alive when the request has found it. -/
def Backed (env : Env) (requests : Nat → Request) (p : Nat) (row : SessionRow) (g : Shared) : Prop :=
  ∃ j now before middle after,
    g.trace = before ++ .opened j row :: (middle ++ .found p row now :: after) ∧
      (∀ e ∈ middle, sessionEffect.ends e row = false) ∧ now ≤ row.expiresAt ∧
        LoggedIn env requests g.accounts j row.accountId

theorem opened_of_adds {e : Event} {row : SessionRow} (h : row ∈ sessionEffect.adds e) :
    ∃ j, e = .opened j row := by
  cases e with
  | opened j other => exact ⟨j, by rw [List.mem_singleton.mp h]⟩
  | _ => exact absurd h List.not_mem_nil

theorem backed_of_found {g : Shared} (hi : Inv env requests g) {p : Nat} {row : SessionRow} {now : Int}
    {before : List Event} (h : before ++ [.found p row now] <+: g.trace) :
    Backed env requests p row g := by
  obtain ⟨halive, hnow⟩ := hi.sessions.alive before _ h p row now rfl
  obtain ⟨first, e, middle, rfl, hadd, hkept⟩ := mem_replay_iff.mp halive
  obtain ⟨after, htrace⟩ := h
  obtain ⟨j, rfl⟩ := opened_of_adds hadd
  have hsplit : g.trace = first ++ .opened j row :: (middle ++ .found p row now :: after) := by
    rw [← htrace]
    simp
  refine ⟨j, now, first, middle, after, hsplit, hkept, hnow, hi.sessions.opened j row ?_⟩
  rw [hsplit]
  simp

/-- What a request has learned that was served. -/
theorem told_served {P : Shared → Prop} {p : Nat} {g : Shared} {request : Request} {reply : Reply}
    (h : Told env requests P p g request reply) (hreply : reply.served = true) : ∃ a token,
      request.sessionToken = some token ∧ Resolved env requests p P token a g ∧
        ServedFor p g a reply := by
  have hsession : ∀ headers a, request.headers = some headers →
      SessionOf env requests p P headers a g → ServedFor p g a reply → ∃ a token,
        request.sessionToken = some token ∧ Resolved env requests p P token a g ∧
          ServedFor p g a reply := by
    rintro headers a hheaders ⟨cookie, token, hcookie, htoken, hresolved⟩ hfor
    refine ⟨a, token, ?_, hresolved, hfor⟩
    rw [Request.sessionToken, hheaders, Option.bind_some, hcookie, Option.bind_some, htoken]
  cases reply with
  | me result =>
    cases result with
    | error e => exact absurd hreply Bool.false_ne_true
    | ok r =>
      cases request with
      | me headers => exact hsession headers _ rfl (h r rfl) rfl
      | _ => exact False.elim h
  | loggedOut result =>
    cases result with
    | error e => exact absurd hreply Bool.false_ne_true
    | ok setCookie =>
      cases request with
      | logout headers =>
        obtain ⟨a, hfound, _, token, -, -, hdid⟩ := h setCookie rfl
        exact hsession headers a rfl hfound ⟨hashSessionToken env.sha token, hdid.mem⟩
      | _ => exact False.elim h
  | created result =>
    cases result with
    | error e => exact absurd hreply Bool.false_ne_true
    | ok created =>
      cases request with
      | createToken headers =>
        obtain ⟨a, hfound, hconnected⟩ := h created rfl
        exact hsession headers a rfl hfound hconnected
      | _ => exact False.elim h
  | confirmed result =>
    cases result with
    | error e => exact absurd hreply Bool.false_ne_true
    | ok confirmation =>
      cases confirmation with
      | login target => exact absurd hreply Bool.false_ne_true
      | connected id reply =>
        cases request with
        | confirm headers original redirectUri =>
          obtain ⟨a, hfound, hconnected⟩ := h _ rfl id reply rfl
          exact hsession headers a rfl hfound hconnected
        | _ => exact False.elim h
  | revoked result =>
    cases result with
    | error e => exact absurd hreply Bool.false_ne_true
    | ok u =>
      cases request with
      | revokeToken headers tokenId =>
        obtain ⟨a, hfound, hrevoked⟩ := h u rfl
        exact hsession headers a rfl hfound ⟨tokenId, hrevoked⟩
      | _ => exact False.elim h
  | _ => exact absurd hreply Bool.false_ne_true

/-- **A session that was ended** is there again only if a login has opened it since. -/
theorem opened_again {before : List Event} {e : Event} {t : List Event} {row : SessionRow}
    (hrow : row ∈ sessionEffect.replay t) (hp : before ++ [e] <+: t)
    (hend : sessionEffect.ends e row = true) :
    ∃ j middle after, t = before ++ e :: (middle ++ .opened j row :: after) := by
  have hadd : row ∉ sessionEffect.adds e := by
    intro hmem
    obtain ⟨j, rfl⟩ := opened_of_adds hmem
    exact absurd hend Bool.false_ne_true
  obtain ⟨middle, e', after, ht, hadded, -⟩ := added_after hrow hp hend hadd
  obtain ⟨j, rfl⟩ := opened_of_adds hadded
  exact ⟨j, middle, after, ht⟩

/-- **A logout is final.** A request that begins after it and sends the same token gets a reply that only
a session gets, another logout's included, only if a login with a password has opened a session under the
hash of this token again. -/
theorem logout_is_final (hids : (accounts.map AccountRow.accountId).Nodup)
    (hy : Runs env requests plans accounts apiKeys y) (hz : Reach system (fun _ _ _ => True) y z)
    {p q : Nat} {headers : Headers} {setCookie token : String} {reply : Reply}
    (hlogout : requests p = .logout headers)
    (hdone : (y.procs p).1.result = some (.loggedOut (.ok setCookie)))
    (hidle : y.procs q = (start env requests plans accounts apiKeys).procs q)
    (htoken : (requests p).sessionToken = some token)
    (hsame : (requests q).sessionToken = some token)
    (hres : (z.procs q).1.result = some reply) (hreply : reply.served = true) :
    ∃ j row before middle after, row.tokenHash = hashSessionToken env.sha token ∧
      z.shared.trace = before ++ .closed p (hashSessionToken env.sha token) ::
        (middle ++ .opened j row :: after) ∧
      LoggedIn env requests z.shared.accounts j row.accountId ∧
        ServedFor q z.shared row.accountId reply := by
  obtain ⟨-, htold⟩ := reach_told hids hy
  have hclosed := htold p _ hdone
  rw [hlogout] at hclosed htoken
  obtain ⟨-, -, cookie, token', hcookie, htoken', g₀, -, -, hp⟩ := hclosed setCookie rfl
  obtain rfl : token' = token := by
    rw [Request.sessionToken] at htoken
    change ((headers.cookie).bind parseSessionCookie) = some token at htoken
    rw [hcookie, Option.bind_some, htoken'] at htoken
    exact Option.some.inj htoken
  -- what the later request finds comes after the trace of now
  have hF : Stays env requests fun g => y.shared.trace <+: g.trace :=
    ⟨fun (hle : Grows _ _) h => h.trans hle.trace⟩
  have hlater := reach_told_later hids hy hz hF (List.prefix_refl _) hidle hres
  obtain ⟨a, token, hsent, ⟨row, now, ⟨g₁, hsince, hi₁, hp₁⟩, rfl, hhash⟩, hfor⟩ :=
    told_served hlater hreply
  obtain rfl : token' = token := Option.some.inj (hsame.symm.trans hsent)
  have hi := (reach_told hids (Relation.ReflTransGen.trans hy hz)).1
  obtain ⟨halive, -⟩ := hi.sessions.alive g₁.trace _ hp₁ q row now rfl
  obtain ⟨j, middle, after, ht⟩ := opened_again halive (hp.trans hsince)
    (by rw [← hhash]; exact decide_eq_true rfl)
  obtain ⟨rest, htrace⟩ := (List.prefix_append g₁.trace [.found q row now]).trans hp₁
  have hsplit : z.shared.trace = g₀.trace ++ .closed p (hashSessionToken env.sha token') ::
      (middle ++ .opened j row :: (after ++ rest)) := by
    rw [← htrace, ht]
    simp
  refine ⟨j, row, g₀.trace, middle, after ++ rest, hhash, hsplit, hi.sessions.opened j row ?_, hfor⟩
  rw [hsplit]
  simp

/-- **A login ends the other sessions of its account**: what is there later was opened after it. -/
theorem login_ends_sessions (hids : (accounts.map AccountRow.accountId).Nodup)
    (hy : Runs env requests plans accounts apiKeys y) {p : Nat} {email password : String}
    {r : WebLoginResponse} (hlogin : requests p = .login email password)
    (hres : (y.procs p).1.result = some (.loggedIn (.ok r))) {row : SessionRow}
    (hrow : row ∈ y.shared.sessions) (haccount : row.accountId = r.accountId) :
    ∃ j before middle after, y.shared.trace = before ++ .rotated p r.accountId ::
      (middle ++ .opened j row :: after) := by
  obtain ⟨hi, htold⟩ := reach_told hids hy
  have hrotated := htold p _ hres
  rw [hlogin] at hrotated
  obtain ⟨g₀, -, -, hp⟩ := hrotated r rfl
  rw [hi.sessions.replayed] at hrow
  obtain ⟨j, middle, after, ht⟩ := opened_again hrow hp (decide_eq_true haccount)
  exact ⟨j, g₀.trace, middle, after, ht⟩

end Sessions

/-! ## Desktop tokens -/

section Tokens

/-- **A desktop token needs a session.** A client that is accepted with a desktop token has one that was
created for its account by a request with a session of that account. -/
theorem token_needs_session (hids : (accounts.map AccountRow.accountId).Nodup)
    (hy : Runs env requests plans accounts apiKeys y) {q : Nat} {headers : Headers}
    {auth : AuthedAccount} {tokenHash : String} (hreq : requests q = .api headers)
    (hres : (y.procs q).1.result = some (.api (.ok auth)))
    (htoken : tokenHashOf env headers = some tokenHash) :
    ∃ p row session, .connected p row ∈ y.shared.trace ∧ row.tokenHash = tokenHash ∧
      row.accountId = auth.accountId ∧ session.accountId = auth.accountId ∧
        Backed env requests p session y.shared := by
  obtain ⟨hi, htold⟩ := reach_told hids hy
  have hauth := htold q _ hres
  rw [hreq] at hauth
  rcases hauth auth rfl with ⟨g₀, row, hhash, -, hi₀, hgrows, hmem, -, rfl⟩ | ⟨hnone, -⟩
  · obtain ⟨p, row₀, hconnected, hkept⟩ := hi₀.tokens.issued row hmem
    have hconnected' := hgrows.trace.subset hconnected
    obtain ⟨session, now, hfound, haccount⟩ := hi.tokens.owned p row₀ hconnected'
    obtain ⟨before, hp, -⟩ := hi.sessions.alive.of_mem hfound
    refine ⟨p, row₀, session, hconnected', ?_, hkept.accountId.symm, ?_, backed_of_found hi hp⟩
    · rw [← hkept.tokenHash]
      exact Option.some.inj (hhash.symm.trans htoken)
    · rw [haccount, hkept.accountId]
  · rw [htoken] at hnone
    exact nomatch hnone

/-- **A revoked token is refused** by every request that begins after the revocation. -/
theorem revoked_token_refused (hids : (accounts.map AccountRow.accountId).Nodup)
    (hy : Runs env requests plans accounts apiKeys y) (hz : Reach system (fun _ _ _ => True) y z)
    {p q : Nat} {headers headers' : Headers} {tokenId : Uuid} {row : DesktopTokenRecord}
    (hrevoke : requests p = .revokeToken headers tokenId)
    (hdone : (y.procs p).1.result = some (.revoked (.ok ())))
    (hrow : row ∈ y.shared.desktopTokens) (hid : row.id = tokenId)
    (hreq : requests q = .api headers') (htoken : tokenHashOf env headers' = some row.tokenHash)
    (hidle : y.procs q = (start env requests plans accounts apiKeys).procs q) (auth : AuthedAccount) :
    (z.procs q).1.result ≠ some (.api (.ok auth)) := by
  intro hres
  obtain ⟨hi, htold⟩ := reach_told hids hy
  have hrevoked := htold p _ hdone
  rw [hrevoke] at hrevoked
  obtain ⟨a, -, hevent⟩ := hrevoked () rfl
  obtain ⟨-, other, hother, hoid, -, hset⟩ := hi.tokens.revoked p a tokenId hevent
  obtain rfl : other = row :=
    List.inj_on_of_nodup_map hi.tokens.ids hother hrow (hoid.trans hid.symm)
  -- the row stays revoked
  have hF : Stays env requests fun g => ∃ row' ∈ g.desktopTokens, row'.tokenHash = other.tokenHash ∧
      row'.revokedAt ≠ none := by
    constructor
    rintro g g' (hle : Grows g g') ⟨row', hrow', hhash', hset'⟩
    obtain ⟨row'', hrow'', hkept⟩ := hle.tokens row' hrow'
    exact ⟨row'', hrow'', hkept.tokenHash.trans hhash', by rwa [hkept.revoked hset']⟩
  have hlater := reach_told_later hids hy hz hF ⟨other, hother, rfl, hset⟩ hidle hres
  rw [hreq] at hlater
  rcases hlater auth rfl with ⟨g₀, found, hhash, ⟨row', hrow', hhash', hset'⟩, hi₀, -, hmem, hactive, -⟩ |
    ⟨hnone, -⟩
  · have hsame : found.tokenHash = row'.tokenHash := by
      rw [hhash']
      exact Option.some.inj (hhash.symm.trans htoken)
    rw [List.inj_on_of_nodup_map hi₀.tokens.hashes hmem hrow' hsame] at hactive
    exact hset' hactive
  · rw [htoken] at hnone
    exact nomatch hnone

/-- **A token is revoked by its owner, and once**: of all requests one is told that it has revoked it. -/
theorem revoked_once (hids : (accounts.map AccountRow.accountId).Nodup)
    (hy : Runs env requests plans accounts apiKeys y) {p : Nat} {headers : Headers} {tokenId : Uuid}
    (hrevoke : requests p = .revokeToken headers tokenId)
    (hdone : (y.procs p).1.result = some (.revoked (.ok ()))) :
    (∃ row ∈ y.shared.desktopTokens, row.id = tokenId ∧ row.revokedAt ≠ none ∧
      ∃ session, session.accountId = row.accountId ∧ Backed env requests p session y.shared) ∧
    ∀ q headers', requests q = .revokeToken headers' tokenId →
      (y.procs q).1.result = some (.revoked (.ok ())) → q = p := by
  obtain ⟨hi, htold⟩ := reach_told hids hy
  have hevent : ∀ q headers', requests q = .revokeToken headers' tokenId →
      (y.procs q).1.result = some (.revoked (.ok ())) →
        ∃ a, .revoked q a tokenId ∈ y.shared.trace := by
    intro q headers' hq hres
    have hrevoked := htold q _ hres
    rw [hq] at hrevoked
    obtain ⟨a, -, hmem⟩ := hrevoked () rfl
    exact ⟨a, hmem⟩
  obtain ⟨a, hmem⟩ := hevent p headers hrevoke hdone
  obtain ⟨⟨session, now, hfound, haccount⟩, row, hrow, hid, howner, hset⟩ :=
    hi.tokens.revoked p a tokenId hmem
  obtain ⟨before, hp, -⟩ := hi.sessions.alive.of_mem hfound
  refine ⟨⟨row, hrow, hid, hset, session, haccount.trans howner.symm, backed_of_found hi hp⟩, ?_⟩
  intro q headers' hq hres
  obtain ⟨a', hmem'⟩ := hevent q headers' hq hres
  exact hi.tokens.once q p a' a tokenId hmem' hmem

end Tokens

/-! ## Passwords -/

/-- **A password is set once, and stays.** -/
theorem password_set_once (hids : (accounts.map AccountRow.accountId).Nodup)
    (hy : Runs env requests plans accounts apiKeys y) :
    (∀ p q headers headers' password password' a, requests p = .setPassword headers password →
      requests q = .setPassword headers' password' →
        (y.procs p).1.result = some (.passwordSet (.ok a)) →
          (y.procs q).1.result = some (.passwordSet (.ok a)) → p = q) ∧
    ∀ z, Reach system (fun _ _ _ => True) y z → ∀ row ∈ y.shared.accounts, row.passwordHash ≠ none →
      ∃ row' ∈ z.shared.accounts, row'.accountId = row.accountId ∧
        row'.passwordHash = row.passwordHash := by
  obtain ⟨hi, htold⟩ := reach_told hids hy
  constructor
  · intro p q headers headers' password password' a hp hq hresp hresq
    have hsetp := htold p _ hresp
    have hsetq := htold q _ hresq
    rw [hp] at hsetp
    rw [hq] at hsetq
    exact hi.passwords.once p q a (hsetp a rfl) (hsetq a rfl)
  · intro z hz row hrow hset
    obtain ⟨row', hrow', hkept⟩ := (reach_grows hids hy hz).accounts row hrow
    exact ⟨row', hrow', hkept.accountId, hkept.password hset⟩

/-! ## A run -/

section Samples

/-- The first 32 bytes, for a hash. -/
def firstBytes : Sha256 := fun x => ⟨(x ++ List.replicate 32 0).take 32, by simp⟩

def sampleEnv : Env where
  sha := firstBytes
  toLowercase := id
  hashPassword password _ := some password
  verifyPassword password hash := some (password == hash)
  toRfc3339 _ := ""
  devMode := true

/-- Every login draws the same token. -/
def sampleChoice : Choice where
  fails := false
  now := 0
  uuid := Uuid.small 9
  bytes16 := ⟨List.replicate 16 7, rfl⟩
  bytes32 := ⟨List.replicate 32 7, rfl⟩
  salt := ""

def sampleSession : Headers where
  cookie := some ("evident_session=" ++ hexEncode (List.replicate 32 7))
  authorization := none
  apiKey := none

def sampleBearer : Headers where
  cookie := none
  authorization := some ("Bearer desktop_" ++ hexEncode (List.replicate 16 7))
  apiKey := none

def sampleKey : Headers := ⟨none, none, some "legacy"⟩

def sampleRequests : Nat → Request
  | 1 => .createToken sampleSession
  | 2 => .api sampleBearer
  | 3 => .revokeToken sampleSession (Uuid.small 9)
  | 4 => .api sampleBearer
  | 5 => .setPassword sampleKey "correct horse battery"
  | 6 => .logout sampleSession
  | 7 => .me sampleSession
  | _ => .login "a@b.c" "a password"

def samplePlans : List PlanRow := [⟨Uuid.small 3, "free"⟩]

/-- An account with a password, and one with an API key. -/
def sampleAccounts : List AccountRow :=
  [⟨Uuid.small 1, "a@b.c", Uuid.small 3, some "a password", "none", 0⟩,
    ⟨Uuid.small 2, "d@e.f", Uuid.small 3, none, "none", 0⟩]

def sampleKeys : List ApiKeys.ApiKeyRow :=
  [⟨Uuid.small 4, Uuid.small 2, hashApiKeyForLookup firstBytes "legacy", "legacy…", "default", 0, none⟩]

def sampleStart : AuthConfig := start sampleEnv sampleRequests samplePlans sampleAccounts sampleKeys

def sampleSteps (calls : List Nat) : List (Nat × Choice) := calls.map fun p => (p, sampleChoice)

def sampleLogin : WebLoginResponse :=
  ⟨Uuid.small 1, "a@b.c", "free", "none",
    sessionCookieValue (hexEncode (List.replicate 32 7)) false⟩

def sampleRow : SessionRow :=
  ⟨Uuid.small 9, Uuid.small 1, hashSessionToken firstBytes (hexEncode (List.replicate 32 7)),
    secondsOfDays 30⟩

def sampleToken : DesktopTokenRecord :=
  ⟨Uuid.small 9, Uuid.small 1, hashSecretHex firstBytes (hexEncode (List.replicate 16 7)), 0,
    secondsOfDays 30, some 0⟩

theorem sampleBearer_token : tokenHashOf sampleEnv sampleBearer = some sampleToken.tokenHash := by
  decide +kernel

/-- The answers to some requests. -/
def answers (y : AuthConfig) (calls : List Nat) : List (Option Reply) :=
  calls.map fun p => (y.procs p).1.result

/-- A login, a desktop token, a client that is accepted with it, its revocation; then a client that is
refused, and a password. -/
theorem sampleRevoked : ∃ y z : AuthConfig, Reach system (fun _ _ _ => True) sampleStart y ∧
    Reach system (fun _ _ _ => True) y z ∧
    (answers y [0, 2, 3], y.shared.sessions, y.shared.desktopTokens, answers z [4, 5]) =
      ([some (.loggedIn (.ok sampleLogin)), some (.api (.ok ⟨Uuid.small 1, sampleToken.tokenHash⟩)),
        some (.revoked (.ok ()))], [sampleRow], [sampleToken],
        [some (.api (.error .invalid)), some (.passwordSet (.ok (Uuid.small 2)))]) ∧
    y.procs 4 = sampleStart.procs 4 := by
  have hrun : ((sampleStart.run system (fun _ _ _ => True)
      (sampleSteps [0, 0, 0, 0, 0, 0, 1, 1, 1, 1, 1, 1, 1, 2, 2, 3, 3, 3, 3])).bind fun y =>
        (y.run system (fun _ _ _ => True) (sampleSteps [4, 5, 5, 5])).map fun z =>
          (answers y [0, 2, 3], y.shared.sessions, y.shared.desktopTokens, answers z [4, 5])) =
      some ([some (.loggedIn (.ok sampleLogin)), some (.api (.ok ⟨Uuid.small 1, sampleToken.tokenHash⟩)),
        some (.revoked (.ok ()))], [sampleRow], [sampleToken],
        [some (.api (.error .invalid)), some (.passwordSet (.ok (Uuid.small 2)))]) := by
    decide +kernel
  obtain ⟨y, z, hy, hz, hfacts, hidle⟩ := Reach.exists_of_runs hrun
  exact ⟨y, z, hy, hz, hfacts, hidle 4 (by decide)⟩

/-- A login and a logout; then a login that draws the same token, and a request with it. -/
theorem sampleLogout : ∃ y z : AuthConfig, Reach system (fun _ _ _ => True) sampleStart y ∧
    Reach system (fun _ _ _ => True) y z ∧
    (answers y [6], answers z [7]) =
      ([some (.loggedOut (.ok (clearSessionCookie false)))],
        [some (.me (.ok ⟨Uuid.small 1, "a@b.c", "free", "none", 0⟩))]) ∧
    y.procs 7 = sampleStart.procs 7 := by
  have hrun : ((sampleStart.run system (fun _ _ _ => True)
      (sampleSteps [0, 0, 0, 0, 0, 0, 6, 6, 6, 6, 6])).bind fun y =>
        (y.run system (fun _ _ _ => True) (sampleSteps [8, 8, 8, 8, 8, 8, 7, 7, 7, 7])).map fun z =>
          (answers y [6], answers z [7])) =
      some ([some (.loggedOut (.ok (clearSessionCookie false)))],
        [some (.me (.ok ⟨Uuid.small 1, "a@b.c", "free", "none", 0⟩))]) := by
    decide +kernel
  obtain ⟨y, z, hy, hz, hfacts, hidle⟩ := Reach.exists_of_runs hrun
  exact ⟨y, z, hy, hz, hfacts, hidle 7 (by decide)⟩

theorem logout_is_final_sampleRun : ∃ (z : AuthConfig) (j : Nat) (row : SessionRow)
    (before middle after : List Event) (tokenHash : String), row.tokenHash = tokenHash ∧
      z.shared.trace = before ++ .closed 6 tokenHash :: (middle ++ .opened j row :: after) ∧
        LoggedIn sampleEnv sampleRequests z.shared.accounts j row.accountId := by
  obtain ⟨y, z, hy, hz, hfacts, hidle⟩ := sampleLogout
  simp only [answers, List.map_cons, List.map_nil, Prod.mk.injEq, List.cons.injEq] at hfacts
  have htoken : (sampleRequests 6).sessionToken = some (hexEncode (List.replicate 32 7)) := by
    decide +kernel
  have hsame : (sampleRequests 7).sessionToken = some (hexEncode (List.replicate 32 7)) := by
    decide +kernel
  obtain ⟨j, row, before, middle, after, hhash, htrace, hlogin, -⟩ := logout_is_final (by decide) hy hz
    (p := 6) (q := 7) rfl hfacts.1.1 hidle htoken hsame hfacts.2.1 rfl
  exact ⟨z, j, row, before, middle, after, _, hhash, htrace, hlogin⟩

theorem login_ends_sessions_sampleRun : ∃ (y : AuthConfig) (j : Nat)
    (before middle after : List Event), y.shared.trace = before ++ .rotated 0 (Uuid.small 1) ::
      (middle ++ .opened j sampleRow :: after) := by
  obtain ⟨y, z, hy, -, hfacts, -⟩ := sampleRevoked
  simp only [answers, List.map_cons, List.map_nil, Prod.mk.injEq, List.cons.injEq] at hfacts
  have hrow : sampleRow ∈ y.shared.sessions := by
    rw [hfacts.2.1]
    exact List.mem_singleton_self _
  obtain ⟨j, before, middle, after, htrace⟩ :=
    login_ends_sessions (by decide) hy (p := 0) rfl hfacts.1.1 hrow rfl
  exact ⟨y, j, before, middle, after, htrace⟩

theorem token_needs_session_sampleRun : ∃ (y : AuthConfig) (p : Nat) (row : DesktopTokenRecord)
    (session : SessionRow), .connected p row ∈ y.shared.trace ∧
      session.accountId = Uuid.small 1 ∧ Backed sampleEnv sampleRequests p session y.shared := by
  obtain ⟨y, z, hy, -, hfacts, -⟩ := sampleRevoked
  simp only [answers, List.map_cons, List.map_nil, Prod.mk.injEq, List.cons.injEq] at hfacts
  obtain ⟨p, row, session, hconnected, -, -, haccount, hbacked⟩ :=
    token_needs_session (by decide) hy (q := 2) rfl hfacts.1.2.1 sampleBearer_token
  exact ⟨y, p, row, session, hconnected, haccount, hbacked⟩

theorem revoked_token_refused_sampleRun : ∃ z : AuthConfig,
    (z.procs 4).1.result = some (.api (.error .invalid)) ∧
      ∀ auth, (z.procs 4).1.result ≠ some (.api (.ok auth)) := by
  obtain ⟨y, z, hy, hz, hfacts, hidle⟩ := sampleRevoked
  simp only [answers, List.map_cons, List.map_nil, Prod.mk.injEq, List.cons.injEq] at hfacts
  have hrow : sampleToken ∈ y.shared.desktopTokens := by
    rw [hfacts.2.2.1]
    exact List.mem_singleton_self _
  exact ⟨z, hfacts.2.2.2.1, revoked_token_refused (by decide) hy hz (p := 3) (q := 4) rfl
    hfacts.1.2.2.1 hrow rfl rfl sampleBearer_token hidle⟩

theorem revoked_once_sampleRun : ∃ y : AuthConfig, ∀ q headers',
    sampleRequests q = .revokeToken headers' (Uuid.small 9) →
      (y.procs q).1.result = some (.revoked (.ok ())) → q = 3 := by
  obtain ⟨y, z, hy, -, hfacts, -⟩ := sampleRevoked
  simp only [answers, List.map_cons, List.map_nil, Prod.mk.injEq, List.cons.injEq] at hfacts
  exact ⟨y, (revoked_once (by decide) hy (p := 3) rfl hfacts.1.2.2.1).2⟩

theorem password_set_once_sampleRun : ∃ z : AuthConfig, ∀ q headers password,
    sampleRequests q = .setPassword headers password →
      (z.procs q).1.result = some (.passwordSet (.ok (Uuid.small 2))) → 5 = q := by
  obtain ⟨y, z, hy, hz, hfacts, -⟩ := sampleRevoked
  simp only [answers, List.map_cons, List.map_nil, Prod.mk.injEq, List.cons.injEq] at hfacts
  have hset := (password_set_once (by decide) (Relation.ReflTransGen.trans hy hz)).1
  exact ⟨z, fun q headers password hq hres => hset 5 q sampleKey headers _ password (Uuid.small 2) rfl hq
    hfacts.2.2.2.2.1 hres⟩

end Samples

end EvidentLedger.Auth
