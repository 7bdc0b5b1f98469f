import EvidentLedger.Auth.Sessions

/-!
# What the requests learn

Every request by itself, whatever the others do between its statements: what its statements tell
(`knows_selectSession`, `knows_selectDesktopToken` and the like), what its programs make of that, and what
is known when it has answered.

* `Did P e`: an event, in a state in which `P` held before. `P` is what the request may rely on when it
  begins, so that the event is known to be a later one.
* `SessionOf`, `Connected`, `ByToken` and `ByKey` are what the programs learn.

## Results

* **`meets_request`**: every request that is answered has learned what `Told` says.
-/

namespace EvidentLedger.Auth

open Lib.Interleave Lib.Growth Lib.Lifetime Lib.Text

/-! ## What the statements tell

A statement is run in a state in which the invariant and `P` hold. What it tells must stay true while the
other requests go on, so it is about the trace, which only grows, or about rows that are kept. -/

section Statements

variable {env : Env} {requests : Nat → Request} {p : Nat} {ε : Type} {f : String → ε}
  {P : Shared → Prop} {g : Shared} {s : Sql} {accountId id : Uuid} {tokenHash : String}

variable (env requests p) in
/-- What a request learns. -/
abbrev Knows {α : Type} (P : Shared → Prop) (prog : Handler ε α) (M : α → Shared → Prop) : Prop :=
  Learns system (fun _ _ _ => True) (world env requests) p P prog M

variable (env requests) in
/-- What stays true while the requests run: every statement only lets the shared state grow. -/
abbrev Stays (P : Shared → Prop) : Prop := (world env requests).Lasting P

variable (env requests) in
/-- An event, in a state in which `P` held. -/
def Did (P : Shared → Prop) (e : Event) (g : Shared) : Prop :=
  ∃ g₀, P g₀ ∧ Inv env requests g₀ ∧ g₀.trace ++ [e] <+: g.trace

/-- The trace only grows, so an event that happened has happened for good. -/
theorem stays_did {e : Event} : Stays env requests (Did env requests P e) := by
  constructor
  rintro g g' (hle : Grows g g') ⟨g₀, hP, hi, hp⟩
  exact ⟨g₀, hP, hi, hp.trans hle.trace⟩

/-- The event is in the trace. -/
theorem Did.mem {e : Event} (h : Did env requests P e g) : e ∈ g.trace := by
  obtain ⟨g₀, -, -, hp⟩ := h
  exact hp.subset (by simp)

theorem stays_mem {e : Event} : Stays env requests fun g => e ∈ g.trace :=
  ⟨fun (hle : Grows _ _) hmem => hle.trace.subset hmem⟩

theorem stays_true : Stays env requests fun _ => True := ⟨fun _ h => h⟩

/-- **A statement**, and what it tells. -/
theorem knows_query {N : s.Res → Shared → Prop} (hP : Stays env requests P)
    (hN : ∀ a, Stays env requests (N a))
    (h : ∀ g c l, P g → Inv env requests g →
      (Inv env requests (s.exec p c g l).2.1 ∧ Grows g (s.exec p c g l).2.1) ∧
        ∀ a, (s.exec p c g l).1 = .ok a → N a (s.exec p c g l).2.1) :
    Knows env requests p P (query f s : Handler ε s.Res) fun a g => N a g ∧ P g := by
  refine learns_query hP (fun a => World.Lasting.and (hN a) hP) fun l g c r g' l' hp hi he => ?_
  have he' : (if c.fails then some ((.error "database error" : Except String s.Res), g, (none, none))
      else some (s.exec p c g l)) = some (r, g', l') := he
  -- the pool may fail any statement, and has then changed nothing
  split_ifs at he' with hfail
  · obtain ⟨rfl, rfl, -⟩ := Prod.mk.inj (Option.some.inj he')
    exact ⟨keeps_read hi, fun a ha => nomatch ha⟩
  · obtain ⟨hkeeps, htells⟩ := h g c l hp hi
    have hout := Option.some.inj he'
    rw [hout] at hkeeps htells
    exact ⟨hkeeps, fun a ha => ⟨htells a ha, hP.of_le hkeeps.2 hp⟩⟩

/-- A statement that tells nothing. -/
theorem knows_silent (hP : Stays env requests P) (h : ∀ g c l, Inv env requests g →
      Inv env requests (s.exec p c g l).2.1 ∧ Grows g (s.exec p c g l).2.1) :
    Knows env requests p P (query f s : Handler ε s.Res) fun _ g => P g :=
  (knows_query (N := fun _ _ => True) hP (fun _ => stays_true) fun g c l _ hi =>
    ⟨h g c l hi, fun _ _ => trivial⟩).mono (fun _ _ h => h) fun _ _ h => h.2

/-- A choice of the request's own (random bytes, the clock) touches nothing that is shared. -/
theorem knows_ask {a : Ask} (hP : Stays env requests P) :
    Knows env requests p P (ask a : Handler ε a.Ans) fun _ g => P g :=
  learns_ask hP fun l g c r g' l' he => by
    obtain ⟨-, rfl, -⟩ := Prod.mk.inj (Option.some.inj he)
    rfl

/-! ### Sessions -/

/-- Expired sessions are deleted: no event, and no row that a later lookup would have found. -/
theorem knows_cleanup (hP : Stays env requests P) : Knows env requests p P
    (query f Sql.cleanupExpiredSessions : Handler ε Unit) fun _ g => P g :=
  knows_silent hP fun g c l hi => keeps_log hi (by simp [Effect.apply, sessionEffect])
    (fun _ _ _ he => nomatch he) (fun _ _ he => nomatch he) rfl

/-- `DELETE FROM sessions WHERE account_id = $1`: the account's sessions are rotated. -/
theorem knows_deleteSessionsForAccount (hP : Stays env requests P) : Knows env requests p P
    (query f (Sql.deleteSessionsForAccount accountId) : Handler ε Unit)
      fun _ g => Did env requests P (.rotated p accountId) g ∧ P g := by
  refine knows_query hP (fun _ => stays_did) fun g c l hp hi => ⟨?_, fun _ _ => ?_⟩
  · exact keeps_log hi (by simp [Effect.apply, sessionEffect]) (fun _ _ _ he => nomatch he)
      (fun _ _ he => nomatch he) rfl
  · exact ⟨g, hp, hi, List.prefix_refl _⟩

/-- `DELETE FROM sessions WHERE token_hash = $1`: the session of the token is closed. -/
theorem knows_deleteSession (hP : Stays env requests P) : Knows env requests p P
    (query f (Sql.deleteSession tokenHash) : Handler ε Unit)
      fun _ g => Did env requests P (.closed p tokenHash) g ∧ P g := by
  refine knows_query hP (fun _ => stays_did) fun g c l hp hi => ⟨?_, fun _ _ => ?_⟩
  · exact keeps_log hi (by simp [Effect.apply, sessionEffect]) (fun _ _ _ he => nomatch he)
      (fun _ _ he => nomatch he) rfl
  · exact ⟨g, hp, hi, List.prefix_refl _⟩

/-- **A session is inserted** by a login that was verified. -/
theorem knows_insertSession {expiresAt : Int} (hP : Stays env requests P)
    (hlogin : ∀ g, P g → LoggedIn env requests g.accounts p accountId) :
    Knows env requests p P (query f (Sql.insertSession accountId tokenHash expiresAt) : Handler ε Unit)
      fun _ g => True ∧ P g := by
  refine knows_query (N := fun _ _ => True) hP (fun _ => stays_true) fun g c l hp hi =>
    ⟨?_, fun _ _ => trivial⟩
  dsimp only [Sql.exec]
  -- the hash of the token may be taken already: the unique index refuses it
  split_ifs with htaken
  · exact keeps_read hi
  · refine keeps_log hi (by simp [Effect.apply, sessionEffect]) (fun _ _ _ he => nomatch he)
      (fun q row he => ?_) rfl
    obtain ⟨rfl, rfl⟩ := Event.opened.inj he
    exact hlogin g hp

/-- **A session is found.** -/
theorem knows_selectSession (hP : Stays env requests P) : Knows env requests p P
    (query f (Sql.selectSession tokenHash) : Handler ε (Option SessionRow))
      fun (o : Option SessionRow) g => (∀ row, o = some row → ∃ now, Did env requests P (.found p row now) g ∧
        row.tokenHash = tokenHash) ∧ P g := by
  refine knows_query (s := .selectSession tokenHash)
    (N := fun (o : Option SessionRow) g => ∀ row, o = some row → ∃ now,
      Did env requests P (.found p row now) g ∧ row.tokenHash = tokenHash) hP
    (fun o => ⟨fun hle h row hrow => ?_⟩) fun g c l hp hi => ?_
  · obtain ⟨now, hdid, hrest⟩ := h row hrow
    exact ⟨now, stays_did.of_le hle hdid, hrest⟩
  · dsimp only [Sql.exec]
    split
    -- no session under the hash, or only expired ones
    · exact ⟨keeps_read hi, fun a ha row hrow => by
        rw [← Except.ok.inj ha] at hrow
        exact nomatch hrow⟩
    · rename_i row hfind
      have hrow := List.find?_some hfind
      rw [decide_eq_true_eq] at hrow
      refine ⟨keeps_log hi (by simp [Effect.apply, sessionEffect]) (fun q other now he => ?_)
        (fun _ _ he => nomatch he) rfl, fun a ha other hother => ?_⟩
      · obtain ⟨-, rfl, rfl⟩ := Event.found.inj he
        exact ⟨List.mem_of_find?_eq_some hfind, hrow.2⟩
      · rw [← Except.ok.inj ha] at hother
        obtain rfl := Option.some.inj hother
        exact ⟨c.now, ⟨g, hp, hi, List.prefix_refl _⟩, hrow.1⟩

/-! ### Desktop tokens -/

/-- **A desktop token is inserted** by a request that has found a session of the account. The hash
is not taken, or the statement fails on the unique index. -/
theorem knows_insertDesktopToken {expiresAt : Int} (hP : Stays env requests P)
    (hfound : ∀ g, P g → FoundBy p accountId g.trace) : Knows env requests p P
      (query f (Sql.insertDesktopToken id accountId tokenHash expiresAt) : Handler ε Unit)
        fun _ g => (∃ row : DesktopTokenRecord, .connected p row ∈ g.trace ∧ row.id = id ∧
          row.accountId = accountId ∧ row.tokenHash = tokenHash ∧ row.expiresAt = expiresAt) ∧ P g := by
  refine knows_query hP (fun _ => ⟨fun hle h => ?_⟩) fun g c l hp hi => ?_
  · obtain ⟨row, hmem, hrest⟩ := h
    exact ⟨row, stays_mem.of_le hle hmem, hrest⟩
  · dsimp only [Sql.exec]
    split_ifs with htaken
    · exact ⟨keeps_read hi, fun a ha => nomatch ha⟩
    · refine ⟨keeps_connect hi (fun other hother => ?_) (hfound g hp), fun _ _ =>
        ⟨⟨id, accountId, tokenHash, c.now, expiresAt, none⟩, by simp, rfl, rfl, rfl, rfl⟩⟩
      -- neither the id nor the hash is one of a row that is there
      have hfree := List.any_eq_false.mp (Bool.not_eq_true _ ▸ htaken) other hother
      simpa only [decide_eq_true_eq, not_or] using hfree

/-- **A desktop token is revoked**: the statement counts a row only where it was active before. -/
theorem knows_revokeDesktopToken (hP : Stays env requests P)
    (hfound : ∀ g, P g → FoundBy p accountId g.trace) : Knows env requests p P
      (query f (Sql.revokeDesktopToken id accountId) : Handler ε Nat)
        fun (n : Nat) g => (0 < n → .revoked p accountId id ∈ g.trace) ∧ P g := by
  refine knows_query (s := .revokeDesktopToken id accountId)
    (N := fun (n : Nat) g => 0 < n → Event.revoked p accountId id ∈ g.trace) hP
    (fun n => World.Lasting.imp stays_mem) fun g c l hp hi => ?_
  dsimp only [Sql.exec]
  split_ifs with hactive
  · exact ⟨keeps_revoke hi hactive (hfound g hp), fun _ _ _ => by simp⟩
  · exact ⟨keeps_read hi, fun n hn hpos => by
      rw [← Except.ok.inj hn] at hpos
      exact absurd hpos (Nat.lt_irrefl 0)⟩

/-- **A token is found**, as it was when `P` held. -/
theorem knows_selectDesktopToken (hP : Stays env requests P) : Knows env requests p P
    (query f (Sql.selectDesktopToken tokenHash) : Handler ε (Option DesktopTokenRecord))
      fun (o : Option DesktopTokenRecord) g => (∀ row, o = some row → ∃ g₀, P g₀ ∧ Inv env requests g₀ ∧ Grows g₀ g ∧
        row ∈ g₀.desktopTokens ∧ row.tokenHash = tokenHash ∧ row.revokedAt = none) ∧ P g := by
  refine knows_query (s := .selectDesktopToken tokenHash)
    (N := fun (o : Option DesktopTokenRecord) g => ∀ row, o = some row → ∃ g₀, P g₀ ∧ Inv env requests g₀ ∧
    Grows g₀ g ∧ row ∈ g₀.desktopTokens ∧ row.tokenHash = tokenHash ∧ row.revokedAt = none) hP
    (fun o => ⟨fun hle h row hrow => ?_⟩) fun g c l hp hi => ⟨keeps_read hi, fun a ha row hrow => ?_⟩
  · obtain ⟨g₀, hp, hi, hgrows, hrest⟩ := h row hrow
    exact ⟨g₀, hp, hi, Grows.trans hgrows hle, hrest⟩
  · rw [← Except.ok.inj ha] at hrow
    have hfields := List.find?_some hrow
    rw [decide_eq_true_eq] at hfields
    exact ⟨g, hp, hi, grows_refl g, List.mem_of_find?_eq_some hrow, hfields.1, hfields.2.1⟩

/-- **An API key is found**, which has not been revoked. -/
theorem knows_selectApiKey {keyHash : String} (hP : Stays env requests P) : Knows env requests p P
    (query f (Sql.selectApiKey keyHash) : Handler ε (Option ApiKeys.ApiKeyRow))
      fun (o : Option ApiKeys.ApiKeyRow) g => (∀ row, o = some row → row ∈ g.apiKeys ∧ row.keyHash = keyHash ∧
        row.revokedAt = none) ∧ P g := by
  refine knows_query (s := .selectApiKey keyHash)
    (N := fun (o : Option ApiKeys.ApiKeyRow) g => ∀ row, o = some row → row ∈ g.apiKeys ∧
      row.keyHash = keyHash ∧ row.revokedAt = none) hP (fun o => ⟨fun hle h row hrow => ?_⟩)
    fun g c l hp hi => ⟨keeps_read hi, fun a ha row hrow => ?_⟩
  · obtain ⟨hmem, hrest⟩ := h row hrow
    exact ⟨Grows.keys hle hmem, hrest⟩
  · rw [← Except.ok.inj ha] at hrow
    have hfields := List.find?_some hrow
    rw [decide_eq_true_eq] at hfields
    exact ⟨List.mem_of_find?_eq_some hrow, hfields⟩

/-! ### Accounts -/

/-- **A password is set**: one row where the account had none, no row otherwise. -/
theorem knows_setPassword {passwordHash : String} (hP : Stays env requests P) : Knows env requests p P
    (query f (Sql.setPassword accountId passwordHash) : Handler ε Nat)
      fun (n : Nat) g => (n = 1 → .passwordSet p accountId ∈ g.trace) ∧ P g := by
  refine knows_query (s := .setPassword accountId passwordHash)
    (N := fun (n : Nat) g => n = 1 → Event.passwordSet p accountId ∈ g.trace) hP
    (fun n => World.Lasting.imp stays_mem) fun g c l hp hi => ?_
  dsimp only [Sql.exec]
  split_ifs with hnone
  · exact ⟨keeps_setPassword hi hnone, fun _ _ _ => by simp⟩
  · exact ⟨keeps_read hi, fun n hn hone => by
      rw [← Except.ok.inj hn] at hone
      exact nomatch hone⟩

/-- **The account of an address.** -/
theorem knows_selectLogin {email : String} (hP : Stays env requests P) : Knows env requests p P
    (query f (Sql.selectLogin email) : Handler ε (Option (AccountRow × PlanRow)))
      fun (o : Option (AccountRow × PlanRow)) g => (∀ found, o = some found → found.1.email = email ∧
        ∃ row' ∈ g.accounts, found.1.Kept row') ∧ P g := by
  refine knows_query (s := .selectLogin email)
    (N := fun (o : Option (AccountRow × PlanRow)) g => ∀ found, o = some found → found.1.email = email ∧
    ∃ row' ∈ g.accounts, found.1.Kept row') hP (fun o => ⟨fun hle h found hfound => ?_⟩)
    fun g c l hp hi => ⟨keeps_read hi, fun a ha found hfound => ?_⟩
  · obtain ⟨hemail, row', hrow', hkept⟩ := h found hfound
    obtain ⟨row'', hrow'', hkept'⟩ := Grows.accounts hle row' hrow'
    exact ⟨hemail, row'', hrow'', hkept.trans hkept'⟩
  · rw [← Except.ok.inj ha] at hfound
    -- the account is joined with its plan: the row itself is the one of the address
    obtain ⟨row, hrow, hplan⟩ := List.exists_of_findSome?_eq_some hfound
    obtain ⟨plan, -, rfl⟩ := Option.map_eq_some_iff.mp hplan
    obtain ⟨hmem, hemail⟩ := List.mem_filter.mp hrow
    exact ⟨of_decide_eq_true hemail, row, hmem, .refl row⟩

end Statements

/-! ## What the programs learn -/

section Programs

variable (env : Env) (requests : Nat → Request) (p : Nat) (P : Shared → Prop)

/-- The request has found a session with the token. -/
def Resolved (token : String) (accountId : Uuid) (g : Shared) : Prop :=
  ∃ row now, Did env requests P (.found p row now) g ∧ row.accountId = accountId ∧
    row.tokenHash = hashSessionToken env.sha token

/-- The request has found a session with the token of its cookie. -/
def SessionOf (headers : Headers) (accountId : Uuid) (g : Shared) : Prop :=
  ∃ cookie token, headers.cookie = some cookie ∧ parseSessionCookie cookie = some token ∧
    Resolved env requests p P token accountId g

/-- The request has deleted the session of its cookie's token. -/
def LoggedOut (headers : Headers) (g : Shared) : Prop :=
  ∃ cookie token, headers.cookie = some cookie ∧ parseSessionCookie cookie = some token ∧
    Did env requests P (.closed p (hashSessionToken env.sha token)) g

/-- The request has inserted a desktop token. -/
def Connected (accountId tokenId : Uuid) (g : Shared) : Prop :=
  ∃ row : DesktopTokenRecord, .connected p row ∈ g.trace ∧ row.id = tokenId ∧
    row.accountId = accountId

/-- The hash of the desktop token that a bearer sends. -/
def tokenHashOf (headers : Headers) : Option String :=
  (headers.authorization.bind bearerToken).bind (hashDesktopTokenForLookup env.sha)

/-- The bearer has a desktop token that was not revoked, in a state in which `P` held. -/
def ByToken (headers : Headers) (auth : AuthedAccount) (g : Shared) : Prop :=
  ∃ (g₀ : Shared) (row : DesktopTokenRecord), tokenHashOf env headers = some row.tokenHash ∧ P g₀ ∧
    Inv env requests g₀ ∧ Grows g₀ g ∧ row ∈ g₀.desktopTokens ∧ row.revokedAt = none ∧
    auth = ⟨row.accountId, row.tokenHash⟩

/-- The client sends no desktop token, and has an API key that was not revoked. -/
def ByKey (headers : Headers) (auth : AuthedAccount) (g : Shared) : Prop :=
  tokenHashOf env headers = none ∧
    ∃ (rawKey : String) (row : ApiKeys.ApiKeyRow), headers.apiKey = some rawKey ∧ row ∈ g.apiKeys ∧
      row.keyHash = hashApiKeyForLookup env.sha rawKey ∧ row.revokedAt = none ∧
      auth = ⟨row.accountId, row.keyHash⟩

variable {env requests p P} {ε : Type} {f : String → ε} {accountId tokenId : Uuid}

/-- What the programs learn is about the trace and about rows that are kept, so each of it stays. -/
theorem stays_resolved {token : String} :
    Stays env requests (Resolved env requests p P token accountId) := by
  constructor
  rintro g g' hle ⟨row, now, hdid, hrest⟩
  exact ⟨row, now, stays_did.of_le hle hdid, hrest⟩

theorem stays_sessionOf {headers : Headers} :
    Stays env requests (SessionOf env requests p P headers accountId) := by
  constructor
  rintro g g' hle ⟨cookie, token, hcookie, htoken, hresolved⟩
  exact ⟨cookie, token, hcookie, htoken, stays_resolved.of_le hle hresolved⟩

theorem stays_loggedOut {headers : Headers} :
    Stays env requests (LoggedOut env requests p P headers) := by
  constructor
  rintro g g' hle ⟨cookie, token, hcookie, htoken, hdid⟩
  exact ⟨cookie, token, hcookie, htoken, stays_did.of_le hle hdid⟩

theorem stays_connected : Stays env requests (Connected p accountId tokenId) := by
  constructor
  rintro g g' hle ⟨row, hmem, hrest⟩
  exact ⟨row, stays_mem.of_le hle hmem, hrest⟩

theorem stays_byToken {headers : Headers} {auth : AuthedAccount} :
    Stays env requests (ByToken env requests P headers auth) := by
  constructor
  rintro g g' hle ⟨g₀, row, hhash, hp, hi, hgrows, hrest⟩
  exact ⟨g₀, row, hhash, hp, hi, hgrows.trans hle, hrest⟩

theorem stays_byKey {headers : Headers} {auth : AuthedAccount} :
    Stays env requests (ByKey env headers auth) := by
  constructor
  rintro g g' (hle : Grows g g') ⟨hnone, rawKey, row, hraw, hmem, hrest⟩
  exact ⟨hnone, rawKey, row, hraw, hle.keys hmem, hrest⟩

/-- A session that the cookie has led to is one that the request has found. -/
theorem foundBy_of_sessionOf {headers : Headers} {g : Shared}
    (h : SessionOf env requests p P headers accountId g) : FoundBy p accountId g.trace := by
  obtain ⟨_, _, -, -, row, now, hdid, hid, -⟩ := h
  exact ⟨row, now, hdid.mem, hid⟩

/-! ### Sessions -/

/-- **A session is created**, after those of the account have been deleted. -/
theorem knows_createSession (hP : Stays env requests P)
    (hlogin : ∀ g, P g → LoggedIn env requests g.accounts p accountId) :
    Knows env requests p P (createSession env f accountId)
      fun _ g => Did env requests P (.rotated p accountId) g := by
  have hrotated : Stays env requests
      fun g => Did env requests P (.rotated p accountId) g ∧ P g := World.Lasting.and stays_did hP
  unfold createSession
  refine learns_bind (knows_cleanup hP) fun _ => ?_
  refine learns_bind (knows_deleteSessionsForAccount hP) fun _ => ?_
  refine learns_bind (knows_ask hrotated) fun bytes => ?_
  refine learns_bind (knows_ask hrotated) fun now => ?_
  refine learns_bind (knows_insertSession hrotated fun g h => hlogin g h.2) fun _ => ?_
  exact learns_and fun _ => learns_pure hrotated fun g _ h => h.1

/-- **A token is resolved** to the account of the session that was found under its hash. -/
theorem knows_resolveSession {token : String} (hP : Stays env requests P) :
    Knows env requests p P (resolveSessionAccountId env f token) fun (o : Option Uuid) g =>
      (∀ a, o = some a → Resolved env requests p P token a g) ∧ P g := by
  unfold resolveSessionAccountId
  refine learns_bind (knows_cleanup hP) fun _ => ?_
  refine learns_bind (knows_selectSession hP) fun row => ?_
  cases row with
  | none =>
    refine Learns.mono (learns_pure hP fun g _ h => ⟨(fun a ha => nomatch ha), h⟩) (fun g _ h => h.2)
      fun _ _ h => h
  | some row =>
    have hstays : Stays env requests
        fun g => Resolved env requests p P token row.accountId g ∧ P g :=
      World.Lasting.and stays_resolved hP
    -- `last_seen_at` is touched, a column that nothing else reads
    have htouch : Knows env requests p (fun g => Resolved env requests p P token row.accountId g ∧ P g)
        (query f (Sql.touchSession row.id) : Handler ε Unit)
          fun _ g => Resolved env requests p P token row.accountId g ∧ P g :=
      knows_silent hstays fun g c l hi => keeps_read hi
    refine Learns.mono (learns_bind htouch fun _ => learns_pure hstays fun g _ h => ?_)
      (fun g _ h => ?_) fun _ _ h => h
    · exact ⟨fun a ha => Option.some.inj ha ▸ h.1, h.2⟩
    · obtain ⟨now, hdid, hhash⟩ := h.1 row rfl
      exact ⟨⟨row, now, hdid, rfl, hhash⟩, h.2⟩

/-- The dashboard's guard: no cookie, no token in it or no session for it is an error. -/
theorem knows_requireWebSession {headers : Headers} (hP : Stays env requests P) :
    Knows env requests p P (requireWebSession env headers) fun a g =>
      SessionOf env requests p P headers a g ∧ P g := by
  unfold requireWebSession
  refine learns_bind (learns_orElse hP) fun cookie => learns_and fun hcookie => ?_
  refine learns_bind (learns_orElse hP) fun token => learns_and fun htoken => ?_
  refine learns_bind (knows_resolveSession hP) fun found => ?_
  cases found with
  | none => exact learns_throw
  | some a =>
    have hstays : Stays env requests fun g => Resolved env requests p P token a g ∧ P g :=
      World.Lasting.and stays_resolved hP
    exact (learns_pure hstays fun g _ h => ⟨⟨cookie, token, hcookie, htoken, h.1⟩, h.2⟩).mono
      (fun g _ h => ⟨h.1 a rfl, h.2⟩) fun _ _ h => h

/-- The optional guard: nothing is learned where it names no account. -/
theorem knows_optionalSessionUser {headers : Headers} (hP : Stays env requests P) :
    Knows env requests p P (optionalSessionUser env headers : Handler ε (Option Uuid))
      fun o g => ∀ a, o = some a → SessionOf env requests p P headers a g ∧ P g := by
  unfold optionalSessionUser
  cases hcookie : headers.cookie with
  | none => exact learns_pure hP fun g _ _ a ha => nomatch ha
  | some cookie =>
    rw [Option.bind_some]
    cases htoken : parseSessionCookie cookie with
    | none => exact learns_pure hP fun g _ _ a ha => nomatch ha
    | some token =>
      -- an error of the lookup is dropped (`.ok()`), and reads as no session
      have heach : ∀ o : Option Uuid, Stays env requests
          fun g => ∀ a, o = some a → Resolved env requests p P token a g :=
        fun o => ⟨fun hle h a ha => stays_resolved.of_le hle (h a ha)⟩
      have hstays : ∀ o : Option Uuid, Stays env requests
          fun g => (∀ a, o = some a → Resolved env requests p P token a g) ∧ P g :=
        fun o => World.Lasting.and (heach o) hP
      refine learns_bind (learns_toOption hstays (knows_resolveSession hP)) fun found => ?_
      refine learns_pure ⟨fun hle h o ho => (hstays o).of_le hle (h o ho)⟩ fun g _ h a ha => ?_
      obtain ⟨hresolved, hp⟩ := h (some a) (Option.join_eq_some_iff.mp ha)
      exact ⟨⟨cookie, token, hcookie, htoken, hresolved a rfl⟩, hp⟩

/-- The guard of the desktop token requests: the optional one, with an error in place of nothing. -/
theorem knows_sessionUser {headers : Headers} (hP : Stays env requests P) :
    Knows env requests p P (sessionUser env headers) fun a g =>
      SessionOf env requests p P headers a g ∧ P g := by
  unfold sessionUser
  refine learns_bind (knows_optionalSessionUser hP) fun user => ?_
  cases user with
  | none => exact learns_throw
  | some a =>
    have hstays : Stays env requests fun g => SessionOf env requests p P headers a g ∧ P g :=
      World.Lasting.and stays_sessionOf hP
    exact (learns_pure hstays fun g _ h => h).mono (fun g _ h => h a rfl) fun _ _ h => h

/-! ### Desktop tokens -/

/-- **A desktop token is created** for the account of a session, under the id that is answered. -/
theorem knows_createDesktopToken (hP : Stays env requests P)
    (hfound : ∀ g, P g → FoundBy p accountId g.trace) :
    Knows env requests p P (createDesktopToken env f accountId) fun created g =>
      Connected p accountId created.id g ∧ P g := by
  unfold createDesktopToken
  refine learns_bind (knows_ask hP) fun bytes => ?_
  refine learns_bind (knows_ask hP) fun id => ?_
  refine learns_bind (knows_ask hP) fun now => ?_
  refine learns_bind (knows_insertDesktopToken hP hfound) fun _ => ?_
  have hstays : Stays env requests fun g => Connected p accountId id g ∧ P g :=
    World.Lasting.and stays_connected hP
  refine (learns_pure hstays fun g _ h => h).mono (fun g _ h => ?_) fun _ _ h => h
  obtain ⟨⟨row, hmem, hid, haccount, -⟩, hp⟩ := h
  exact ⟨⟨row, hmem, hid, haccount⟩, hp⟩

/-- The answer `true` is an update that counted a row. -/
theorem knows_revokeToken (hP : Stays env requests P)
    (hfound : ∀ g, P g → FoundBy p accountId g.trace) :
    Knows env requests p P (revokeDesktopToken f accountId tokenId) fun revoked g =>
      (revoked = true → .revoked p accountId tokenId ∈ g.trace) ∧ P g := by
  unfold revokeDesktopToken
  refine learns_bind (knows_revokeDesktopToken hP hfound) fun (updated : Nat) => ?_
  exact learns_pure (World.Lasting.and (World.Lasting.imp stays_mem) hP) fun g _ h =>
    ⟨fun hr => h.1 (of_decide_eq_true hr), h.2⟩

/-! ### API requests -/

/-- **A bearer token is resolved.** Where it is no desktop token, that is known too: the caller goes
on to the API key. -/
theorem knows_resolveDesktopBearer {f : AuthError → ε} {headers : Headers}
    (hP : Stays env requests P) :
    Knows env requests p P (resolveDesktopBearer env f headers) fun (o : Option AuthedAccount) g =>
      ((∀ auth, o = some auth → ByToken env requests P headers auth g) ∧
        (o = none → tokenHashOf env headers = none)) ∧ P g := by
  have hnone : tokenHashOf env headers = none →
      Knows env requests p P (pure none : Handler ε (Option AuthedAccount)) fun o g =>
        ((∀ auth, o = some auth → ByToken env requests P headers auth g) ∧
          (o = none → tokenHashOf env headers = none)) ∧ P g :=
    fun hno => learns_pure hP fun g _ h => ⟨⟨(fun a ha => nomatch ha), fun _ => hno⟩, h⟩
  unfold resolveDesktopBearer
  cases hraw : headers.authorization.bind bearerToken with
  | none => exact hnone (by rw [tokenHashOf, hraw, Option.bind_none])
  | some raw =>
    dsimp only
    cases hhash : hashDesktopTokenForLookup env.sha raw with
    | none => exact hnone (by rw [tokenHashOf, hraw, Option.bind_some, hhash])
    | some tokenHash =>
      dsimp only
      refine learns_bind (knows_selectDesktopToken hP) fun found => ?_
      cases found with
      | none =>
        rw [orElse_none_bind]
        exact learns_throw
      | some row =>
        have hstays : Stays env requests fun g =>
            ByToken env requests P headers ⟨row.accountId, row.tokenHash⟩ g ∧ P g :=
          World.Lasting.and stays_byToken hP
        refine Learns.mono (P := fun g =>
          ByToken env requests P headers ⟨row.accountId, row.tokenHash⟩ g ∧ P g) ?_
          (fun g _ h => ?_) fun _ _ h => h
        · rw [orElse_some_bind]
          -- the update of `last_used_at` may fail, and its error is dropped
          have htouch : Knows env requests p (fun g =>
              ByToken env requests P headers ⟨row.accountId, row.tokenHash⟩ g ∧ P g)
              (try_ (Sql.touchDesktopToken row.id) : Handler ε (Except String Unit)) fun _ g =>
                ByToken env requests P headers ⟨row.accountId, row.tokenHash⟩ g ∧ P g :=
            learns_try hstays (fun _ => hstays) fun l g c r g' l' hp hi he => by
              have hsame : g' = g := by
                have he' : (if c.fails then some ((.error "database error" : Except String Unit), g,
                    ((none, none) : Local)) else some (.ok (), g, l)) = some (r, g', l') := he
                split_ifs at he'
                · exact (Prod.mk.inj (Prod.mk.inj (Option.some.inj he')).2).1.symm
                · exact (Prod.mk.inj (Prod.mk.inj (Option.some.inj he')).2).1.symm
              rw [hsame]
              exact ⟨keeps_read hi, hp⟩
          refine learns_bind htouch fun _ => learns_pure hstays fun g _ h => ?_
          exact ⟨⟨fun a ha => Option.some.inj ha ▸ h.1, fun hn => nomatch hn⟩, h.2⟩
        · obtain ⟨g₀, hp, hi, hgrows, hmem, hrow, hactive⟩ := h.1 row rfl
          have htoken : tokenHashOf env headers = some row.tokenHash := by
            rw [tokenHashOf, hraw, Option.bind_some, hhash, hrow]
          exact ⟨⟨g₀, row, htoken, hp, hi, hgrows, hmem, hactive, rfl⟩, h.2⟩

/-- **An api request is let in** by a desktop token, or without one by an API key. -/
theorem knows_resolveAuthedAccount {f : AuthError → ε} {headers : Headers}
    (hP : Stays env requests P) :
    Knows env requests p P (resolveAuthedAccount env f headers) fun auth g =>
      (ByToken env requests P headers auth g ∨ ByKey env headers auth g) ∧ P g := by
  unfold resolveAuthedAccount
  refine learns_bind (knows_resolveDesktopBearer hP) fun found => ?_
  cases found with
  | some auth =>
    have hstays : Stays env requests fun g => ByToken env requests P headers auth g ∧ P g :=
      World.Lasting.and stays_byToken hP
    exact (learns_pure hstays fun g _ h => ⟨Or.inl h.1, h.2⟩).mono
      (fun g _ h => ⟨h.1.1 auth rfl, h.2⟩) fun _ _ h => h
  | none =>
    refine Learns.mono (P := fun g => tokenHashOf env headers = none ∧ P g) ?_
      (fun _ _ h => ⟨h.1.2 rfl, h.2⟩) fun _ _ h => h
    -- no desktop token was sent: the key is looked up by its hash
    refine learns_and fun hno => ?_
    refine learns_bind (learns_orElse hP) fun rawKey => learns_and fun hraw => ?_
    refine learns_bind (knows_selectApiKey hP) fun row => ?_
    cases row with
    | none =>
      rw [orElse_none_bind]
      exact learns_throw
    | some row =>
      rw [orElse_some_bind]
      have hstays : Stays env requests fun g => ByKey env headers ⟨row.accountId, row.keyHash⟩ g ∧ P g :=
        World.Lasting.and stays_byKey hP
      refine (learns_pure hstays fun g _ h => ⟨Or.inr h.1, h.2⟩).mono (fun g _ h => ?_) fun _ _ h => h
      obtain ⟨hmem, hhash, hactive⟩ := h.1 row rfl
      exact ⟨⟨hno, rawKey, row, hraw, hmem, hhash, hactive, rfl⟩, h.2⟩

/-! ### Accounts -/

/-- A registration opens no session and finds none: what held goes on to hold. -/
theorem knows_register {email : String} {passwordHash : Option String} (hP : Stays env requests P) :
    Knows env requests p P (register env email passwordHash) fun _ g => P g := by
  -- the reads of a registration, whatever they answer, change nothing
  have hread : ∀ s : Sql, (∀ g c l, (s.exec p c g l).2.1 = g) →
      Knows env requests p P (query RegisterError.database s) fun _ g => P g := by
    intro s hs
    refine knows_silent hP fun g c l hi => ?_
    rw [hs]
    exact keeps_read hi
  unfold register
  refine learns_bind (hread _ fun _ _ _ => rfl) fun taken => ?_
  refine learns_bind (learns_require hP) fun _ => learns_and fun _ => ?_
  refine learns_bind (hread _ fun _ _ _ => rfl) fun plan => ?_
  refine learns_bind (learns_orElse hP) fun freePlan => learns_and fun _ => ?_
  refine learns_bind (knows_ask hP) fun accountId => ?_
  refine learns_bind (hread _ fun _ _ _ => rfl) fun createdAt => ?_
  refine learns_bind (knows_ask hP) fun bytes => ?_
  refine learns_bind (hread _ fun _ _ _ => rfl) fun _ => ?_
  refine learns_bind (knows_silent hP fun g c l hi => keeps_commit hi l) fun _ => ?_
  exact learns_pure hP fun g _ h => h

theorem knows_registerHandler {email password : String} (hP : Stays env requests P) :
    Knows env requests p P (registerHandler env email password) fun _ g => P g := by
  unfold registerHandler
  refine learns_bind (learns_require hP) fun _ => learns_and fun _ => ?_
  refine learns_bind (knows_ask hP) fun salt => ?_
  refine learns_bind (learns_orElse hP) fun passwordHash => learns_and fun _ => ?_
  exact learns_mapError (fun _ => hP) (knows_register hP)

/-- The password is set where the update counts one row. Otherwise the account is read once
more, for the error that is answered. -/
theorem knows_setAccountPassword {passwordHash : String} (hP : Stays env requests P) :
    Knows env requests p P (setAccountPassword accountId passwordHash)
      fun _ g => .passwordSet p accountId ∈ g.trace := by
  unfold setAccountPassword
  refine learns_bind (knows_setPassword hP) fun (updated : Nat) => ?_
  by_cases hone : updated = 1
  · rw [if_pos hone]
    exact learns_pure (World.Lasting.and (World.Lasting.imp stays_mem) hP) fun g _ h => h.1 hone
  · rw [if_neg hone]
    refine Learns.mono (P := P) ?_ (fun _ _ h => h.2) fun _ _ h => h
    refine learns_bind (knows_silent hP fun g c l hi => keeps_read hi) fun found => ?_
    exact learns_bind (learns_orElse hP) fun _ => learns_throw

/-! ### Handlers -/

/-- **A login is answered** after the password has matched the account of the address and the
account's sessions have been deleted. -/
theorem knows_login {email password : String} (hP : Stays env requests P)
    (hreq : requests p = .login email password) :
    Knows env requests p P (loginHandler env email password)
      fun r g => Did env requests P (.rotated p r.accountId) g := by
  unfold loginHandler
  refine learns_bind (learns_require hP) fun _ => learns_and fun _ => ?_
  refine learns_bind (knows_selectLogin hP) fun found => ?_
  cases found with
  | none =>
    rw [orElse_none_bind]
    exact learns_throw
  | some found =>
    rw [orElse_some_bind]
    -- from here on the row of the account is kept: a later write may set its password only where it
    -- had none, so the hash that was read is still the account's
    refine Learns.mono (P := fun g => (found.1.email = env.toLowercase (trim email) ∧
      ∃ row' ∈ g.accounts, found.1.Kept row') ∧ P g) ?_ (fun g _ h => ⟨h.1 found rfl, h.2⟩)
        fun _ _ h => h
    have hstays : Stays env requests fun g => (found.1.email = env.toLowercase (trim email) ∧
        ∃ row' ∈ g.accounts, found.1.Kept row') ∧ P g := by
      constructor
      rintro g g' (hle : Grows g g') ⟨⟨hemail, row, hrow, hkept⟩, hp⟩
      obtain ⟨row', hrow', hkept'⟩ := hle.accounts row hrow
      exact ⟨⟨hemail, row', hrow', hkept.trans hkept'⟩, hP.of_le hle hp⟩
    refine learns_bind (learns_orElse hstays) fun storedHash => learns_and fun hhash => ?_
    refine learns_bind (learns_orElse hstays) fun valid => learns_and fun hvalid => ?_
    refine learns_bind (learns_require hstays) fun _ => learns_and fun htrue => ?_
    -- what the new session rests on: the address and the password of the request are the account's
    have hlogin : ∀ g, ((found.1.email = env.toLowercase (trim email) ∧
        ∃ row' ∈ g.accounts, found.1.Kept row') ∧ P g) →
          LoggedIn env requests g.accounts p found.1.accountId := by
      rintro g ⟨⟨hemail, row', hrow', hkept⟩, -⟩
      refine ⟨email, password, row', storedHash, hreq, hrow', hkept.accountId,
        hkept.email.trans hemail, ?_, by rw [hvalid, htrue]⟩
      rw [hkept.password (by simp [hhash]), hhash]
    refine learns_bind (knows_createSession hstays hlogin) fun token => ?_
    refine learns_pure stays_did fun g _ h => ?_
    obtain ⟨g₀, hp, hrest⟩ := h
    exact ⟨g₀, hp.2, hrest⟩

/-- **A logout is answered** after a session was found and the session of the token was deleted. -/
theorem knows_logout {headers : Headers} (hP : Stays env requests P) :
    Knows env requests p P (logoutHandler env headers) fun _ g => ∃ a,
      SessionOf env requests p P headers a g ∧ LoggedOut env requests p P headers g := by
  unfold logoutHandler
  refine learns_bind (learns_orElse hP) fun cookie => learns_and fun hcookie => ?_
  refine learns_bind (learns_orElse hP) fun token => learns_and fun htoken => ?_
  refine learns_bind (knows_requireWebSession hP) fun a => ?_
  have hsession : Stays env requests fun g => SessionOf env requests p P headers a g ∧ P g :=
    World.Lasting.and stays_sessionOf hP
  -- the session is deleted by the hash of the same token that was resolved
  have hclosed : Knows env requests p (fun g => SessionOf env requests p P headers a g ∧ P g)
      (deleteSessionByToken env (fun _ => ApiError.internal) token) fun _ g =>
        Did env requests (fun g => SessionOf env requests p P headers a g ∧ P g)
          (.closed p (hashSessionToken env.sha token)) g ∧
        SessionOf env requests p P headers a g ∧ P g :=
    learns_bind (knows_cleanup hsession) fun _ => (knows_deleteSession hsession).mono (fun _ _ h => h)
      fun _ _ h => h
  refine learns_bind hclosed fun _ => ?_
  refine learns_pure (World.Lasting.and stays_did hsession) fun g _ h => ⟨a, h.2.1, ?_⟩
  obtain ⟨⟨g₀, hp, hi, hevent⟩, -⟩ := h
  exact ⟨cookie, token, hcookie, htoken, g₀, hp.2, hi, hevent⟩

/-- **A password is set** for the account that a desktop token or an API key stands for. -/
theorem knows_setPasswordHandler {headers : Headers} {password : String} (hP : Stays env requests P) :
    Knows env requests p P (setPasswordHandler env headers password)
      fun a g => .passwordSet p a ∈ g.trace := by
  unfold setPasswordHandler
  refine learns_bind ((knows_resolveAuthedAccount hP).mono (fun _ _ h => h) fun _ _ h => h.2)
    fun auth => ?_
  refine learns_bind (learns_require hP) fun _ => learns_and fun _ => ?_
  refine learns_bind (knows_ask hP) fun salt => ?_
  refine learns_bind (learns_orElse hP) fun passwordHash => learns_and fun _ => ?_
  refine learns_bind (knows_setAccountPassword hP) fun _ => ?_
  exact learns_pure stays_mem fun g _ h => h

/-- A request of the dashboard, and what it does for the account of the session. -/
theorem knows_createToken {headers : Headers} (hP : Stays env requests P) :
    Knows env requests p P (createTokenHandler env headers) fun created g => ∃ a,
      SessionOf env requests p P headers a g ∧ Connected p a created.id g := by
  unfold createTokenHandler
  refine learns_bind (knows_sessionUser hP) fun a => ?_
  exact (knows_createDesktopToken (World.Lasting.and stays_sessionOf hP)
    fun g h => foundBy_of_sessionOf h.1).mono (fun _ _ h => h) fun _ _ h => ⟨a, h.2.1, h.1⟩

/-- **A revocation is answered** after the account of the session has revoked the token. -/
theorem knows_revoke {headers : Headers} (hP : Stays env requests P) :
    Knows env requests p P (revokeTokenHandler env headers tokenId) fun _ g => ∃ a,
      SessionOf env requests p P headers a g ∧ .revoked p a tokenId ∈ g.trace := by
  unfold revokeTokenHandler
  refine learns_bind (knows_sessionUser hP) fun a => ?_
  have hsession : Stays env requests fun g => SessionOf env requests p P headers a g ∧ P g :=
    World.Lasting.and stays_sessionOf hP
  refine learns_bind (knows_revokeToken hsession fun g h => foundBy_of_sessionOf h.1) fun revoked => ?_
  -- `false` is answered as an error, so that a success has counted a row
  cases revoked with
  | false => exact learns_throw
  | true =>
    have hrevoked : Stays env requests fun g =>
        Event.revoked p a tokenId ∈ g.trace ∧ SessionOf env requests p P headers a g ∧ P g :=
      World.Lasting.and stays_mem hsession
    exact Learns.mono (learns_pure hrevoked fun g _ h => ⟨a, h.2.1, h.1⟩)
      (fun g _ h => ⟨h.1 rfl, h.2⟩) fun _ _ h => h

/-- **A connection is answered** with a token of the account of the session. Without a session the
answer is the login page, and where the redirect address is refused it is an error. -/
theorem knows_confirm {headers : Headers} {original : String} {redirectUri : Option String}
    (hP : Stays env requests P) :
    Knows env requests p P (confirmHandler env headers original redirectUri) fun confirmation g =>
      ∀ id reply, confirmation = .connected id reply → ∃ a,
        SessionOf env requests p P headers a g ∧ Connected p a id g := by
  unfold confirmHandler
  refine learns_bind (knows_optionalSessionUser hP) fun user => ?_
  cases user with
  | none =>
    exact (learns_pure (P := fun _ => True) stays_true fun g _ _ id reply h => nomatch h).mono
      (fun _ _ _ => trivial) fun _ _ h => h
  | some a =>
    have hsession : Stays env requests fun g => SessionOf env requests p P headers a g ∧ P g :=
      World.Lasting.and stays_sessionOf hP
    refine Learns.mono (P := fun g => SessionOf env requests p P headers a g ∧ P g) ?_
      (fun g _ h => h a rfl) fun _ _ h => h
    refine learns_bind (knows_createDesktopToken hsession fun g h => foundBy_of_sessionOf h.1)
      fun created => ?_
    have hcreated : Stays env requests fun g => Connected p a created.id g ∧
        SessionOf env requests p P headers a g ∧ P g := World.Lasting.and stays_connected hsession
    have htold (sent g) (h : Connected p a created.id g ∧ SessionOf env requests p P headers a g ∧ P g)
        (id reply) (hid : Confirmation.connected created.id sent = .connected id reply) :
        ∃ a, SessionOf env requests p P headers a g ∧ Connected p a id g := by
      rw [← (Confirmation.connected.inj hid).1]
      exact ⟨a, h.2.1, h.1⟩
    -- the token is stored before the reply is formed: it is there even where the reply panics
    cases connectForm created.generated (env.toRfc3339 created.expiresAt) redirectUri with
    | none => exact learns_pure hcreated fun _ _ => htold _ _
    | some reply =>
      cases reply with
      | invalidRequest => exact learns_throw
      | redirect target => exact learns_pure hcreated fun _ _ => htold _ _
      | page token expiresAt => exact learns_pure hcreated fun _ _ => htold _ _

end Programs

/-! ## What a reply tells

The error replies tell nothing. A reply is one of its own request's: `Told` is `False` for any other. -/

/-- **What a request has learned that was answered.** -/
def Told (env : Env) (requests : Nat → Request) (P : Shared → Prop) (p : Nat) (g : Shared) :
    Request → Reply → Prop
  | .registerAccount _, .registered _ | .registerWeb _ _, .registeredWeb _ => True
  | .login _ _, .loggedIn result => ∀ r, result = .ok r →
      Did env requests P (.rotated p r.accountId) g
  | .me headers, .me result => ∀ r, result = .ok r →
      SessionOf env requests p P headers r.accountId g
  | .logout headers, .loggedOut result => ∀ setCookie, result = .ok setCookie → ∃ a,
      SessionOf env requests p P headers a g ∧ LoggedOut env requests p P headers g
  | .setPassword _ _, .passwordSet result => ∀ a, result = .ok a → .passwordSet p a ∈ g.trace
  | .createToken headers, .created result => ∀ created, result = .ok created → ∃ a,
      SessionOf env requests p P headers a g ∧ Connected p a created.id g
  | .confirm headers _ _, .confirmed result => ∀ confirmation, result = .ok confirmation →
      ∀ id reply, confirmation = .connected id reply → ∃ a,
        SessionOf env requests p P headers a g ∧ Connected p a id g
  | .revokeToken headers tokenId, .revoked result => ∀ u, result = .ok u → ∃ a,
      SessionOf env requests p P headers a g ∧ .revoked p a tokenId ∈ g.trace
  | .api headers, .api result => ∀ auth, result = .ok auth →
      ByToken env requests P headers auth g ∨ ByKey env headers auth g
  | _, _ => False

section Requests

variable {env : Env} {requests : Nat → Request} {p : Nat} {P : Shared → Prop}

/-- A program, and what is made of its result. -/
theorem told_finish {ε α : Type} {prog : Handler ε α} {f : Except ε α → Reply} {request : Request}
    {M : α → Shared → Prop} (h : Knows env requests p P prog M)
    (hM : ∀ a, Stays env requests (M a))
    (hf : ∀ r g, (∀ a, r = .ok a → M a g) → Told env requests P p g request (f r)) :
    Meets system (fun _ _ _ => True) (world env requests) p P (finish f prog) fun reply g =>
      Told env requests P p g request reply := by
  refine (meets_finish hM h).post fun reply g hr => ?_
  obtain ⟨r, rfl, hr⟩ := hr
  exact hf r g hr

/-- **Every request.** -/
theorem meets_request (hP : Stays env requests P) (request : Request) (hreq : requests p = request) :
    Meets system (fun _ _ _ => True) (world env requests) p P (request.run env) fun reply g =>
      Told env requests P p g request reply := by
  cases request with
  | registerAccount email =>
    exact told_finish (f := Reply.registered) (knows_register hP) (fun _ => hP) fun _ _ _ => trivial
  | registerWeb email password =>
    exact told_finish (f := Reply.registeredWeb) (knows_registerHandler hP) (fun _ => hP)
      fun _ _ _ => trivial
  | login email password =>
    exact told_finish (f := Reply.loggedIn) (knows_login hP hreq) (fun _ => stays_did) fun _ _ h => h
  | me headers =>
    -- `me` is its guard and one read
    have hme : Knows env requests p P (getMe env headers)
        fun r g => SessionOf env requests p P headers r.accountId g := by
      unfold getMe
      refine learns_bind (knows_requireWebSession hP) fun a => ?_
      have hsession : Stays env requests fun g => SessionOf env requests p P headers a g ∧ P g :=
        World.Lasting.and stays_sessionOf hP
      refine learns_bind (knows_silent hsession fun g c l hi => keeps_read hi) fun found => ?_
      refine learns_bind (learns_orElse hsession) fun row => learns_and fun _ => ?_
      exact learns_pure hsession fun g _ h => h.1
    exact told_finish (f := Reply.me) hme (fun _ => stays_sessionOf) fun _ _ h => h
  | logout headers =>
    refine told_finish (f := Reply.loggedOut) (knows_logout hP) (fun _ => ?_) fun _ _ h => h
    constructor
    rintro g g' hle ⟨a, hsession, hout⟩
    exact ⟨a, stays_sessionOf.of_le hle hsession, stays_loggedOut.of_le hle hout⟩
  | setPassword headers password =>
    exact told_finish (f := Reply.passwordSet) (knows_setPasswordHandler hP) (fun _ => stays_mem)
      fun _ _ h => h
  | createToken headers =>
    refine told_finish (f := Reply.created) (knows_createToken hP) (fun _ => ?_) fun _ _ h => h
    constructor
    rintro g g' hle ⟨a, hsession, hconnected⟩
    exact ⟨a, stays_sessionOf.of_le hle hsession, stays_connected.of_le hle hconnected⟩
  | confirm headers original redirectUri =>
    refine told_finish (f := Reply.confirmed) (knows_confirm hP) (fun _ => ?_) fun _ _ h => h
    constructor
    rintro g g' hle h id reply hid
    obtain ⟨a, hsession, hconnected⟩ := h id reply hid
    exact ⟨a, stays_sessionOf.of_le hle hsession, stays_connected.of_le hle hconnected⟩
  | revokeToken headers tokenId =>
    refine told_finish (f := Reply.revoked) (knows_revoke hP) (fun _ => ?_) fun _ _ h => h
    constructor
    rintro g g' hle ⟨a, hsession, hrevoked⟩
    exact ⟨a, stays_sessionOf.of_le hle hsession, stays_mem.of_le hle hrevoked⟩
  | api headers =>
    have hstays : ∀ auth, Stays env requests fun g =>
        (ByToken env requests P headers auth g ∨ ByKey env headers auth g) ∧ P g := by
      refine fun auth => ⟨?_⟩
      rintro g g' hle ⟨h | h, hp⟩
      · exact ⟨Or.inl (stays_byToken.of_le hle h), hP.of_le hle hp⟩
      · exact ⟨Or.inr (stays_byKey.of_le hle h), hP.of_le hle hp⟩
    exact told_finish (f := Reply.api) (knows_resolveAuthedAccount hP) hstays
      fun _ _ h auth ha => (h auth ha).1

end Requests

end EvidentLedger.Auth
