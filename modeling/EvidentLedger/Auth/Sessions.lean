import EvidentLedger.Auth.Handlers
import EvidentLedger.Lib.Lifetime

/-!
# What is kept of accounts, sessions and tokens

The invariant of the tables, and the order in which they grow, for any number of requests that take turns
statement by statement.

* The sessions are the replay of the trace: a login adds one, and its end is the next login of the
  account, a logout with its token, or its expiry (`sessionEffect`).
* An account keeps its address and its password once it has one, a desktop token its account, its hash
  and its revocation (`Grows`).

## Results

* `keeps_log`, `keeps_commit`, `keeps_setPassword`, `keeps_connect`, `keeps_revoke`: every statement keeps
  the invariant and grows the tables. An insert into `sessions` does if the request is a login that was
  verified, and a change of the desktop tokens if the request has found a session of the account.
-/

namespace EvidentLedger.Auth

open Lib.Interleave Lib.Growth Lib.Lifetime Lib.Text

/-! ## The order -/

section Rows

/-- What stays of an account. -/
structure AccountRow.Kept (row row' : AccountRow) : Prop where
  accountId : row'.accountId = row.accountId
  email : row'.email = row.email
  password : row.passwordHash ≠ none → row'.passwordHash = row.passwordHash

/-- What stays of a desktop token. -/
structure DesktopTokenRecord.Kept (row row' : DesktopTokenRecord) : Prop where
  id : row'.id = row.id
  accountId : row'.accountId = row.accountId
  tokenHash : row'.tokenHash = row.tokenHash
  expiresAt : row'.expiresAt = row.expiresAt
  revoked : row.revokedAt ≠ none → row'.revokedAt = row.revokedAt

theorem AccountRow.Kept.refl (row : AccountRow) : row.Kept row := ⟨rfl, rfl, fun _ => rfl⟩

theorem AccountRow.Kept.trans {a b c : AccountRow} (h : a.Kept b) (h' : b.Kept c) : a.Kept c where
  accountId := h'.accountId.trans h.accountId
  email := h'.email.trans h.email
  password ha := (h'.password (by rwa [h.password ha])).trans (h.password ha)

theorem DesktopTokenRecord.Kept.refl (row : DesktopTokenRecord) : row.Kept row :=
  ⟨rfl, rfl, rfl, rfl, fun _ => rfl⟩

theorem DesktopTokenRecord.Kept.trans {a b c : DesktopTokenRecord} (h : a.Kept b) (h' : b.Kept c) :
    a.Kept c where
  id := h'.id.trans h.id
  accountId := h'.accountId.trans h.accountId
  tokenHash := h'.tokenHash.trans h.tokenHash
  expiresAt := h'.expiresAt.trans h.expiresAt
  revoked ha := (h'.revoked (by rwa [h.revoked ha])).trans (h.revoked ha)

/-- `UPDATE accounts SET password_hash … WHERE password_hash IS NULL` keeps a password that is
there. -/
theorem AccountRow.kept_setPassword (accountId : Uuid) (passwordHash : String) (row : AccountRow) :
    row.Kept (row.setPassword accountId passwordHash) := by
  unfold AccountRow.setPassword
  split_ifs with h
  · exact ⟨rfl, rfl, fun hne => absurd h.2 hne⟩
  · exact .refl row

/-- A revocation touches no token that is revoked already. -/
theorem DesktopTokenRecord.kept_revoke (id accountId : Uuid) (now : Int) (row : DesktopTokenRecord) :
    row.Kept (row.revoke id accountId now) := by
  unfold DesktopTokenRecord.revoke
  split_ifs with h
  · simp only [DesktopTokenRecord.isActive, Bool.and_eq_true, Option.isNone_iff_eq_none] at h
    exact ⟨rfl, rfl, rfl, rfl, fun hne => absurd h.2 hne⟩
  · exact .refl row

end Rows

/-- Every row is there in some form. -/
def Persist {R : Type} (Kept : R → R → Prop) (rows rows' : List R) : Prop :=
  ∀ row ∈ rows, ∃ row' ∈ rows', Kept row row'

section Persistence

variable {R : Type} {Kept : R → R → Prop} {rows rows' rows'' : List R}

/-- New rows leave the old ones. -/
theorem persist_append (hrefl : ∀ row, Kept row row) (more : List R) :
    Persist Kept rows (rows ++ more) :=
  fun row hrow => ⟨row, List.mem_append_left more hrow, hrefl row⟩

/-- Rows persist under a change that keeps each of them. -/
theorem persist_map {f : R → R} (hf : ∀ row, Kept row (f row)) : Persist Kept rows (rows.map f) :=
  fun row hrow => ⟨f row, List.mem_map_of_mem hrow, hf row⟩

theorem Persist.trans (htrans : ∀ {a b c}, Kept a b → Kept b c → Kept a c)
    (h : Persist Kept rows rows') (h' : Persist Kept rows' rows'') : Persist Kept rows rows'' := by
  intro row hrow
  obtain ⟨row', hrow', hkept⟩ := h row hrow
  obtain ⟨row'', hrow'', hkept'⟩ := h' row' hrow'
  exact ⟨row'', hrow'', htrans hkept hkept'⟩

end Persistence

/-- **How the tables grow.** -/
structure Grows (g g' : Shared) : Prop where
  trace : g.trace <+: g'.trace
  accounts : Persist AccountRow.Kept g.accounts g'.accounts
  tokens : Persist DesktopTokenRecord.Kept g.desktopTokens g'.desktopTokens
  keys : g.apiKeys ⊆ g'.apiKeys

/-- Nothing has happened. -/
theorem grows_refl (g : Shared) : Grows g g where
  trace := List.prefix_refl _
  accounts row hrow := ⟨row, hrow, .refl row⟩
  tokens row hrow := ⟨row, hrow, .refl row⟩
  keys _ hrow := hrow

/-- Growth upon growth. -/
theorem Grows.trans {a b c : Shared} (h : Grows a b) (h' : Grows b c) : Grows a c :=
  ⟨h.trace.trans h'.trace, h.accounts.trans AccountRow.Kept.trans h'.accounts,
    h.tokens.trans DesktopTokenRecord.Kept.trans h'.tokens, fun _ hrow => h'.keys (h.keys hrow)⟩

/-! ## The invariant -/

/-- An event of the sessions. -/
def Event.ofSessions : Event → Bool
  | .purged _ | .rotated .. | .opened .. | .closed .. | .found .. => true
  | .connected .. | .revoked .. | .passwordSet .. => false

/-- How sessions begin and end. -/
def sessionEffect : Effect Event SessionRow where
  adds
    | .opened _ row => [row]
    | _ => []
  ends
    | .purged now, row => decide (row.expiresAt < now)
    | .rotated _ accountId, row => decide (row.accountId = accountId)
    | .closed _ tokenHash, row => decide (row.tokenHash = tokenHash)
    | _, _ => false

/-- **The request is a login with the password of the account.** -/
def LoggedIn (env : Env) (requests : Nat → Request) (accounts : List AccountRow) (p : Nat)
    (accountId : Uuid) : Prop :=
  ∃ email password row hash, requests p = .login email password ∧ row ∈ accounts ∧
    row.accountId = accountId ∧ row.email = env.toLowercase (trim email) ∧
      row.passwordHash = some hash ∧ env.verifyPassword password hash = some true

/-- The request has found a session of the account. -/
def FoundBy (p : Nat) (accountId : Uuid) (trace : List Event) : Prop :=
  ∃ row now, .found p row now ∈ trace ∧ row.accountId = accountId

/-- A session is found where it is alive, and not expired. -/
def FoundAlive (before : List Event) (e : Event) : Prop :=
  ∀ p row now, e = .found p row now → row ∈ sessionEffect.replay before ∧ now ≤ row.expiresAt

/-- **The sessions**: they are the replay of the trace, every one that was found was alive, and
every one was opened by a login. -/
structure SessionInv (env : Env) (requests : Nat → Request) (accounts : List AccountRow)
    (sessions : List SessionRow) (trace : List Event) : Prop where
  replayed : sessions = sessionEffect.replay trace
  alive : Chronicle FoundAlive trace
  opened : ∀ p row, .opened p row ∈ trace → LoggedIn env requests accounts p row.accountId

/-- **The desktop tokens**: each was issued to an account whose session its request has found, a
revocation is by such a request too, and there is one at most. -/
structure TokenInv (tokens : List DesktopTokenRecord) (trace : List Event) : Prop where
  ids : (tokens.map DesktopTokenRecord.id).Nodup
  hashes : (tokens.map DesktopTokenRecord.tokenHash).Nodup
  issued : ∀ row ∈ tokens, ∃ p row₀, .connected p row₀ ∈ trace ∧ row₀.Kept row
  owned : ∀ p row, .connected p row ∈ trace → FoundBy p row.accountId trace
  revoked : ∀ p accountId id, .revoked p accountId id ∈ trace → FoundBy p accountId trace ∧
    ∃ row ∈ tokens, row.id = id ∧ row.accountId = accountId ∧ row.revokedAt ≠ none
  once : ∀ p q accountId accountId' id, .revoked p accountId id ∈ trace →
    .revoked q accountId' id ∈ trace → p = q

/-- **The passwords**: an account whose password was set has one, and it was set once. -/
structure PasswordInv (accounts : List AccountRow) (trace : List Event) : Prop where
  ids : (accounts.map AccountRow.accountId).Nodup
  set : ∀ p accountId, .passwordSet p accountId ∈ trace →
    ∃ row ∈ accounts, row.accountId = accountId ∧ row.passwordHash ≠ none
  once : ∀ p q accountId, .passwordSet p accountId ∈ trace → .passwordSet q accountId ∈ trace → p = q

/-- **The invariant of the tables.** -/
structure Inv (env : Env) (requests : Nat → Request) (g : Shared) : Prop where
  sessions : SessionInv env requests g.accounts g.sessions g.trace
  tokens : TokenInv g.desktopTokens g.trace
  passwords : PasswordInv g.accounts g.trace

/-- What the programs of the requests rely on: the invariant, and the growth of the tables. -/
def world (env : Env) (requests : Nat → Request) : World Shared where
  Inv := Inv env requests
  le := Grows
  refl := grows_refl
  trans := Grows.trans

/-! ## Facts that stay -/

section Facts

variable {env : Env} {requests : Nat → Request} {p : Nat} {accountId : Uuid}
  {accounts accounts' : List AccountRow} {trace trace' : List Event}

/-- A login stays one of the account: the row keeps its address and its password. -/
theorem LoggedIn.mono (h : LoggedIn env requests accounts p accountId)
    (hkept : Persist AccountRow.Kept accounts accounts') :
    LoggedIn env requests accounts' p accountId := by
  obtain ⟨email, password, row, hash, hreq, hrow, hid, hemail, hhash, hverify⟩ := h
  obtain ⟨row', hrow', hk⟩ := hkept row hrow
  refine ⟨email, password, row', hash, hreq, hrow', hk.accountId.trans hid, hk.email.trans hemail, ?_,
    hverify⟩
  rw [hk.password (by simp [hhash]), hhash]

/-- A session that was found has been found. -/
theorem FoundBy.mono (h : FoundBy p accountId trace) (hp : trace <+: trace') :
    FoundBy p accountId trace' := by
  obtain ⟨row, now, hmem, hid⟩ := h
  exact ⟨row, now, hp.subset hmem, hid⟩

end Facts

/-! ## One more event -/

section Concat

variable {env : Env} {requests : Nat → Request} {accounts accounts' : List AccountRow}
  {sessions : List SessionRow} {tokens : List DesktopTokenRecord} {trace : List Event} {e : Event}

/-- What is in the trace now, and is not the new event, was there before. -/
theorem mem_of_concat {x : Event} (hmem : x ∈ trace ++ [e]) (hne : x ≠ e) : x ∈ trace :=
  (List.mem_append.mp hmem).resolve_right fun h => hne (List.mem_singleton.mp h)

/-- The sessions do not depend on more of the accounts than what is kept. -/
theorem SessionInv.persist (h : SessionInv env requests accounts sessions trace)
    (hkept : Persist AccountRow.Kept accounts accounts') :
    SessionInv env requests accounts' sessions trace :=
  ⟨h.replayed, h.alive, fun p row hmem => (h.opened p row hmem).mono hkept⟩

/-- An event of the sessions: what it found was alive, and what it opened was a login. -/
theorem SessionInv.concat (h : SessionInv env requests accounts sessions trace)
    (hfound : ∀ p row now, e = .found p row now → row ∈ sessions ∧ now ≤ row.expiresAt)
    (hopened : ∀ p row, e = .opened p row → LoggedIn env requests accounts p row.accountId) :
    SessionInv env requests accounts (sessionEffect.apply sessions e) (trace ++ [e]) := by
  refine ⟨by rw [replay_concat, ← h.replayed], h.alive.concat fun p row now he => ?_,
    fun p row hmem => ?_⟩
  · rw [← h.replayed]
    exact hfound p row now he
  · rcases List.mem_append.mp hmem with hmem | hmem
    · exact h.opened p row hmem
    · exact hopened p row (List.mem_singleton.mp hmem).symm

/-- An event of the tokens or the passwords leaves the sessions. -/
theorem SessionInv.concat_other (h : SessionInv env requests accounts sessions trace)
    (hkind : e.ofSessions = false) : SessionInv env requests accounts sessions (trace ++ [e]) := by
  have hsame : sessionEffect.apply sessions e = sessions := by
    cases e with
    | connected | revoked | passwordSet => simp [Effect.apply, sessionEffect]
    | purged | rotated | opened | closed | found => exact absurd hkind (by simp [Event.ofSessions])
  have hconcat := h.concat (e := e) (fun _ _ _ he => absurd hkind (by simp [he, Event.ofSessions]))
    fun _ _ he => absurd hkind (by simp [he, Event.ofSessions])
  rwa [hsame] at hconcat

/-- An event that is none of the tokens'. -/
theorem TokenInv.concat (h : TokenInv tokens trace) (hconnected : ∀ p row, e ≠ .connected p row)
    (hrevoked : ∀ p accountId id, e ≠ .revoked p accountId id) : TokenInv tokens (trace ++ [e]) := by
  have hp : trace <+: trace ++ [e] := List.prefix_append _ _
  have hconnect : ∀ p row, .connected p row ∈ trace ++ [e] → .connected p row ∈ trace := by
    intro p row hmem
    exact mem_of_concat hmem (hconnected p row).symm
  have hrevoke : ∀ p accountId id, .revoked p accountId id ∈ trace ++ [e] →
      .revoked p accountId id ∈ trace := by
    intro p accountId id hmem
    exact mem_of_concat hmem (hrevoked p accountId id).symm
  refine ⟨h.ids, h.hashes, fun row hrow => ?_, fun p row hmem => ?_, fun p accountId id hmem => ?_,
    fun p q a a' id hmem hmem' => h.once p q a a' id (hrevoke _ _ _ hmem) (hrevoke _ _ _ hmem')⟩
  · obtain ⟨p, row₀, hmem, hkept⟩ := h.issued row hrow
    exact ⟨p, row₀, hp.subset hmem, hkept⟩
  · exact (h.owned p row (hconnect p row hmem)).mono hp
  · obtain ⟨hfound, hrow⟩ := h.revoked p accountId id (hrevoke p accountId id hmem)
    exact ⟨hfound.mono hp, hrow⟩

/-- An event that sets no password. -/
theorem PasswordInv.concat (h : PasswordInv accounts trace) (hset : ∀ p a, e ≠ .passwordSet p a) :
    PasswordInv accounts (trace ++ [e]) := by
  have hmem' : ∀ p a, .passwordSet p a ∈ trace ++ [e] → .passwordSet p a ∈ trace := by
    intro p a hmem
    exact mem_of_concat hmem (hset p a).symm
  exact ⟨h.ids, fun p a hmem => h.set p a (hmem' p a hmem),
    fun p q a hp hq => h.once p q a (hmem' p a hp) (hmem' q a hq)⟩

end Concat

/-! ## Changes of the tables -/

section Changes

variable {env : Env} {requests : Nat → Request} {accounts : List AccountRow}
  {tokens : List DesktopTokenRecord} {trace : List Event} {p : Nat} {accountId id : Uuid}

/-- **A new token**: its id and its hash are those of no other. -/
theorem TokenInv.connect {row : DesktopTokenRecord} (h : TokenInv tokens trace)
    (hnew : ∀ other ∈ tokens, other.id ≠ row.id ∧ other.tokenHash ≠ row.tokenHash)
    (hfound : FoundBy p row.accountId trace) :
    TokenInv (tokens ++ [row]) (trace ++ [.connected p row]) := by
  have hp : trace <+: trace ++ [.connected p row] := List.prefix_append _ _
  have hrevoke : ∀ q a i, .revoked q a i ∈ trace ++ [.connected p row] → .revoked q a i ∈ trace := by
    intro q a i hmem
    exact mem_of_concat hmem (by simp)
  refine ⟨?_, ?_, fun other hother => ?_, fun q other hmem => ?_, fun q a i hmem => ?_,
    fun q q' a a' i hmem hmem' => h.once q q' a a' i (hrevoke _ _ _ hmem) (hrevoke _ _ _ hmem')⟩
  · rw [List.map_append, List.map_singleton, List.nodup_append]
    refine ⟨h.ids, List.nodup_singleton _, fun x hx y hy hxy => ?_⟩
    obtain ⟨other, hother, rfl⟩ := List.mem_map.mp hx
    exact (hnew other hother).1 (hxy.trans (List.mem_singleton.mp hy))
  · rw [List.map_append, List.map_singleton, List.nodup_append]
    refine ⟨h.hashes, List.nodup_singleton _, fun x hx y hy hxy => ?_⟩
    obtain ⟨other, hother, rfl⟩ := List.mem_map.mp hx
    exact (hnew other hother).2 (hxy.trans (List.mem_singleton.mp hy))
  · rcases List.mem_append.mp hother with hother | hother
    · obtain ⟨q, row₀, hmem, hkept⟩ := h.issued other hother
      exact ⟨q, row₀, hp.subset hmem, hkept⟩
    · obtain rfl := List.mem_singleton.mp hother
      exact ⟨p, other, by simp, .refl other⟩
  · rcases List.mem_append.mp hmem with hmem | hmem
    · exact (h.owned q other hmem).mono hp
    · obtain ⟨rfl, rfl⟩ := Event.connected.inj (List.mem_singleton.mp hmem)
      exact hfound.mono hp
  · obtain ⟨hby, other, hother, hrest⟩ := h.revoked q a i (hrevoke q a i hmem)
    exact ⟨hby.mono hp, other, List.mem_append_left _ hother, hrest⟩

/-- The token that is revoked is one row. -/
theorem TokenInv.revoke {now : Int} (h : TokenInv tokens trace)
    (hactive : tokens.any (·.isActive id accountId) = true) (hfound : FoundBy p accountId trace) :
    TokenInv (tokens.map (DesktopTokenRecord.revoke id accountId now))
      (trace ++ [.revoked p accountId id]) := by
  have hp : trace <+: trace ++ [.revoked p accountId id] := List.prefix_append _ _
  have hkept := DesktopTokenRecord.kept_revoke id accountId now
  obtain ⟨row, hrow, hrowActive⟩ := List.any_eq_true.mp hactive
  have hfields := hrowActive
  simp only [DesktopTokenRecord.isActive, Bool.and_eq_true, beq_iff_eq, Option.isNone_iff_eq_none]
    at hfields
  obtain ⟨⟨hid, haccount⟩, hnone⟩ := hfields
  -- a row is the one with this identifier
  have hunique : ∀ other ∈ tokens, other.id = id → other = row := fun other hother heq =>
    List.inj_on_of_nodup_map h.ids hother hrow (heq.trans hid.symm)
  -- it was not revoked before, or its row would say so
  have hno : ∀ q a, .revoked q a id ∉ trace := by
    intro q a hmem
    obtain ⟨-, other, hother, hoid, -, hrevoked⟩ := h.revoked q a id hmem
    rw [hunique other hother hoid] at hrevoked
    exact hrevoked hnone
  have hrevoke : ∀ q a i, .revoked q a i ∈ trace ++ [.revoked p accountId id] →
      .revoked q a i ∈ trace ∨ q = p ∧ a = accountId ∧ i = id := by
    intro q a i hmem
    rcases List.mem_append.mp hmem with hmem | hmem
    · exact Or.inl hmem
    · obtain ⟨rfl, rfl, rfl⟩ := Event.revoked.inj (List.mem_singleton.mp hmem)
      exact Or.inr ⟨rfl, rfl, rfl⟩
  have hconnect : ∀ q other, .connected q other ∈ trace ++ [.revoked p accountId id] →
      .connected q other ∈ trace := by
    intro q other hmem
    exact mem_of_concat hmem (by simp)
  -- a revocation touches neither the ids nor the hashes
  have hmapId : (tokens.map (DesktopTokenRecord.revoke id accountId now)).map DesktopTokenRecord.id =
      tokens.map DesktopTokenRecord.id := by
    rw [List.map_map]
    exact List.map_congr_left fun other _ => (hkept other).id
  have hmapHash : (tokens.map (DesktopTokenRecord.revoke id accountId now)).map
      DesktopTokenRecord.tokenHash = tokens.map DesktopTokenRecord.tokenHash := by
    rw [List.map_map]
    exact List.map_congr_left fun other _ => (hkept other).tokenHash
  refine ⟨by rw [hmapId]; exact h.ids, by rw [hmapHash]; exact h.hashes, fun other hother => ?_,
    fun q other hmem => (h.owned q other (hconnect q other hmem)).mono hp, fun q a i hmem => ?_,
    fun q q' a a' i hmem hmem' => ?_⟩
  · obtain ⟨old, hold, rfl⟩ := List.mem_map.mp hother
    obtain ⟨q, row₀, hmem, hk⟩ := h.issued old hold
    exact ⟨q, row₀, hp.subset hmem, hk.trans (hkept old)⟩
  · rcases hrevoke q a i hmem with hold | ⟨rfl, rfl, rfl⟩
    · obtain ⟨hby, other, hother, hoid, hoaccount, hrevoked⟩ := h.revoked q a i hold
      exact ⟨hby.mono hp, _, List.mem_map_of_mem hother, (hkept other).id.trans hoid,
        (hkept other).accountId.trans hoaccount, by rwa [(hkept other).revoked hrevoked]⟩
    · refine ⟨hfound.mono hp, _, List.mem_map_of_mem hrow, (hkept row).id.trans hid,
        (hkept row).accountId.trans haccount, ?_⟩
      unfold DesktopTokenRecord.revoke
      rw [if_pos hrowActive]
      simp
  · rcases hrevoke q a i hmem with hold | ⟨rfl, -, rfl⟩
    · rcases hrevoke q' a' i hmem' with hold' | ⟨-, -, rfl⟩
      · exact h.once q q' a a' i hold hold'
      · exact absurd hold (hno q a)
    · rcases hrevoke q' a' i hmem' with hold' | ⟨rfl, -, -⟩
      · exact absurd hold' (hno q' a')
      · rfl

/-- A password is set where there was none. -/
theorem PasswordInv.setPassword {passwordHash : String} (h : PasswordInv accounts trace)
    (hnone : accounts.any (fun row => row.accountId = accountId ∧ row.passwordHash = none) = true) :
    PasswordInv (accounts.map (AccountRow.setPassword accountId passwordHash))
      (trace ++ [.passwordSet p accountId]) := by
  have hkept := AccountRow.kept_setPassword accountId passwordHash
  obtain ⟨row, hrow, hfields⟩ := List.any_eq_true.mp hnone
  rw [decide_eq_true_eq] at hfields
  -- no request was told before that it has set the password: the account would have one
  have hno : ∀ q, .passwordSet q accountId ∉ trace := by
    intro q hmem
    obtain ⟨other, hother, hid, hset⟩ := h.set q accountId hmem
    rw [List.inj_on_of_nodup_map h.ids hother hrow (hid.trans hfields.1.symm)] at hset
    exact hset hfields.2
  have hset : ∀ q a, .passwordSet q a ∈ trace ++ [.passwordSet p accountId] →
      .passwordSet q a ∈ trace ∨ q = p ∧ a = accountId := by
    intro q a hmem
    rcases List.mem_append.mp hmem with hmem | hmem
    · exact Or.inl hmem
    · obtain ⟨rfl, rfl⟩ := Event.passwordSet.inj (List.mem_singleton.mp hmem)
      exact Or.inr ⟨rfl, rfl⟩
  refine ⟨?_, fun q a hmem => ?_, fun q q' a hmem hmem' => ?_⟩
  · have hmap : (accounts.map (AccountRow.setPassword accountId passwordHash)).map AccountRow.accountId =
        accounts.map AccountRow.accountId := by
      rw [List.map_map]
      exact List.map_congr_left fun other _ => (hkept other).accountId
    rw [hmap]
    exact h.ids
  · rcases hset q a hmem with hold | ⟨rfl, rfl⟩
    · obtain ⟨other, hother, hid, hhas⟩ := h.set q a hold
      exact ⟨_, List.mem_map_of_mem hother, (hkept other).accountId.trans hid,
        by rwa [(hkept other).password hhas]⟩
    · refine ⟨_, List.mem_map_of_mem hrow, (hkept row).accountId.trans hfields.1, ?_⟩
      unfold AccountRow.setPassword
      rw [if_pos hfields]
      simp
  · rcases hset q a hmem with hold | ⟨rfl, rfl⟩
    · rcases hset q' a hmem' with hold' | ⟨-, rfl⟩
      · exact h.once q q' a hold hold'
      · exact absurd hold (hno q)
    · rcases hset q' _ hmem' with hold' | ⟨rfl, -⟩
      · exact absurd hold' (hno q')
      · rfl

/-- A new account has set no password yet: it comes with one, or without. -/
theorem PasswordInv.register {row : AccountRow} (h : PasswordInv accounts trace)
    (hnew : ∀ other ∈ accounts, other.accountId ≠ row.accountId) :
    PasswordInv (accounts ++ [row]) trace := by
  refine ⟨?_, fun q a hmem => ?_, h.once⟩
  · rw [List.map_append, List.map_singleton, List.nodup_append]
    refine ⟨h.ids, List.nodup_singleton _, fun x hx y hy hxy => ?_⟩
    obtain ⟨other, hother, rfl⟩ := List.mem_map.mp hx
    exact hnew other hother (hxy.trans (List.mem_singleton.mp hy))
  · obtain ⟨other, hother, hrest⟩ := h.set q a hmem
    exact ⟨other, List.mem_append_left _ hother, hrest⟩

end Changes

/-! ## Statements -/

section Statements

variable {env : Env} {requests : Nat → Request} {p : Nat} {g : Shared} {e : Event}

/-- An event of the sessions. -/
theorem keeps_log {sessions : List SessionRow} (h : Inv env requests g)
    (hsessions : sessions = sessionEffect.apply g.sessions e)
    (hfound : ∀ p row now, e = .found p row now → row ∈ g.sessions ∧ now ≤ row.expiresAt)
    (hopened : ∀ p row, e = .opened p row → LoggedIn env requests g.accounts p row.accountId)
    (hkind : e.ofSessions = true) : Inv env requests ({ g with sessions := sessions }.log e) ∧
      Grows g ({ g with sessions := sessions }.log e) := by
  refine ⟨⟨?_, h.tokens.concat (fun p row he => ?_) fun p a i he => ?_,
    h.passwords.concat fun p a he => ?_⟩, List.prefix_append _ _, fun row hrow => ⟨row, hrow, .refl row⟩,
    fun row hrow => ⟨row, hrow, .refl row⟩, fun _ hrow => hrow⟩
  · change SessionInv env requests g.accounts sessions (g.trace ++ [e])
    rw [hsessions]
    exact h.sessions.concat hfound hopened
  all_goals
    rw [he] at hkind
    exact absurd hkind Bool.false_ne_true

/-- A statement that reads changes nothing. -/
theorem keeps_read (h : Inv env requests g) : Inv env requests g ∧ Grows g g := ⟨h, grows_refl g⟩

/-- **The commit of a registration.** -/
theorem keeps_commit (h : Inv env requests g) (l : Local) :
    Inv env requests (commitRows g l).2 ∧ Grows g (commitRows g l).2 := by
  obtain ⟨row, key⟩ := l
  cases row with
  | none => exact keeps_read h
  | some row =>
    unfold commitRows
    dsimp only
    split_ifs with htaken
    · exact keeps_read h
    · rw [Bool.or_eq_true, not_or, Bool.not_eq_true, Bool.not_eq_true] at htaken
      -- the account's id is new: the primary key refuses another row with it
      have hnew : ∀ other ∈ g.accounts, other.accountId ≠ row.accountId := by
        intro other hother heq
        have hfree := List.any_eq_false.mp htaken.1 other hother
        exact hfree (decide_eq_true (Or.inl heq))
      have hkept : Persist AccountRow.Kept g.accounts (g.accounts ++ [row]) :=
        persist_append AccountRow.Kept.refl [row]
      exact ⟨⟨h.sessions.persist hkept, h.tokens, h.passwords.register hnew⟩,
        List.prefix_refl _, hkept, fun row hrow => ⟨row, hrow, .refl row⟩,
        List.subset_append_left _ _⟩

/-- **A password is set** for an account that has none. -/
theorem keeps_setPassword {accountId : Uuid} {passwordHash : String} (h : Inv env requests g)
    (hnone : g.accounts.any (fun row => row.accountId = accountId ∧ row.passwordHash = none) = true) :
    Inv env requests ({ g with
      accounts := g.accounts.map (AccountRow.setPassword accountId passwordHash) }.log
        (.passwordSet p accountId)) ∧
      Grows g ({ g with accounts := g.accounts.map (AccountRow.setPassword accountId passwordHash) }.log
        (.passwordSet p accountId)) := by
  have hkept : Persist AccountRow.Kept g.accounts
      (g.accounts.map (AccountRow.setPassword accountId passwordHash)) :=
    persist_map (AccountRow.kept_setPassword accountId passwordHash)
  exact ⟨⟨(h.sessions.persist hkept).concat_other rfl, h.tokens.concat (fun _ _ he => absurd he (by simp)) (fun _ _ _ he => absurd he (by simp)),
    h.passwords.setPassword hnone⟩, List.prefix_append _ _, hkept,
    fun row hrow => ⟨row, hrow, .refl row⟩, fun _ hrow => hrow⟩

/-- **A desktop token is inserted**, with a new id and a new hash. -/
theorem keeps_connect {row : DesktopTokenRecord} (h : Inv env requests g)
    (hnew : ∀ other ∈ g.desktopTokens, other.id ≠ row.id ∧ other.tokenHash ≠ row.tokenHash)
    (hfound : FoundBy p row.accountId g.trace) :
    Inv env requests ({ g with desktopTokens := g.desktopTokens ++ [row] }.log (.connected p row)) ∧
      Grows g ({ g with desktopTokens := g.desktopTokens ++ [row] }.log (.connected p row)) := by
  exact ⟨⟨h.sessions.concat_other rfl, h.tokens.connect hnew hfound, h.passwords.concat fun _ _ he => absurd he (by simp)⟩,
    List.prefix_append _ _, fun row hrow => ⟨row, hrow, .refl row⟩,
    persist_append DesktopTokenRecord.Kept.refl [row], fun _ hrow => hrow⟩

/-- **A desktop token is revoked** that was active. -/
theorem keeps_revoke {id accountId : Uuid} {now : Int} (h : Inv env requests g)
    (hactive : g.desktopTokens.any (·.isActive id accountId) = true)
    (hfound : FoundBy p accountId g.trace) :
    Inv env requests ({ g with
      desktopTokens := g.desktopTokens.map (DesktopTokenRecord.revoke id accountId now) }.log
        (.revoked p accountId id)) ∧
      Grows g ({ g with
        desktopTokens := g.desktopTokens.map (DesktopTokenRecord.revoke id accountId now) }.log
          (.revoked p accountId id)) := by
  exact ⟨⟨h.sessions.concat_other rfl, h.tokens.revoke hactive hfound, h.passwords.concat fun _ _ he => absurd he (by simp)⟩,
    List.prefix_append _ _, fun row hrow => ⟨row, hrow, .refl row⟩,
    persist_map (DesktopTokenRecord.kept_revoke id accountId now), fun _ hrow => hrow⟩

end Statements

end EvidentLedger.Auth
