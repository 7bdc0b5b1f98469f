import EvidentLedger.Identity.Tables
import EvidentLedger.Ledger.Submit
import EvidentLedger.Lib.Session
import Mathlib.Data.List.Nodup

/-!
# Requests about identity keys

Model of `revoke_identity_key` (`src/api/v1/identity_key_revoke.rs`) with `IdentityAuditService::append`,
beside `IdentityKeyRepository::create` and `IdentitySigningService::validate_and_prepare`, and what they
leave in the tables when they commit.

* A revocation locks its key, writes `revoked_at` and one audit event, and commits. `RevokeError` has the
  cases of `ApiError` that it answers.
* `Audited` says what the trail of a key is: nothing, or the one event of its revocation. `IdentityOk` has
  this of every key, with the unique indexes.
* `Commits` is what a request leaves in the tables: a new key, or a revocation. **`ok_commits`**,
  **`later_commits`**: the tables stay well formed, and a key stays as it is until it is revoked.
-/

namespace EvidentLedger.Identity

open Lib.Interleave Lib.Transaction
open IdentityKeys (IdentityKey IdentityKeyError)
open Ledger (AppState IdentityKeyRow IdentitySigningError checkIdentityKey)

/-! ## Programs -/

inductive RevokeError where
  | identityKeyNotFound
  | identityKeyAlreadyRevoked
  | internal
  deriving DecidableEq

structure RevokeKeyResponse where
  keyId : Uuid
  status : String
  revokedAt : Int
  deriving DecidableEq

/-- A statement of a revocation; every failure is `ApiError::Internal`. -/
def query (s : Sql) : Program schema RevokeError s.Res := sql (S := schema) (fun _ => .internal) s

/-- `IdentityAuditService::append`, with `map_audit_error`. -/
def append (keyId : Uuid) (actorType : String) (actorId : Uuid) (action : String)
    (metadata : Option Json) : Program schema RevokeError IdentityAuditEvent :=
  if actorType != "account" then throw .internal
  else query (.insertAudit keyId actorType actorId action metadata)

/-- What `revoke_identity_key` does in its transaction. -/
def revokeInTx (accountId keyId : Uuid) : Program schema RevokeError (Uuid × Int) := do
  match ← query (.selectKeyForUpdate keyId) with
  | none => throw .identityKeyNotFound
  | some key =>
    if key.accountId != accountId then throw .identityKeyNotFound
    else if key.revokedAt.isSome then throw .identityKeyAlreadyRevoked
    else
      let revokedAt ← query (.revokeKey key.id)
      let _ ← append key.id "account" accountId "revoked" none
      pure (key.id, revokedAt)

/-- `revoke_identity_key`. -/
def revokeIdentityKey (accountId keyId : Uuid) : Program schema RevokeError RevokeKeyResponse := do
  beginTx (S := schema) fun _ => .internal
  let revoked ← orRollback (revokeInTx accountId keyId)
  commitTx (S := schema) fun _ => .internal
  pure ⟨revoked.1, "revoked", revoked.2⟩

def isUniqueViolation : DbError → Bool
  | .database (some _) => true
  | .database none | .rowNotFound | .io => false

/-- What `create` makes of the failure of its insert. -/
def insertError (e : DbError) : IdentityKeyError :=
  if isUniqueViolation e then .fingerprintAlreadyExists else .database

/-- `IdentityKeyRepository::create`. -/
def create (accountId : Uuid) (publicKey fingerprint : String) (label : Option String) :
    Program schema IdentityKeyError IdentityKey := do
  match ← sql (S := schema) (fun _ => .database) (Sql.findByFingerprint fingerprint) with
  | some _ => throw .fingerprintAlreadyExists
  | none => sql (S := schema) insertError (Sql.insertKey accountId publicKey fingerprint label)

/-- `IdentitySigningService::validate_and_prepare`. -/
def validateAndPrepare (state : AppState) (accountId identityKeyId : Uuid)
    (signatureHex canonicalEventHashHex : String) :
    Program schema IdentitySigningError (Uuid × String × String) := do
  match ← sql (S := schema) .database (Sql.selectSigningKey identityKeyId accountId) with
  | none => throw .keyNotFound
  | some key => ExceptT.mk (pure (checkIdentityKey state key signatureHex canonicalEventHashHex))

/-! ## Requests -/

inductive Request where
  | create (accountId : Uuid) (publicKey fingerprint : String) (label : Option String)
  | revoke (accountId keyId : Uuid)
  | validate (accountId keyId : Uuid) (signatureHex canonicalEventHashHex : String)

inductive Reply where
  | created (r : Except IdentityKeyError IdentityKey)
  | revoked (r : Except RevokeError RevokeKeyResponse)
  | signed (r : Except IdentitySigningError (Uuid × String × String))
  deriving DecidableEq

def Request.run (state : AppState) : Request → Prog (Call.Answer (S := schema)) Reply
  | create accountId publicKey fingerprint label =>
    (Identity.create accountId publicKey fingerprint label).run >>= fun r => pure (.created r)
  | revoke accountId keyId => (revokeIdentityKey accountId keyId).run >>= fun r => pure (.revoked r)
  | validate accountId keyId signatureHex hashHex =>
    (validateAndPrepare state accountId keyId signatureHex hashHex).run >>= fun r => pure (.signed r)

/-! ## Tables -/

/-- What the row of a key tells about its trail. -/
def Audited (row : IdentityKey) (trail : List IdentityAuditEvent) : Prop :=
  match row.revokedAt with
  | none => trail = []
  | some at_ => ∃ id, trail = [⟨id, row.id, "account", row.accountId, "revoked", none, at_⟩]

/-- What holds of the committed tables. -/
structure IdentityOk (db : Tables) : Prop where
  ids : (db.keys.map (·.id)).Nodup
  fingerprints : (db.keys.map (·.fingerprint)).Nodup
  refers : ∀ event ∈ db.audit, ∃ row ∈ db.keys, row.id = event.keyId
  audited : ∀ row ∈ db.keys, Audited row (db.trail row.id)

/-- A row is there later as it was, or revoked in the meantime. -/
def Later (db db' : Tables) : Prop :=
  ∀ row ∈ db.keys, row ∈ db'.keys ∨
    row.revokedAt = none ∧ ∃ at_, { row with revokedAt := some at_ } ∈ db'.keys

/-- What a revocation writes. -/
def revocation (row : IdentityKey) (at_ : Int) (eventId : Uuid) : List Write :=
  [.revoke row.id at_,
    .insertAudit ⟨eventId, row.id, "account", row.accountId, "revoked", none, at_⟩]

/-- The writes of a request that commits. -/
inductive Commits (db : Tables) : List Write → Prop
  | created {row} (hid : ∀ other ∈ db.keys, other.id ≠ row.id)
      (hfingerprint : ∀ other ∈ db.keys, other.fingerprint ≠ row.fingerprint)
      (hlive : row.revokedAt = none) : Commits db [.insertKey row]
  | revoked {row at_ eventId} (hrow : row ∈ db.keys) (hlive : row.revokedAt = none) :
    Commits db (revocation row at_ eventId)

section Tables

variable {db db' db'' : Tables} {row row' : IdentityKey} {log : List Write} {id : Uuid} {at_ : Int}

theorem Later.refl (db : Tables) : Later db db := fun _ hrow => Or.inl hrow

theorem Later.trans (h : Later db db') (h' : Later db' db'') : Later db db'' := by
  intro row hrow
  rcases h row hrow with hkept | ⟨hlive, at_, hrevoked⟩
  · exact h' row hkept
  · rcases h' _ hrevoked with hkept | ⟨hnone, -⟩
    · exact Or.inr ⟨hlive, at_, hkept⟩
    · exact absurd hnone (by simp)

/-- **A revoked key stays as it is.** -/
theorem Later.revoked (h : Later db db') (hrow : row ∈ db.keys) (hr : row.revokedAt = some at_) :
    row ∈ db'.keys :=
  (h row hrow).elim (fun hkept => hkept) fun hlive => absurd (hlive.1.symm.trans hr) (by simp)

theorem revokedRow_of_live (hid : row.id = id) :
    revokedRow id at_ row = { row with revokedAt := some at_ } := by
  simp [revokedRow, hid]

theorem identityOk_empty : IdentityOk ⟨[], []⟩ :=
  ⟨List.nodup_nil, List.nodup_nil, by simp, by simp⟩

/-! ### Rows -/

theorem mem_of_key? (h : db.key? id = some row) : row ∈ db.keys ∧ row.id = id :=
  ⟨List.mem_of_find?_eq_some h, by simpa using List.find?_some h⟩

theorem key?_none : db.key? id = none ↔ ∀ row ∈ db.keys, row.id ≠ id := by
  simp [Tables.key?, List.find?_eq_none]

theorem IdentityOk.key? (h : IdentityOk db) (hrow : row ∈ db.keys) : db.key? row.id = some row := by
  cases hfind : db.key? row.id with
  | none => exact absurd rfl (key?_none.mp hfind row hrow)
  | some row' =>
    obtain ⟨hrow', hid⟩ := mem_of_key? hfind
    rw [List.inj_on_of_nodup_map h.ids hrow' hrow hid]

/-- A key is selected by its id and its account. -/
theorem IdentityOk.signingKey? {accountId : Uuid} (h : IdentityOk db) (hrow : row ∈ db.keys) :
    db.signingKey? row.id accountId = if row.accountId = accountId then some ⟨row.id, row.accountId,
      row.publicKey, row.fingerprint, some row.verifiedAt, row.revokedAt⟩ else none := by
  unfold Tables.signingKey?
  split_ifs with hacc
  · cases hfind : db.keys.find? fun r => r.id == row.id && r.accountId == accountId with
    | none => exact absurd hacc (by simpa using List.find?_eq_none.mp hfind row hrow)
    | some row' =>
      have hfound := List.find?_some hfind
      rw [Bool.and_eq_true, beq_iff_eq] at hfound
      rw [List.inj_on_of_nodup_map h.ids (List.mem_of_find?_eq_some hfind) hrow hfound.1]
      rfl
  · rw [Option.map_eq_none_iff, List.find?_eq_none]
    intro row' hrow' hfound
    rw [Bool.and_eq_true, beq_iff_eq, beq_iff_eq] at hfound
    rw [List.inj_on_of_nodup_map h.ids hrow' hrow hfound.1] at hfound
    exact hacc hfound.2

theorem mem_of_signingKey? {accountId : Uuid} {key : IdentityKeyRow}
    (h : db.signingKey? id accountId = some key) : ∃ row ∈ db.keys, row.id = id ∧
      row.accountId = accountId ∧ key = ⟨row.id, row.accountId, row.publicKey, row.fingerprint,
        some row.verifiedAt, row.revokedAt⟩ := by
  obtain ⟨row, hfind, rfl⟩ := Option.map_eq_some_iff.mp h
  have hfound := List.find?_some hfind
  rw [Bool.and_eq_true, beq_iff_eq, beq_iff_eq] at hfound
  exact ⟨row, List.mem_of_find?_eq_some hfind, hfound.1, hfound.2, rfl⟩

/-! ### Commits -/

theorem replay_revocation (row : IdentityKey) (at_ : Int) (eventId : Uuid) (db : Tables) :
    replay (S := schema) (revocation row at_ eventId) db = ⟨db.keys.map (revokedRow row.id at_),
      db.audit ++ [⟨eventId, row.id, "account", row.accountId, "revoked", none, at_⟩]⟩ := rfl

theorem later_commits (hi : IdentityOk db) (h : Commits db log) :
    Later db (replay (S := schema) log db) := by
  intro row hrow
  cases h with
  | created => exact Or.inl (List.mem_append_left _ hrow)
  | @revoked key at_ eventId hkey hlive =>
    have hmem : revokedRow key.id at_ row ∈ db.keys.map (revokedRow key.id at_) :=
      List.mem_map_of_mem hrow
    by_cases hid : row.id = key.id
    · obtain rfl := List.inj_on_of_nodup_map hi.ids hrow hkey hid
      rw [revokedRow_of_live rfl] at hmem
      exact Or.inr ⟨hlive, at_, hmem⟩
    · rw [revokedRow_of_ne hid] at hmem
      exact Or.inl hmem

/-- A new key has no trail. -/
theorem ok_created (hi : IdentityOk db) (hid : ∀ other ∈ db.keys, other.id ≠ row.id)
    (hfingerprint : ∀ other ∈ db.keys, other.fingerprint ≠ row.fingerprint)
    (hlive : row.revokedAt = none) : IdentityOk ⟨db.keys ++ [row], db.audit⟩ := by
  constructor
  · rw [List.map_append, List.nodup_append]
    refine ⟨hi.ids, by simp, ?_⟩
    rintro _ ha _ hb rfl
    obtain ⟨other, hother, heq⟩ := List.mem_map.mp ha
    exact hid other hother (heq.trans (List.mem_singleton.mp hb))
  · rw [List.map_append, List.nodup_append]
    refine ⟨hi.fingerprints, by simp, ?_⟩
    rintro _ ha _ hb rfl
    obtain ⟨other, hother, heq⟩ := List.mem_map.mp ha
    exact hfingerprint other hother (heq.trans (List.mem_singleton.mp hb))
  · intro event hevent
    obtain ⟨other, hother, heq⟩ := hi.refers event hevent
    exact ⟨other, List.mem_append_left _ hother, heq⟩
  · intro other hother
    rcases List.mem_append.mp hother with hother | hother
    · exact hi.audited other hother
    · obtain rfl := List.mem_singleton.mp hother
      have hnone : db.trail other.id = [] := by
        refine List.filter_eq_nil_iff.mpr fun event hevent heq => ?_
        obtain ⟨owner, howner, hkey⟩ := hi.refers event hevent
        exact hid owner howner (hkey.trans (beq_iff_eq.mp heq))
      unfold Audited
      rw [hlive]
      exact hnone

/-- A revoked key has the event of its revocation. -/
theorem ok_revoked (eventId : Uuid) (hi : IdentityOk db) (hrow : row ∈ db.keys)
    (hlive : row.revokedAt = none) :
    IdentityOk (replay (S := schema) (revocation row at_ eventId) db) := by
  rw [replay_revocation]
  constructor
  · rw [List.map_map]
    have hids : IdentityKey.id ∘ revokedRow row.id at_ = IdentityKey.id := by
      funext r
      simp
    rw [hids]
    exact hi.ids
  · rw [List.map_map]
    have hfingerprints : IdentityKey.fingerprint ∘ revokedRow row.id at_ =
        IdentityKey.fingerprint := by
      funext r
      simp
    rw [hfingerprints]
    exact hi.fingerprints
  · intro event hevent
    have hmoved : ∀ key ∈ db.keys, key.id = event.keyId →
        ∃ key' ∈ db.keys.map (revokedRow row.id at_), key'.id = event.keyId := fun key hkey heq =>
      ⟨revokedRow row.id at_ key, List.mem_map_of_mem hkey, by rw [revokedRow_id, heq]⟩
    rcases List.mem_append.mp hevent with hevent | hevent
    · obtain ⟨key, hkey, heq⟩ := hi.refers event hevent
      exact hmoved key hkey heq
    · obtain rfl := List.mem_singleton.mp hevent
      exact hmoved row hrow rfl
  · intro key' hkey'
    obtain ⟨key, hkey, rfl⟩ := List.mem_map.mp hkey'
    have haudited := hi.audited key hkey
    simp only [Tables.trail, List.filter_append, revokedRow_id] at haudited ⊢
    by_cases hid : key.id = row.id
    · obtain rfl := List.inj_on_of_nodup_map hi.ids hkey hrow hid
      unfold Audited at haudited
      rw [hlive] at haudited
      rw [revokedRow_of_live rfl, haudited]
      exact ⟨eventId, by simp⟩
    · rw [revokedRow_of_ne hid]
      simpa [Ne.symm hid] using haudited

theorem ok_commits (hi : IdentityOk db) (h : Commits db log) :
    IdentityOk (replay (S := schema) log db) := by
  cases h with
  | created hid hfingerprint hlive => exact ok_created hi hid hfingerprint hlive
  | revoked hrow hlive => exact ok_revoked _ hi hrow hlive

end Tables

end EvidentLedger.Identity
