import EvidentLedger.IdentityKeys.Handlers
import EvidentLedger.Json
import EvidentLedger.Ledger.Db
import EvidentLedger.Lib.Outcome

/-!
# Identity keys and their audit trail

`identity_keys` (`migrations/20260718170000_create_identity_keys.sql`) and `identity_key_audit_events`
(`migrations/20260718200000_create_identity_audit_events.sql`), with the statements of
`src/service/identity_keys.rs`, `src/service/identity_audit.rs`, `src/service/identity_signing.rs` and
`src/api/v1/identity_key_revoke.rs`.

* A key is inserted on the pool, and read there when a signature is checked. A revocation locks the row
  of its key, in a transaction that writes the row and its audit event.
* An audit event refers to a key. Inserting it waits for whoever has locked that key.
* `revoked_at` and `created_at` are the time at which the transaction began.
* The reference of a key to its account is left out: no statement here reads or deletes an account.
-/

namespace EvidentLedger.Identity

open Lib.Transaction
open IdentityKeys (IdentityKey)
open Ledger (IdentityKeyRow)

/-! ## Rows -/

/-- A row of `identity_key_audit_events`. -/
structure IdentityAuditEvent where
  id : Uuid
  keyId : Uuid
  actorType : String
  actorId : Uuid
  action : String
  metadata : Option Json
  createdAt : Int

/-- The tables. -/
structure Tables where
  keys : List IdentityKey
  audit : List IdentityAuditEvent

namespace Tables

variable (db : Tables)

def key? (id : Uuid) : Option IdentityKey := db.keys.find? (·.id == id)

/-- What `validate_and_prepare` selects of a key. -/
def signingKey? (id accountId : Uuid) : Option IdentityKeyRow :=
  (db.keys.find? fun row => row.id == id && row.accountId == accountId).map fun row =>
    ⟨row.id, row.accountId, row.publicKey, row.fingerprint, some row.verifiedAt, row.revokedAt⟩

/-- The audit events of a key. -/
def trail (keyId : Uuid) : List IdentityAuditEvent := db.audit.filter (·.keyId == keyId)

end Tables

/-! ## Writes -/

/-- What a transaction leaves in the tables. -/
inductive Write where
  | insertKey (row : IdentityKey)
  | revoke (id : Uuid) (now : Int)
  | insertAudit (event : IdentityAuditEvent)

/-- `SET revoked_at = now() WHERE id = $1`. -/
def revokedRow (id : Uuid) (now : Int) (row : IdentityKey) : IdentityKey :=
  if row.id == id then { row with revokedAt := some now } else row

def Write.apply : Write → Tables → Tables
  | insertKey row, db => { db with keys := db.keys ++ [row] }
  | revoke id now, db => { db with keys := db.keys.map (revokedRow id now) }
  | insertAudit event, db => { db with audit := db.audit ++ [event] }

/-- A row, or a unique key. -/
inductive Key where
  | key (id : Uuid)
  | fingerprint (fingerprint : String)
  | event (id : Uuid)
  deriving DecidableEq

def Write.keys : Write → List Key
  | insertKey row => [.key row.id, .fingerprint row.fingerprint]
  | revoke id _ => [.key id]
  | insertAudit event => [.event event.id]

/-- The part of the tables under a key is the same. Under a fingerprint it is the ids of the rows. -/
def Key.same : Key → Tables → Tables → Prop
  | key id, db, db' => db'.keys.filter (·.id == id) = db.keys.filter (·.id == id)
  | fingerprint f, db, db' => (db'.keys.filter (·.fingerprint == f)).map (·.id) =
      (db.keys.filter (·.fingerprint == f)).map (·.id)
  | event id, db, db' => db'.audit.filter (·.id == id) = db.audit.filter (·.id == id)

section Spares

variable {id id' : Uuid} {f : String} {now : Int} {row : IdentityKey}

@[simp] theorem revokedRow_id : (revokedRow id now row).id = row.id := by
  unfold revokedRow
  split_ifs <;> rfl

@[simp] theorem revokedRow_fingerprint : (revokedRow id now row).fingerprint = row.fingerprint := by
  unfold revokedRow
  split_ifs <;> rfl

theorem revokedRow_of_ne (h : row.id ≠ id) : revokedRow id now row = row := by
  simp [revokedRow, h]

/-- **A write without the key** leaves what is under it. -/
theorem same_apply {k : Key} {w : Write} {db : Tables} (hk : k ∉ w.keys) :
    k.same db (w.apply db) := by
  cases w with
  | insertKey new =>
    cases k with
    | key id =>
      have hid : new.id ≠ id := fun heq => hk (by simp [Write.keys, heq])
      simp [Key.same, Write.apply, hid]
    | fingerprint f =>
      have hf : new.fingerprint ≠ f := fun heq => hk (by simp [Write.keys, heq])
      simp [Key.same, Write.apply, hf]
    | event => exact rfl
  | revoke id now =>
    cases k with
    | key id' =>
      have hid : id' ≠ id := fun heq => hk (by simp [Write.keys, heq])
      refine filter_map_of_self (fun r => by simp) (fun r hr => revokedRow_of_ne ?_) _
      rw [beq_iff_eq.mp hr]
      exact hid
    | fingerprint f =>
      have hcomm := filter_map_comm (q := fun r : IdentityKey => r.fingerprint == f)
        (f := revokedRow id now) (fun r => by simp) db.keys
      simp only [Key.same, Write.apply]
      rw [hcomm, List.map_map]
      refine List.map_congr_left fun r _ => ?_
      simp
    | event => exact rfl
  | insertAudit event =>
    cases k with
    | event id =>
      have hid : event.id ≠ id := fun heq => hk (by simp [Write.keys, heq])
      simp [Key.same, Write.apply, hid]
    | key | fingerprint => exact rfl

/-- **What a write does under a key** depends on what is there. -/
theorem same_congr {k : Key} {w : Write} {db db' : Tables} (hs : k.same db db') :
    k.same (w.apply db) (w.apply db') := by
  cases w with
  | insertKey new =>
    cases k with
    | key id =>
      simp only [Key.same, Write.apply, List.filter_append] at hs ⊢
      rw [hs]
    | fingerprint f =>
      simp only [Key.same, Write.apply, List.filter_append, List.map_append] at hs ⊢
      rw [hs]
    | event => exact hs
  | revoke id now =>
    cases k with
    | key id' =>
      have hcomm := filter_map_comm (q := fun r : IdentityKey => r.id == id')
        (f := revokedRow id now) fun r => by simp
      simp only [Key.same, Write.apply] at hs ⊢
      rw [hcomm, hcomm, hs]
    | fingerprint f =>
      have hcomm := filter_map_comm (q := fun r : IdentityKey => r.fingerprint == f)
        (f := revokedRow id now) fun r => by simp
      have hids : ∀ rows : List IdentityKey,
          (rows.map (revokedRow id now)).map (·.id) = rows.map (·.id) := by
        intro rows
        rw [List.map_map]
        exact List.map_congr_left fun r _ => by simp
      simp only [Key.same, Write.apply] at hs ⊢
      rw [hcomm, hcomm, hids, hids, hs]
    | event => exact hs
  | insertAudit event =>
    cases k with
    | event id =>
      simp only [Key.same, Write.apply, List.filter_append] at hs ⊢
      rw [hs]
    | key | fingerprint => exact hs

end Spares

/-! ## Statements -/

inductive Sql where
  /-- `SELECT … FROM identity_keys WHERE fingerprint = $1`. -/
  | findByFingerprint (fingerprint : String)
  /-- `INSERT INTO identity_keys (account_id, public_key, fingerprint, label, verified_at) VALUES ($1, $2,
  $3, $4, now()) RETURNING …`. -/
  | insertKey (accountId : Uuid) (publicKey fingerprint : String) (label : Option String)
  /-- `SELECT … FROM identity_keys WHERE id = $1 FOR UPDATE`. -/
  | selectKeyForUpdate (id : Uuid)
  /-- `UPDATE identity_keys SET revoked_at = now() WHERE id = $1 RETURNING revoked_at`. -/
  | revokeKey (id : Uuid)
  /-- `INSERT INTO identity_key_audit_events (key_id, actor_type, actor_id, action, metadata) VALUES ($1,
  $2, $3, $4, $5) RETURNING …`. -/
  | insertAudit (keyId : Uuid) (actorType : String) (actorId : Uuid) (action : String)
    (metadata : Option Json)
  /-- `SELECT id, public_key, fingerprint, verified_at, revoked_at FROM identity_keys WHERE id = $1 AND
  account_id = $2`. -/
  | selectSigningKey (id accountId : Uuid)

/-- Their answers. -/
def Sql.Res : Sql → Type
  | findByFingerprint _ => Option IdentityKey
  | insertKey .. => IdentityKey
  | selectKeyForUpdate _ => Option IdentityKey
  | revokeKey _ => Int
  | insertAudit .. => IdentityAuditEvent
  | selectSigningKey .. => Option IdentityKeyRow

/-- On the pool. -/
def Sql.onPool : Sql → Bool
  | findByFingerprint _ | insertKey .. | selectSigningKey .. => true
  | selectKeyForUpdate _ | revokeKey _ | insertAudit .. => false

/-- The answers and failures of one step; `id` is what `gen_random_uuid` draws. -/
structure Choice where
  fails : Bool
  time : Int
  id : Uuid

/-- What a statement does to the tables `db` it sees, at `now`. -/
def Sql.effect (s : Sql) (waits : Key → Bool) (c : Choice) (now : Int) (db : Tables) :
    Outcome Key Write s.Res :=
  match s with
  | findByFingerprint fingerprint => answers (db.keys.find? (·.fingerprint == fingerprint))
  | insertKey accountId publicKey fingerprint label =>
    let row : IdentityKey :=
      ⟨c.id, accountId, publicKey, fingerprint, label, now, now, none⟩
    unlessHeld waits (.key c.id) <|
      if (db.key? c.id).isSome then breaks "identity_keys_pkey"
      else unlessHeld waits (.fingerprint fingerprint) <|
        if (db.keys.find? (·.fingerprint == fingerprint)).isSome then
          breaks "identity_keys_fingerprint_key"
        else takes waits [.key c.id, .fingerprint fingerprint] row [.insertKey row]
  | selectKeyForUpdate id =>
    match db.key? id with
    | some row => takes waits [.key id] (some row) []
    | none => answers none
  | revokeKey id =>
    match db.key? id with
    | some _ => takes waits [.key id] now [.revoke id now]
    | none => refuses .rowNotFound
  | insertAudit keyId actorType actorId action metadata =>
    let event : IdentityAuditEvent := ⟨c.id, keyId, actorType, actorId, action, metadata, now⟩
    if actorType != "account" then breaks "identity_key_audit_events_actor_type_check"
    else if !(["created", "verified", "revoked"].contains action) then
      breaks "identity_key_audit_events_action_check"
    else unlessHeld waits (.event c.id) <|
      if db.audit.any (·.id == c.id) then breaks "identity_key_audit_events_pkey"
      else unlessHeld waits (.key keyId) <|
        if (db.key? keyId).isNone then breaks "identity_key_audit_events_key_id_fkey"
        else takes waits [.event c.id] event [.insertAudit event]
  | selectSigningKey id accountId => answers (db.signingKey? id accountId)

/-- Every branch of every statement is fair. -/
theorem fair_effect (s : Sql) (waits : Key → Bool) (c : Choice) (now : Int) (db : Tables) :
    Fair waits (s.effect waits c now db) := by
  cases s <;> simp only [Sql.effect]
  all_goals
    repeat' first
    | exact fair_answers
    | exact fair_refuses
    | exact fair_takes
    | refine fair_unlessHeld ?_
    | split

/-- A statement locks what it writes. -/
theorem covered_effect (s : Sql) (waits : Key → Bool) (c : Choice) (now : Int) (db : Tables) :
    Covered Write.keys (s.effect waits c now db) := by
  cases s <;> simp only [Sql.effect]
  all_goals
    repeat' first
    | exact covered_answers
    | exact covered_refuses
    | exact covered_takes (by simp [Write.keys])
    | refine covered_unlessHeld ?_
    | split

/-! ### What the answers tell -/

section Answers

variable {waits : Key → Bool} {c : Choice} {now : Int} {db : Tables} {ks : List Key}
  {ws : List Write} {id accountId : Uuid} {publicKey fingerprint : String} {label : Option String}

theorem findByFingerprint_ok {a : Option IdentityKey}
    (h : (Sql.findByFingerprint fingerprint).effect waits c now db = some (.ok (a, ks, ws))) :
    a = db.keys.find? (·.fingerprint == fingerprint) ∧ ws = [] := by
  obtain ⟨rfl, -, rfl⟩ := answers_ok.mp h
  exact ⟨rfl, rfl⟩

theorem insertKey_ok {a : IdentityKey}
    (h : (Sql.insertKey accountId publicKey fingerprint label).effect waits c now db =
      some (.ok (a, ks, ws))) :
    a = ⟨c.id, accountId, publicKey, fingerprint, label, now, now, none⟩ ∧
      db.key? c.id = none ∧ db.keys.find? (·.fingerprint == fingerprint) = none ∧
        ws = [.insertKey a] := by
  simp only [Sql.effect] at h
  replace h := (unlessHeld_some h).2
  split at h
  · exact absurd h refuses_ok
  · rename_i hid
    replace h := (unlessHeld_some h).2
    split at h
    · exact absurd h refuses_ok
    · rename_i hfingerprint
      obtain ⟨-, rfl, -, rfl⟩ := takes_ok.mp h
      exact ⟨rfl, Option.not_isSome_iff_eq_none.mp hid,
        Option.not_isSome_iff_eq_none.mp hfingerprint, rfl⟩

theorem selectKeyForUpdate_ok {a : Option IdentityKey}
    (h : (Sql.selectKeyForUpdate id).effect waits c now db = some (.ok (a, ks, ws))) :
    a = db.key? id ∧ ws = [] ∧ (a.isSome = true → ks = [.key id]) := by
  simp only [Sql.effect] at h
  split at h
  · rename_i row hrow
    obtain ⟨-, rfl, rfl, rfl⟩ := takes_ok.mp h
    exact ⟨hrow.symm, rfl, fun _ => rfl⟩
  · rename_i hnone
    obtain ⟨rfl, -, rfl⟩ := answers_ok.mp h
    exact ⟨hnone.symm, rfl, fun hsome => absurd hsome (by simp)⟩

theorem revokeKey_ok {a : Int}
    (h : (Sql.revokeKey id).effect waits c now db = some (.ok (a, ks, ws))) :
    a = now ∧ ks = [.key id] ∧ ws = [.revoke id now] := by
  simp only [Sql.effect] at h
  split at h
  · obtain ⟨-, rfl, rfl, rfl⟩ := takes_ok.mp h
    exact ⟨rfl, rfl, rfl⟩
  · exact absurd h refuses_ok

theorem insertAudit_ok {actorType action : String} {metadata : Option Json} {a : IdentityAuditEvent}
    (h : (Sql.insertAudit id actorType accountId action metadata).effect waits c now db =
      some (.ok (a, ks, ws))) :
    a = ⟨c.id, id, actorType, accountId, action, metadata, now⟩ ∧ ks = [.event c.id] ∧
      ws = [.insertAudit a] := by
  simp only [Sql.effect] at h
  split at h
  · exact absurd h refuses_ok
  · split at h
    · exact absurd h refuses_ok
    · replace h := (unlessHeld_some h).2
      split at h
      · exact absurd h refuses_ok
      · replace h := (unlessHeld_some h).2
        split at h
        · exact absurd h refuses_ok
        · obtain ⟨-, rfl, rfl, rfl⟩ := takes_ok.mp h
          exact ⟨rfl, rfl, rfl⟩

theorem selectSigningKey_ok {a : Option IdentityKeyRow}
    (h : (Sql.selectSigningKey id accountId).effect waits c now db = some (.ok (a, ks, ws))) :
    a = db.signingKey? id accountId ∧ ws = [] := by
  obtain ⟨rfl, -, rfl⟩ := answers_ok.mp h
  exact ⟨rfl, rfl⟩

end Answers

/-- There is nothing to ask. -/
inductive Ask where

/-- The tables of identity keys under their statements. -/
abbrev schema : Schema where
  Db := Tables
  Key := Key
  Write := Write
  Sql := Sql
  Res := Sql.Res
  Ask := Ask
  Ans _ := Unit
  Choice := Choice
  decKey := inferInstance
  apply := Write.apply
  keys := Write.keys
  onPool := Sql.onPool
  effect := Sql.effect
  answer _ _ := ()
  fails := Choice.fails
  time := Choice.time
  same := Key.same
  same_refl k db := by
    cases k with
    | key | fingerprint | event => exact rfl
  same_trans {k _ _ _} h h' := by
    cases k with
    | key | fingerprint | event => exact Eq.trans h' h
  same_apply := same_apply
  same_congr := same_congr
  effect_waits h := fair_effect _ _ _ _ _ _ _ _ h
  effect_pool _ h := waits_of_covered (fair_effect _ _ _ _ _) (covered_effect _ _ _ _ _) h

end EvidentLedger.Identity
