import EvidentLedger.Lib.Outcome
import EvidentLedger.Lib.Text
import EvidentLedger.Uuid

/-!
# The public registry and its tables

`public_proof_registry` and `public_proof_materialization`
(`migrations/20260717140000_public_disclosure_boundary.sql`) and the SQL statements of
`src/public_proof.rs`.

* A proof is published under the hash of its file: a row of the registry with a public id of its own,
  and the row of the proof bound to that id. Of the rows of the registry with one hash at most one is
  enabled (`idx_public_proof_registry_active_hash`, a unique index over the enabled rows).
* `Key.activeHash` is the key of that index. It is locked by whoever inserts or disables an enabled row
  with the hash.
* `selectActive` is the `SELECT` of `disable_canonical_public_proof`, which locks nothing;
  `selectActiveForUpdate` that of `sync_canonical_public_proof_in_tx`.
* The order of `selectCandidate` leaves it open which of the rows of the earliest time is taken.
* Nobody deletes a row.
-/

namespace EvidentLedger.Registry

open Lib.Transaction

/-! ## Rows -/

/-- A row of `public_proof_registry`. -/
structure PublicRegistryEntry where
  publicProofId : String
  fileHash : String
  proofStatus : String
  registeredAt : Int
  tsaClass : String
  integrityState : String
  enabled : Bool
  deriving DecidableEq

/-- A row of `public_proof_materialization`. -/
structure Materialization where
  internalProofId : Uuid
  fileHash : String
  publicProofId : Option String
  materializedAt : Int
  stickyDisabled : Bool
  deriving DecidableEq

/-- The tables. -/
structure Tables where
  registry : List PublicRegistryEntry
  materialization : List Materialization
  deriving DecidableEq

namespace Tables

/-- The tables that the migration creates. -/
def empty : Tables := ⟨[], []⟩

variable (db : Tables)

def entry? (publicProofId : String) : Option PublicRegistryEntry :=
  db.registry.find? (·.publicProofId == publicProofId)

/-- The enabled row with a hash. -/
def active? (fileHash : String) : Option PublicRegistryEntry :=
  db.registry.find? fun entry => entry.fileHash == fileHash && entry.enabled

def proof? (internalProofId : Uuid) : Option Materialization :=
  db.materialization.find? (·.internalProofId == internalProofId)

/-- The rows that `selectCandidate` orders. -/
def eligible (fileHash : String) : List Materialization :=
  db.materialization.filter fun row => row.fileHash == fileHash && !row.stickyDisabled

/-- One of those that were materialised first. -/
def candidate? (tie : Nat) (fileHash : String) : Option Uuid :=
  let earliest := (db.eligible fileHash).filter fun row =>
    (db.eligible fileHash).all fun other => row.materializedAt ≤ other.materializedAt
  earliest[tie % earliest.length]?.map (·.internalProofId)

end Tables

/-! ## Writes -/

/-- What a transaction leaves in the tables. -/
inductive Write where
  | insertProof (row : Materialization)
  | insertEntry (entry : PublicRegistryEntry)
  | bind (internalProofId : Uuid) (publicProofId : String)
  | disable (publicProofId fileHash : String)
  | stick (internalProofId : Uuid)
  deriving DecidableEq

/-- The row with another public id. -/
def Materialization.bound (internalProofId : Uuid) (publicProofId : String) (row : Materialization) :
    Materialization :=
  if row.internalProofId == internalProofId then { row with publicProofId := some publicProofId }
  else row

/-- The row once it is disabled for good. -/
def Materialization.stuck (internalProofId : Uuid) (row : Materialization) : Materialization :=
  if row.internalProofId == internalProofId then { row with stickyDisabled := true } else row

/-- The row once it is disabled. -/
def PublicRegistryEntry.disabled (publicProofId fileHash : String) (entry : PublicRegistryEntry) :
    PublicRegistryEntry :=
  if entry.publicProofId == publicProofId && entry.fileHash == fileHash then
    { entry with enabled := false }
  else entry

def Write.apply : Write → Tables → Tables
  | insertProof row, db => { db with materialization := db.materialization ++ [row] }
  | insertEntry entry, db => { db with registry := db.registry ++ [entry] }
  | bind internalProofId publicProofId, db =>
    { db with materialization := db.materialization.map (·.bound internalProofId publicProofId) }
  | disable publicProofId fileHash, db =>
    { db with registry := db.registry.map (·.disabled publicProofId fileHash) }
  | stick internalProofId, db =>
    { db with materialization := db.materialization.map (·.stuck internalProofId) }

/-- A row, or a unique key. -/
inductive Key where
  | proof (internalProofId : Uuid)
  | entry (publicProofId : String)
  | activeHash (fileHash : String)
  deriving DecidableEq

def Write.keys : Write → List Key
  | insertProof row => [.proof row.internalProofId]
  | insertEntry entry => [.entry entry.publicProofId, .activeHash entry.fileHash]
  | bind internalProofId _ => [.proof internalProofId]
  | disable publicProofId fileHash => [.entry publicProofId, .activeHash fileHash]
  | stick internalProofId => [.proof internalProofId]

/-- The part of the tables under a key is the same. -/
def Key.same : Key → Tables → Tables → Prop
  | proof m, db, db' => db'.materialization.filter (·.internalProofId == m) =
      db.materialization.filter (·.internalProofId == m)
  | entry id, db, db' =>
    db'.registry.filter (·.publicProofId == id) = db.registry.filter (·.publicProofId == id)
  | activeHash h, db, db' =>
    db'.registry.filter (·.fileHash == h) = db.registry.filter (·.fileHash == h)

theorem Key.same_refl (k : Key) (db : Tables) : k.same db db := by
  cases k with
  | proof | entry | activeHash => exact rfl

theorem Key.same_trans {k : Key} {db₁ db₂ db₃ : Tables} (h : k.same db₁ db₂)
    (h' : k.same db₂ db₃) : k.same db₁ db₃ := by
  cases k with
  | proof | entry | activeHash => exact Eq.trans h' h

section Spares

variable {m m' : Uuid} {id id' h h' : String}

@[simp] theorem bound_internalProofId (row : Materialization) :
    (row.bound m id).internalProofId = row.internalProofId := by
  unfold Materialization.bound
  split_ifs <;> rfl

@[simp] theorem bound_fileHash (row : Materialization) :
    (row.bound m id).fileHash = row.fileHash := by
  unfold Materialization.bound
  split_ifs <;> rfl

@[simp] theorem bound_stickyDisabled (row : Materialization) :
    (row.bound m id).stickyDisabled = row.stickyDisabled := by
  unfold Materialization.bound
  split_ifs <;> rfl

theorem bound_of_ne {row : Materialization} (hne : row.internalProofId ≠ m) :
    row.bound m id = row := by
  simp [Materialization.bound, hne]

theorem bound_self {row : Materialization} (h : row.internalProofId = m) :
    (row.bound m id).publicProofId = some id := by
  simp [Materialization.bound, h]

@[simp] theorem stuck_internalProofId (row : Materialization) :
    (row.stuck m).internalProofId = row.internalProofId := by
  unfold Materialization.stuck
  split_ifs <;> rfl

@[simp] theorem stuck_fileHash (row : Materialization) : (row.stuck m).fileHash = row.fileHash := by
  unfold Materialization.stuck
  split_ifs <;> rfl

@[simp] theorem stuck_publicProofId (row : Materialization) :
    (row.stuck m).publicProofId = row.publicProofId := by
  unfold Materialization.stuck
  split_ifs <;> rfl

theorem stuck_of_ne {row : Materialization} (hne : row.internalProofId ≠ m) : row.stuck m = row := by
  simp [Materialization.stuck, hne]

@[simp] theorem disabled_publicProofId (entry : PublicRegistryEntry) :
    (entry.disabled id h).publicProofId = entry.publicProofId := by
  unfold PublicRegistryEntry.disabled
  split_ifs <;> rfl

@[simp] theorem disabled_fileHash (entry : PublicRegistryEntry) :
    (entry.disabled id h).fileHash = entry.fileHash := by
  unfold PublicRegistryEntry.disabled
  split_ifs <;> rfl

theorem disabled_of_id_ne {entry : PublicRegistryEntry} (hne : entry.publicProofId ≠ id) :
    entry.disabled id h = entry := by
  simp [PublicRegistryEntry.disabled, hne]

theorem disabled_of_hash_ne {entry : PublicRegistryEntry} (hne : entry.fileHash ≠ h) :
    entry.disabled id h = entry := by
  simp [PublicRegistryEntry.disabled, hne]

/-- **A write without the key** leaves what is under it. -/
theorem same_apply {k : Key} {w : Write} {db : Tables} (hk : k ∉ w.keys) :
    k.same db (w.apply db) := by
  cases w with
  | insertProof row =>
    cases k with
    | proof m =>
      have hm : row.internalProofId ≠ m := fun heq => hk (by simp [Write.keys, heq])
      simp [Key.same, Write.apply, hm]
    | entry | activeHash => exact rfl
  | insertEntry e =>
    cases k with
    | entry id =>
      have hid : e.publicProofId ≠ id := fun heq => hk (by simp [Write.keys, heq])
      simp [Key.same, Write.apply, hid]
    | activeHash h =>
      have hh : e.fileHash ≠ h := fun heq => hk (by simp [Write.keys, heq])
      simp [Key.same, Write.apply, hh]
    | proof => exact rfl
  | bind m id =>
    cases k with
    | proof m' =>
      have hm : m' ≠ m := fun heq => hk (by simp [Write.keys, heq])
      refine filter_map_of_self (fun r => by simp) (fun r hr => bound_of_ne ?_) _
      rw [beq_iff_eq.mp hr]
      exact hm
    | entry | activeHash => exact rfl
  | disable id h =>
    cases k with
    | entry id' =>
      have hid : id' ≠ id := fun heq => hk (by simp [Write.keys, heq])
      refine filter_map_of_self (fun e => by simp) (fun e he => disabled_of_id_ne ?_) _
      rw [beq_iff_eq.mp he]
      exact hid
    | activeHash h' =>
      have hh : h' ≠ h := fun heq => hk (by simp [Write.keys, heq])
      refine filter_map_of_self (fun e => by simp) (fun e he => disabled_of_hash_ne ?_) _
      rw [beq_iff_eq.mp he]
      exact hh
    | proof => exact rfl
  | stick m =>
    cases k with
    | proof m' =>
      have hm : m' ≠ m := fun heq => hk (by simp [Write.keys, heq])
      refine filter_map_of_self (fun r => by simp) (fun r hr => stuck_of_ne ?_) _
      rw [beq_iff_eq.mp hr]
      exact hm
    | entry | activeHash => exact rfl

/-- **What a write does under a key** depends on what is there. -/
theorem same_congr {k : Key} {w : Write} {db db' : Tables} (hs : k.same db db') :
    k.same (w.apply db) (w.apply db') := by
  cases w with
  | insertProof row =>
    cases k with
    | proof =>
      simp only [Key.same, Write.apply, List.filter_append] at hs ⊢
      rw [hs]
    | entry | activeHash => exact hs
  | insertEntry e =>
    cases k with
    | entry | activeHash =>
      simp only [Key.same, Write.apply, List.filter_append] at hs ⊢
      rw [hs]
    | proof => exact hs
  | bind m id =>
    cases k with
    | proof m' =>
      have hcomm := filter_map_comm (q := fun r : Materialization => r.internalProofId == m')
        (f := Materialization.bound m id) fun r => by simp
      simp only [Key.same, Write.apply] at hs ⊢
      rw [hcomm, hcomm, hs]
    | entry | activeHash => exact hs
  | disable id h =>
    cases k with
    | entry id' =>
      have hcomm := filter_map_comm (q := fun e : PublicRegistryEntry => e.publicProofId == id')
        (f := PublicRegistryEntry.disabled id h) fun e => by simp
      simp only [Key.same, Write.apply] at hs ⊢
      rw [hcomm, hcomm, hs]
    | activeHash h' =>
      have hcomm := filter_map_comm (q := fun e : PublicRegistryEntry => e.fileHash == h')
        (f := PublicRegistryEntry.disabled id h) fun e => by simp
      simp only [Key.same, Write.apply] at hs ⊢
      rw [hcomm, hcomm, hs]
    | proof => exact hs
  | stick m =>
    cases k with
    | proof m' =>
      have hcomm := filter_map_comm (q := fun r : Materialization => r.internalProofId == m')
        (f := Materialization.stuck m) fun r => by simp
      simp only [Key.same, Write.apply] at hs ⊢
      rw [hcomm, hcomm, hs]
    | entry | activeHash => exact hs

end Spares

/-! ## Statements -/

inductive Sql where
  /-- `INSERT INTO public_proof_materialization (internal_proof_id, file_hash) VALUES ($1, $2) ON
  CONFLICT (internal_proof_id) DO NOTHING`. -/
  | insertProof (internalProofId : Uuid) (fileHash : String)
  /-- `SELECT public_proof_id FROM public_proof_registry WHERE file_hash = $1 AND enabled = true`. -/
  | selectActive (fileHash : String)
  /-- The same `FOR UPDATE`. -/
  | selectActiveForUpdate (fileHash : String)
  /-- `SELECT internal_proof_id FROM public_proof_materialization WHERE file_hash = $1 AND
  sticky_disabled = false ORDER BY materialized_at ASC LIMIT 1`. -/
  | selectCandidate (fileHash : String)
  /-- `INSERT INTO public_proof_registry (…) VALUES ($1, $2, $3, now(), $4, $5, true)`, for a
  transaction that has selected `candidate`. -/
  | insertEntry (publicProofId fileHash tsaClass : String) (candidate : Uuid)
  /-- `UPDATE public_proof_materialization SET public_proof_id = $1 WHERE internal_proof_id = $2`. -/
  | bindProof (publicProofId : String) (internalProofId : Uuid)
  /-- `UPDATE public_proof_registry SET enabled = false WHERE public_proof_id = $1`. -/
  | disableEntry (publicProofId : String)
  /-- `UPDATE public_proof_materialization SET sticky_disabled = true WHERE public_proof_id = $1`. -/
  | stickProofs (publicProofId : String)
  deriving DecidableEq

/-- Their answers. -/
def Sql.Res : Sql → Type
  | selectActive _ => Option String
  | selectActiveForUpdate _ => Option String
  | selectCandidate _ => Option Uuid
  | _ => Unit

/-- `OsRng.fill_bytes`, of sixteen bytes. -/
inductive Ask where
  | fillBytes

def Ask.Ans : Ask → Type
  | fillBytes => Bytes 16

/-- The answers and failures of one step. -/
structure Choice where
  fails : Bool
  time : Int
  bytes : Bytes 16
  tie : Nat

def Choice.answer (c : Choice) : (a : Ask) → a.Ans
  | .fillBytes => c.bytes

def PUBLIC_PROOF_STATUS_REGISTERED : String := "REGISTERED"

def PUBLIC_INTEGRITY_VALID : String := "VALID"

/-- The row of a transaction that began at `now`. -/
def newEntry (publicProofId fileHash tsaClass : String) (now : Int) : PublicRegistryEntry :=
  ⟨publicProofId, fileHash, PUBLIC_PROOF_STATUS_REGISTERED, now, tsaClass, PUBLIC_INTEGRITY_VALID, true⟩

/-- What a statement does to the tables `db` it sees, at `now`. -/
def Sql.effect (s : Sql) (waits : Key → Bool) (c : Choice) (now : Int) (db : Tables) :
    Outcome Key Write s.Res :=
  match s with
  | insertProof internalProofId fileHash =>
    unlessHeld waits (.proof internalProofId) <|
      if (db.proof? internalProofId).isSome then answers ()
      else takes waits [.proof internalProofId] ()
        [.insertProof ⟨internalProofId, fileHash, none, now, false⟩]
  | selectActive fileHash => answers ((db.active? fileHash).map (·.publicProofId))
  | selectActiveForUpdate fileHash =>
    match db.active? fileHash with
    | some entry => takes waits [.entry entry.publicProofId] (some entry.publicProofId) []
    | none => answers none
  | selectCandidate fileHash => answers (db.candidate? c.tie fileHash)
  | insertEntry publicProofId fileHash tsaClass _ =>
    unlessHeld waits (.entry publicProofId) <|
      if (db.entry? publicProofId).isSome then breaks "public_proof_registry_pkey"
      else unlessHeld waits (.activeHash fileHash) <|
        if (db.active? fileHash).isSome then breaks "idx_public_proof_registry_active_hash"
        else takes waits [.entry publicProofId, .activeHash fileHash] ()
          [.insertEntry (newEntry publicProofId fileHash tsaClass now)]
  | bindProof publicProofId internalProofId =>
    match db.proof? internalProofId with
    | some _ =>
      unlessHeld waits (.proof internalProofId) <|
        if (db.entry? publicProofId).isNone then
          breaks "public_proof_materialization_public_proof_id_fkey"
        else takes waits [.proof internalProofId] () [.bind internalProofId publicProofId]
    | none => answers ()
  | disableEntry publicProofId =>
    match db.entry? publicProofId with
    | some entry =>
      if entry.enabled then
        takes waits [.entry publicProofId, .activeHash entry.fileHash] ()
          [.disable publicProofId entry.fileHash]
      else takes waits [.entry publicProofId] () []
    | none => answers ()
  | stickProofs publicProofId =>
    let rows := (db.materialization.filter (·.publicProofId == some publicProofId)).map
      (·.internalProofId)
    takes waits (rows.map .proof) () (rows.map .stick)

/-! ## The schema -/

variable {waits : Key → Bool} {c : Choice} {now : Int} {db : Tables} {ks : List Key}
  {ws : List Write}

/-- Every branch of every statement is fair. -/
theorem fair_effect (s : Sql) (waits : Key → Bool) (c : Choice) (now : Int) (db : Tables) :
    Fair waits (s.effect waits c now db) := by
  cases s <;> simp only [Sql.effect]
  all_goals
    repeat' first
    | exact fair_answers
    | exact fair_refuses
    | exact fair_takes
    | refine fair_unlessHeld ?_
    | split

theorem keys_stick (rows : List Uuid) :
    ∀ w ∈ rows.map Write.stick, ∀ k ∈ w.keys, k ∈ rows.map Key.proof := by
  intro w hw k hk
  obtain ⟨m, hm, rfl⟩ := List.mem_map.mp hw
  obtain rfl := List.mem_singleton.mp hk
  exact List.mem_map_of_mem hm

/-- A statement locks what it writes. -/
theorem covered_effect (s : Sql) (waits : Key → Bool) (c : Choice) (now : Int) (db : Tables) :
    Covered Write.keys (s.effect waits c now db) := by
  cases s <;> simp only [Sql.effect]
  all_goals
    repeat' first
    | exact covered_answers
    | exact covered_refuses
    | exact covered_takes (keys_stick _)
    | exact covered_takes (by simp [Write.keys, newEntry])
    | refine covered_unlessHeld ?_
    | split

/-- The tables of the registry under their statements; none runs on the pool. -/
abbrev schema : Schema where
  Db := Tables
  Key := Key
  Write := Write
  Sql := Sql
  Res := Sql.Res
  Ask := Ask
  Ans := Ask.Ans
  Choice := Choice
  decKey := inferInstance
  apply := Write.apply
  keys := Write.keys
  onPool _ := false
  effect := Sql.effect
  answer := Choice.answer
  fails := Choice.fails
  time := Choice.time
  same := Key.same
  same_refl := Key.same_refl
  same_trans := Key.same_trans
  same_apply := same_apply
  same_congr := same_congr
  effect_waits h := fair_effect _ _ _ _ _ _ _ _ h
  effect_pool _ h := waits_of_covered (fair_effect _ _ _ _ _) (covered_effect _ _ _ _ _) h

end EvidentLedger.Registry
