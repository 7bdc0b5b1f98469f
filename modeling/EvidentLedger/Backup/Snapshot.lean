import EvidentLedger.Structure
import EvidentLedger.Json

/-!
# Backups of a chain

`BackupSnapshot` and what is checked of it before it is restored (`src/service/backup_snapshot.rs`).
The reader and the writer of JSON are `serde_json`, a parameter (`Serde`).

* `validateStructuralIntegrity_ok`: a snapshot passes exactly if its events are of its chain and linked.
-/

namespace EvidentLedger.Backup

/-! ## Snapshots -/

structure EventSnapshot where
  eventId : Uuid
  chainId : Uuid
  parentEventId : Uuid
  fileHash : String
  idempotencyKey : String
  signature : String
  createdAt : Int
  sequence : Int64
  deriving DecidableEq

structure BackupSnapshot where
  chainId : Uuid
  events : List EventSnapshot
  exportedAt : Int
  deriving DecidableEq

structure ChainHeadSummary where
  eventCount : Nat
  headEventId : Uuid
  deriving DecidableEq

def EventSnapshot.toEventRow (e : EventSnapshot) : EventRow :=
  ⟨e.eventId, e.parentEventId, e.fileHash, e.createdAt, e.sequence⟩

namespace BackupSnapshot

variable (snapshot : BackupSnapshot)

def headSummary : Option ChainHeadSummary :=
  snapshot.events.getLast?.map fun last => ⟨snapshot.events.length, last.eventId⟩

def toEventRows : List EventRow := snapshot.events.map (·.toEventRow)

end BackupSnapshot

/-- `serde_json`, as it is used for snapshots and for proof files. -/
structure Serde where
  fromSlice : List UInt8 → Except String BackupSnapshot
  toVec : BackupSnapshot → List UInt8
  toVecPretty : BackupSnapshot → List UInt8
  fromStr : String → Option Json

def STRUCTURAL_INTEGRITY_ERROR : String :=
  "snapshot appears corrupted or incomplete — restore aborted"

def parseSnapshot (serde : Serde) (bytes : List UInt8) : Except String BackupSnapshot :=
  (serde.fromSlice bytes).mapError fun e => "invalid backup JSON: " ++ e

/-! ## The structural check -/

variable (sha : Sha256) (snapshot : BackupSnapshot)

def validateStructuralIntegrity : Except String String :=
  if snapshot.events.any (·.chainId ≠ snapshot.chainId) then .error STRUCTURAL_INTEGRITY_ERROR
  else
    (checkEventStructure sha snapshot.toEventRows).mapError fun _ => STRUCTURAL_INTEGRITY_ERROR

variable {sha snapshot}

/-- **A snapshot passes** exactly if its events are of its chain and linked. -/
theorem validateStructuralIntegrity_ok :
    (∃ root, validateStructuralIntegrity sha snapshot = .ok root) ↔
      (∀ e ∈ snapshot.events, e.chainId = snapshot.chainId) ∧ Linked none snapshot.toEventRows := by
  unfold validateStructuralIntegrity
  by_cases hany : snapshot.events.any (·.chainId ≠ snapshot.chainId) = true
  · rw [if_pos hany]
    obtain ⟨e, he, hne⟩ := List.any_eq_true.mp hany
    constructor
    · rintro ⟨root, h⟩
      exact absurd h (by simp)
    · rintro ⟨hall, -⟩
      exact absurd (hall e he) (of_decide_eq_true hne)
  · rw [if_neg hany]
    have hall : ∀ e ∈ snapshot.events, e.chainId = snapshot.chainId := by
      intro e he
      by_contra hne
      exact hany (List.any_eq_true.mpr ⟨e, he, decide_eq_true hne⟩)
    have hcheck : (∃ root, checkEventStructure sha snapshot.toEventRows = .ok root) ↔
        Linked none snapshot.toEventRows := by
      by_cases hne : snapshot.toEventRows = []
      · rw [hne]
        exact ⟨fun _ => trivial, fun _ => ⟨_, rfl⟩⟩
      · exact ⟨fun ⟨_, h⟩ => linked_of_checkEventStructure h,
          fun hl => ⟨_, (checkEventStructure_ok hne).mpr ⟨hl, rfl⟩⟩⟩
    rw [← hcheck]
    cases checkEventStructure sha snapshot.toEventRows with
    | ok root => exact ⟨fun _ => ⟨hall, root, rfl⟩, fun _ => ⟨root, rfl⟩⟩
    | error failure =>
      constructor
      · rintro ⟨root, h⟩
        exact absurd h (by simp [Except.mapError])
      · rintro ⟨-, root, h⟩
        exact absurd h (by simp)

end EvidentLedger.Backup
