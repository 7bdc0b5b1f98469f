import EvidentLedger.Lib.HashTree
import EvidentLedger.Uuid

/-!
# Merkle leaves and roots

Model of `src/merkle.rs` and of `EventRow` (`src/db.rs`).

* `buildLeaf` (`MerkleTree::build_leaf`, `merkle.rs:25-37`) hashes the big-endian sequence, the two
  uuids and the UTF-8 of the file hash, and prints the digest as 64 lower-case hexadecimal digits.
* `buildMerkleRoot` (`merkle.rs:39-71`): `"empty"` for no leaf, the leaf itself for one leaf;
  otherwise every leaf text is hashed once more and the levels are hashed pairwise, an odd last
  node with itself (`Lib.HashTree.reduce`, `chunks(2)`). The `while` loop has a fuel argument here,
  the number of leaves, which is enough (`Lib.HashTree.length_reduce`).
* `recomputeInputs` lists every byte string `recomputeRootFromEvents` hands to SHA-256.

SHA-256 is a parameter: any function to 32 bytes. The digests are handled as their texts, as in the
source.
-/

namespace EvidentLedger

open Lib.Text Lib.HashTree

/-- A SHA-256 implementation. -/
abbrev Sha256 := List UInt8 → Bytes 32

/-- `EventRow` (`db.rs`): the columns of an event the proof code reads. `created_at` is in
microseconds. -/
structure EventRow where
  eventId : Uuid
  parentEventId : Uuid
  fileHash : String
  createdAt : Int
  sequence : Int64
  deriving DecidableEq

/-- The four columns a leaf commits to. -/
def EventRow.content (e : EventRow) : Int64 × Uuid × Uuid × String :=
  (e.sequence, e.eventId, e.parentEventId, e.fileHash)

variable (sha : Sha256)

/-- `format!("{:x}", Sha256::digest(x))`. -/
def sha256Hex (x : List UInt8) : String := hexEncode (sha x).1

/-- What `build_leaf` hashes. -/
def leafInput (sequence : Int64) (eventId parentEventId : Uuid) (fileHash : String) : List UInt8 :=
  beBytes sequence.toUInt64.toNat ++ eventId.bytes.1 ++ parentEventId.bytes.1 ++ asBytes fileHash

/-- `MerkleTree::build_leaf`. -/
def buildLeaf (sequence : Int64) (eventId parentEventId : Uuid) (fileHash : String) : String :=
  sha256Hex sha (leafInput sequence eventId parentEventId fileHash)

/-- Two node texts, one after the other. -/
def nodeInput (left right : String) : List UInt8 := asBytes left ++ asBytes right

/-- The leaf texts hashed once more: `hashed` before the loop. -/
def hashedLeaves (leaves : List String) : List String :=
  leaves.map fun leaf => sha256Hex sha (asBytes leaf)

/-- `MerkleTree::build_merkle_root`. -/
def buildMerkleRoot : List String → String
  | [] => "empty"
  | [leaf] => leaf
  | leaves => (reduce (sha256Hex sha) nodeInput leaves.length (hashedLeaves sha leaves)).headD ""

/-- The leaf input and the leaf of an event. -/
def EventRow.leafInput (e : EventRow) : List UInt8 :=
  EvidentLedger.leafInput e.sequence e.eventId e.parentEventId e.fileHash

def EventRow.leaf (e : EventRow) : String :=
  buildLeaf sha e.sequence e.eventId e.parentEventId e.fileHash

/-- `MerkleTree::recompute_root_from_events`. -/
def recomputeRootFromEvents (events : List EventRow) : String :=
  buildMerkleRoot sha (events.map (EventRow.leaf sha))

/-- The inputs `buildMerkleRoot` hashes. -/
def rootInputs : List String → List (List UInt8)
  | [] => []
  | [_] => []
  | leaves => leaves.map asBytes ++
      reduceInputs (sha256Hex sha) nodeInput leaves.length (hashedLeaves sha leaves)

/-- The inputs `recomputeRootFromEvents` hashes. -/
def recomputeInputs (events : List EventRow) : List (List UInt8) :=
  events.map EventRow.leafInput ++ rootInputs sha (events.map (EventRow.leaf sha))

/-! ## Texts of digests -/

variable {sha}

theorem sha256Hex_inj {x y : List UInt8} (h : sha256Hex sha x = sha256Hex sha y) :
    sha x = sha y :=
  Subtype.ext (hexEncode_inj h)

theorem length_asBytes_sha256Hex (x : List UInt8) : (asBytes (sha256Hex sha x)).length = 64 := by
  rw [sha256Hex, length_asBytes_hexEncode, (sha x).2]

theorem sha256Hex_ne_empty (x : List UInt8) : sha256Hex sha x ≠ "" := by
  intro h
  have hlen : (asBytes (sha256Hex sha x)).length = 64 := length_asBytes_sha256Hex x
  rw [h] at hlen
  exact absurd hlen (by decide)

theorem buildMerkleRoot_of_two_le {leaves : List String} (h : 1 < leaves.length) :
    buildMerkleRoot sha leaves =
      (reduce (sha256Hex sha) nodeInput leaves.length (hashedLeaves sha leaves)).headD "" := by
  match leaves, h with
  | _ :: _ :: _, _ => rfl

theorem rootInputs_of_two_le {leaves : List String} (h : 1 < leaves.length) :
    rootInputs sha leaves = leaves.map asBytes ++
      reduceInputs (sha256Hex sha) nodeInput leaves.length (hashedLeaves sha leaves) := by
  match leaves, h with
  | _ :: _ :: _, _ => rfl

theorem mem_range_hashedLeaves {leaves : List String} :
    ∀ x ∈ hashedLeaves sha leaves, x ∈ Set.range (sha256Hex sha) := by
  intro x hx
  obtain ⟨leaf, -, rfl⟩ := List.mem_map.mp hx
  exact Set.mem_range_self _

variable (sha) in
/-- The root of two or more leaves is the digest of a pair of digests. -/
theorem buildMerkleRoot_pair {leaves : List String} (h : 1 < leaves.length) :
    ∃ y ∈ Set.range (sha256Hex sha), ∃ z ∈ Set.range (sha256Hex sha),
      nodeInput y z ∈ rootInputs sha leaves ∧
        buildMerkleRoot sha leaves = sha256Hex sha (nodeInput y z) := by
  have hlen : (hashedLeaves sha leaves).length = leaves.length := List.length_map _
  obtain ⟨y, hy, z, hz, hin, hr⟩ := reduce_root (h := sha256Hex sha) (D := Set.range (sha256Hex sha))
    Set.mem_range_self (by omega) (Nat.le_of_eq hlen) mem_range_hashedLeaves
  refine ⟨y, hy, z, hz, ?_, ?_⟩
  · rw [rootInputs_of_two_le h]
    exact List.mem_append_right _ hin
  · rw [buildMerkleRoot_of_two_le h, hr]
    rfl

variable (sha) in
/-- **A root is a digest**: 64 hexadecimal digits, for every non-empty list of events. -/
theorem recompute_eq_digest {events : List EventRow} (hne : events ≠ []) :
    ∃ x, recomputeRootFromEvents sha events = sha256Hex sha x := by
  by_cases h1 : 1 < (events.map (EventRow.leaf sha)).length
  · obtain ⟨y, -, z, -, -, hr⟩ := buildMerkleRoot_pair sha h1
    exact ⟨nodeInput y z, hr⟩
  · have hpos := List.length_pos_iff.mpr hne
    rw [List.length_map] at h1
    obtain ⟨e, rfl⟩ := List.length_eq_one_iff.mp (by omega : events.length = 1)
    exact ⟨e.leafInput, rfl⟩

/-! ## Leaf inputs -/

theorem toUInt64_toNat_inj {a b : Int64} (h : a.toUInt64.toNat = b.toUInt64.toNat) : a = b := by
  have h1 : a.toUInt64 = b.toUInt64 := UInt64.toNat_inj.mp h
  have h2 := congrArg UInt64.toInt64 h1
  simpa using h2

/-- A leaf input determines the four columns. -/
theorem leafInput_inj {a b : EventRow} (h : a.leafInput = b.leafInput) : a.content = b.content := by
  have hu : ∀ u : Uuid, u.bytes.1.length = 16 := fun u => u.bytes.2
  unfold EventRow.leafInput leafInput at h
  simp only [List.append_assoc] at h
  obtain ⟨hs, h⟩ := List.append_inj h (by rw [length_beBytes, length_beBytes])
  obtain ⟨he, h⟩ := List.append_inj h (by rw [hu, hu])
  obtain ⟨hp, hf⟩ := List.append_inj h (by rw [hu, hu])
  have he' : a.eventId = b.eventId := by
    cases ha : a.eventId; cases hb : b.eventId
    rw [ha, hb] at he
    simpa using Subtype.ext he
  have hp' : a.parentEventId = b.parentEventId := by
    cases ha : a.parentEventId; cases hb : b.parentEventId
    rw [ha, hb] at hp
    simpa using Subtype.ext hp
  have hs' := toUInt64_toNat_inj (beBytes_inj (UInt64.toNat_lt _) (UInt64.toNat_lt _) hs)
  simp only [EventRow.content, hs', he', hp', asBytes_inj hf]

end EvidentLedger
