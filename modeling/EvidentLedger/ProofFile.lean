import EvidentLedger.Signing

/-!
# Proof files

The version identifiers of `src/proof_format.rs`, the proof file as the client writes it
(`src/client.rs:8-56`) and as `evident-verify` reads it (`src/bin/verify.rs:12-37`), and the
conversion of its leaves to rows (`events_to_rows`, `verify.rs:39-52`).

Both programs read the same JSON. The client's `leaf_version` is a required text, the verifier's is
optional, and the verifier ignores `type` and `tsa`: `ProofFile.forVerifier` is the file as the
verifier sees it. A row is stamped with the time of reading, which nothing below looks at
(`eventsToRows_content`).
-/

namespace EvidentLedger

/-! ## Formats -/

/-- `PROOF_VERSION`, `PROOF_TYPE` and `LEAF_VERSION`. -/
def PROOF_VERSION : String := "proof_v1"

def PROOF_TYPE : String := "merkle-root-v1"

def LEAF_VERSION : String := "leaf_v1"

def LEGACY_UNVERSIONED_MESSAGE : String :=
  "unversioned legacy proof format — unsupported, please regenerate"

def UNSUPPORTED_PROOF_FORMAT_MESSAGE : String := "unsupported proof format"

def LEGACY_EXIT_CODE : Nat := 4

/-- `is_versioned`. -/
def isVersioned (proofVersion leafVersion : Option String) : Bool :=
  proofVersion.any (· ≠ "") && leafVersion.any (· ≠ "")

/-- `is_supported`. -/
def isSupported : Option String → Option String → Bool
  | some pv, some lv => pv == PROOF_VERSION && lv == LEAF_VERSION
  | _, _ => false

/-- A supported pair of versions is the current one, and versioned. -/
theorem isSupported_iff {pv lv : Option String} :
    isSupported pv lv = true ↔ pv = some PROOF_VERSION ∧ lv = some LEAF_VERSION := by
  cases pv with
  | none => simp [isSupported]
  | some pv =>
    cases lv with
    | none => simp [isSupported]
    | some lv => simp [isSupported]

theorem isVersioned_of_isSupported {pv lv : Option String} (h : isSupported pv lv = true) :
    isVersioned pv lv = true := by
  obtain ⟨rfl, rfl⟩ := isSupported_iff.mp h
  decide

/-! ## The client's file -/

/-- `client::TsaData`. -/
structure TsaData where
  timestamp : Option Int64
  serial : Option String
  tokenBytes : Option Int64
  deriving DecidableEq

/-- `client::ProofPayload`. -/
structure ProofPayload where
  root : String
  chainHead : String
  signature : String
  publicKey : String
  leavesCount : Nat
  version : Option String
  proofType : Option String
  deriving DecidableEq

/-- `EventLeaf`. -/
structure EventLeaf where
  sequence : Int64
  eventId : String
  parentEventId : String
  fileHash : String
  deriving DecidableEq

/-- `client::ProofFile`. -/
structure ProofFile where
  leafVersion : String
  chainId : String
  headEventId : String
  proof : ProofPayload
  events : List EventLeaf
  tsa : Option TsaData
  deriving DecidableEq

/-! ## The verifier's file -/

namespace Verifier

/-- `Proof` of `verify.rs`. -/
structure Proof where
  version : Option String
  root : String
  chainHead : String
  signature : String
  publicKey : String
  leavesCount : Nat
  deriving DecidableEq

/-- `ProofFile` of `verify.rs`. -/
structure ProofFile where
  leafVersion : Option String
  chainId : String
  headEventId : String
  proof : Proof
  events : List EventLeaf
  deriving DecidableEq

end Verifier

/-- The file as the verifier reads it. -/
def ProofFile.forVerifier (f : ProofFile) : Verifier.ProofFile where
  leafVersion := some f.leafVersion
  chainId := f.chainId
  headEventId := f.headEventId
  proof :=
    { version := f.proof.version
      root := f.proof.root
      chainHead := f.proof.chainHead
      signature := f.proof.signature
      publicKey := f.proof.publicKey
      leavesCount := f.proof.leavesCount }
  events := f.events

/-! ## Leaves to rows -/

/-- One leaf, if its two uuids parse. -/
def EventLeaf.toRow (now : Int) (e : EventLeaf) : Option EventRow :=
  match Uuid.parseStr e.eventId, Uuid.parseStr e.parentEventId with
  | some eventId, some parentEventId => some ⟨eventId, parentEventId, e.fileHash, now, e.sequence⟩
  | _, _ => none

/-- `events_to_rows`. -/
def eventsToRows (now : Int) : List EventLeaf → Option (List EventRow)
  | [] => some []
  | event :: events =>
    match event.toRow now with
    | none => none
    | some row => (eventsToRows now events).map (row :: ·)

/-- A row printed as a leaf, the way the server and the client print it. -/
def EventRow.toLeaf (e : EventRow) : EventLeaf :=
  ⟨e.sequence, e.eventId.toString, e.parentEventId.toString, e.fileHash⟩

theorem toRow_toLeaf (now : Int) (e : EventRow) :
    e.toLeaf.toRow now = some { e with createdAt := now } := by
  simp only [EventRow.toLeaf, EventLeaf.toRow, Uuid.parseStr_toString]

/-- **Round trip of the leaves.** -/
theorem eventsToRows_toLeaf (now : Int) : ∀ rows : List EventRow,
    eventsToRows now (rows.map EventRow.toLeaf) =
      some (rows.map fun e => { e with createdAt := now })
  | [] => rfl
  | e :: rows => by
    simp only [List.map_cons, eventsToRows, toRow_toLeaf, eventsToRows_toLeaf now rows,
      Option.map_some]

/-- The leaves printed from some rows are read as those rows. -/
theorem content_of_eventsToRows_toLeaf {now : Int} {rows rows' : List EventRow}
    (h : eventsToRows now (rows.map EventRow.toLeaf) = some rows') :
    rows'.map EventRow.content = rows.map EventRow.content := by
  rw [eventsToRows_toLeaf] at h
  rw [← Option.some.inj h, List.map_map]
  rfl

/-- A leaf that fails to parse is all it takes. -/
theorem eventsToRows_isSome {now : Int} : ∀ {events : List EventLeaf},
    (eventsToRows now events).isSome = true ↔ ∀ e ∈ events, (e.toRow now).isSome = true
  | [] => by simp [eventsToRows]
  | event :: events => by
    unfold eventsToRows
    cases hrow : event.toRow now with
    | none => simp [hrow]
    | some row => simp [hrow, eventsToRows_isSome]

/-- The time of reading does not show in the columns a leaf commits to. -/
theorem toRow_content (now now' : Int) (e : EventLeaf) :
    (e.toRow now).map EventRow.content = (e.toRow now').map EventRow.content := by
  unfold EventLeaf.toRow
  split <;> rfl

theorem eventsToRows_content (now now' : Int) : ∀ events : List EventLeaf,
    (eventsToRows now events).map (List.map EventRow.content) =
      (eventsToRows now' events).map (List.map EventRow.content)
  | [] => rfl
  | event :: events => by
    have hrow := toRow_content now now' event
    have ih := eventsToRows_content now now' events
    unfold eventsToRows
    cases h : event.toRow now with
    | none =>
      rw [h] at hrow
      rw [Option.map_none, eq_comm, Option.map_eq_none_iff] at hrow
      rw [hrow]
    | some row =>
      rw [h] at hrow
      obtain ⟨row', h', hc⟩ := Option.map_eq_some_iff.mp hrow.symm
      rw [h']
      simp only [Option.map_map]
      have hfun : ∀ r : EventRow, List.map EventRow.content ∘ (fun x => r :: x) =
          (fun x => r.content :: x) ∘ List.map EventRow.content := fun r => rfl
      rw [hfun, hfun, ← Option.map_map, ← Option.map_map, ih, hc]

end EvidentLedger
