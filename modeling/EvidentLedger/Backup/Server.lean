import EvidentLedger.Backup.Restore
import EvidentLedger.Ledger.ChainStore

/-!
# Backups on the server

Model of `fetch_chain_events`, `export_local_snapshot` and `create_backup`
(`src/service/backup.rs:134-280`). The two statements of `fetch_chain_events` run outside a
transaction: the owner is read from the tables of one moment and the events from those of a later
one, with any commits in between. A statement that fails ends the call before anything is produced and
is left out, but for the `INSERT` after the file is written.

## Results

* `restores_iff`: a snapshot of linked events is restored exactly if it has one.
* **`backup_restores_iff`**: what an account is given of a chain of its own can be restored exactly if
  the chain had an event when its events were read; the reported count is that of the events.
* `empty_chain_not_restored`: the backup of a chain without events is refused as corrupted.
-/

namespace EvidentLedger.Backup

open Lib.Interleave Lib.Transaction Lib.Text
open Ledger (Db EventRecord AccountCapabilities AppState Request LedgerConfig orderBySequence schema)

/-! ## The calls -/

inductive BackupError where
  | notFound
  | featureNotAvailable (plan : String)
  | io (error : String)
  | database (error : String)
  deriving DecidableEq

structure BackupResult where
  backupId : Uuid
  eventCount : Int32
  deriving DecidableEq

/-- A row of `backups`, as it is inserted. -/
structure BackupRow where
  backupId : Uuid
  chainId : Uuid
  accountId : Uuid
  storagePath : String
  eventCount : Int32
  deriving DecidableEq

/-- What `create_backup` does. -/
inductive ServerEffect where
  | createDirAll (path : String)
  | write (path : String) (bytes : List UInt8)
  | insertBackup (row : BackupRow)
  deriving DecidableEq

/-- The directory of the backups, and how the writes to it and to the table `backups` end. -/
structure ServerStorage where
  backupRootDir : String
  createDirAll : Except String Unit
  write : Except String Unit
  insert : Except String Unit

/-- The columns of an event that a snapshot has. -/
def EventSnapshot.ofRecord (e : EventRecord) : EventSnapshot :=
  ⟨e.eventId, e.chainId, e.parentEventId, e.fileHash, e.idempotencyKey, e.signature, e.createdAt,
    e.sequence⟩

/-- `i32::try_from`. -/
def tryI32 (n : Nat) : Option Int32 := if n < 2 ^ 31 then some (Int32.ofNat n) else none

/-- `ensure_server_backup_allowed`. -/
def ensureServerBackupAllowed (capabilities : AccountCapabilities) : Except BackupError Unit :=
  if capabilities.serverBackup then .ok () else .error (.featureNotAvailable capabilities.planName)

section Calls

variable (owned read : Db) (accountId chainId : Uuid)

/-- `fetch_chain_events`: the owner from the first tables, the events from the second. -/
def fetchChainEvents : Except BackupError (List EventSnapshot) :=
  if owned.owner? chainId = some accountId then
    .ok ((orderBySequence (read.eventsOf chainId)).map .ofRecord)
  else .error .notFound

/-- `export_local_snapshot`. -/
def exportLocalSnapshot (now : Int) : Except BackupError BackupSnapshot := do
  let events ← fetchChainEvents owned read accountId chainId
  pure ⟨chainId, events, now⟩

/-- `create_backup`: what it does, and what it returns. -/
def createBackup (serde : Serde) (storage : ServerStorage) (capabilities : AccountCapabilities)
    (backupId : Uuid) (now : Int) : List ServerEffect × Except BackupError BackupResult :=
  match fetchChainEvents owned read accountId chainId with
  | .error e => ([], .error e)
  | .ok events =>
    match ensureServerBackupAllowed capabilities with
    | .error e => ([], .error e)
    | .ok _ =>
      match tryI32 events.length with
      | none => ([], .error (.database "event count exceeds i32::MAX"))
      | some eventCount =>
        let parent := storage.backupRootDir ++ "/" ++ accountId.toString
        let storagePath := parent ++ "/" ++ backupId.toString ++ ".json"
        let bytes := serde.toVecPretty ⟨chainId, events, now⟩
        match storage.createDirAll with
        | .error e => ([.createDirAll parent], .error (.io e))
        | .ok _ =>
          match storage.write with
          | .error e => ([.createDirAll parent, .write storagePath bytes], .error (.io e))
          | .ok _ =>
            ([.createDirAll parent, .write storagePath bytes,
                .insertBackup ⟨backupId, chainId, accountId, storagePath, eventCount⟩],
              match storage.insert with
              | .error e => .error (.database e)
              | .ok _ => .ok ⟨backupId, eventCount⟩)

end Calls

/-! ## What is restored -/

theorem parseSnapshot_of_read {serde : Serde} {bytes : List UInt8} {snapshot : BackupSnapshot}
    (h : serde.fromSlice bytes = .ok snapshot) : parseSnapshot serde bytes = .ok snapshot := by
  unfold parseSnapshot
  rw [h]
  rfl

/-- What the server writes is read back. -/
structure Serde.RoundTrips (serde : Serde) (snapshot : BackupSnapshot) : Prop where
  compact : serde.fromSlice (serde.toVec snapshot) = .ok snapshot
  pretty : serde.fromSlice (serde.toVecPretty snapshot) = .ok snapshot

/-- **The bytes are restored**: they are accepted and written as they are, and parse back to the events
of the chain in their order. -/
structure Restores (sha : Sha256) (serde : Serde) (dir : EvidentDir) (backupId : Uuid)
    (bytes : List UInt8) (force : Bool) (confirm : String → Bool) (chainId : Uuid)
    (events : List EventRecord) : Prop where
  accepted : ∃ path, restoreSnapshotBytes sha serde dir backupId bytes force confirm =
    ([.createDirAll (backupsDir dir), .write path bytes],
      .ok ⟨chainId, backupId, events.length, path⟩)
  parsed : ∃ snapshot, parseSnapshot serde bytes = .ok snapshot ∧ snapshot.chainId = chainId ∧
    snapshot.events = events.map .ofRecord

variable {sha : Sha256} {serde : Serde} {dir : EvidentDir} {backupId : Uuid} {bytes : List UInt8}
  {force : Bool} {confirm : String → Bool} {chainId accountId : Uuid} {events : List EventRecord}
  {now : Int}

/-- A directory without data for the chain has no state, whatever hides. -/
theorem scanLocalChainState_none (h : localStates serde chainId dir = []) :
    scanLocalChainState serde chainId dir = none := by
  by_cases hu : Unmasked serde chainId dir
  · rw [scanLocalChainState_eq hu, h]
    rfl
  · exact scanLocalChainState_masked hu

theorem toEventRows_ofRecord :
    (⟨chainId, events.map .ofRecord, now⟩ : BackupSnapshot).toEventRows = Ledger.rows events := by
  unfold BackupSnapshot.toEventRows Ledger.rows
  rw [List.map_map]
  rfl

/-- **A snapshot of the linked events of a chain is restored** exactly if it has one. -/
theorem restores_iff (hparse : parseSnapshot serde bytes = .ok ⟨chainId, events.map .ofRecord, now⟩)
    (hchain : ∀ e ∈ events, e.chainId = chainId) (hlinked : Linked none (Ledger.rows events))
    (hdir : localStates serde chainId dir = []) (hcreate : dir.createDirAll = .ok ())
    (hwrite : dir.write = .ok ()) :
    Restores sha serde dir backupId bytes force confirm chainId events ↔ events ≠ [] := by
  obtain ⟨root, hvalid⟩ := (@validateStructuralIntegrity_ok sha
    ⟨chainId, events.map .ofRecord, now⟩).mpr ⟨by
      intro e he
      obtain ⟨r, hr, rfl⟩ := List.mem_map.mp he
      exact hchain r hr, by
      rw [toEventRows_ofRecord]
      exact hlinked⟩
  constructor
  · rintro ⟨⟨path, haccepted⟩, -⟩ rfl
    unfold restoreSnapshotBytes at haccepted
    simp only [hparse, hvalid] at haccepted
    exact absurd (congrArg Prod.fst haccepted) (by simp [BackupSnapshot.headSummary])
  · intro hne
    obtain ⟨last, hlast⟩ := Option.ne_none_iff_exists'.mp (mt List.getLast?_eq_none_iff.mp hne)
    have hhead : (⟨chainId, events.map .ofRecord, now⟩ : BackupSnapshot).headSummary =
        some ⟨events.length, last.eventId⟩ := by
      unfold BackupSnapshot.headSummary
      rw [List.getLast?_map, hlast, List.length_map]
      rfl
    refine ⟨⟨backupsDir dir ++ "/" ++ backupId.toString ++ ".json", ?_⟩, _, hparse, rfl, rfl⟩
    rw [restoreSnapshotBytes_eq hparse hvalid hhead, scanLocalChainState_none hdir]
    unfold writeSnapshot
    rw [hcreate, hwrite]

/-- What `create_backup` has written when it succeeds, and the count that it reports. -/
theorem createBackup_ok {owned read : Db} {storage : ServerStorage}
    {capabilities : AccountCapabilities} {effects : List ServerEffect} {result : BackupResult}
    {path : String}
    (h : createBackup owned read accountId chainId serde storage capabilities backupId now =
      (effects, .ok result))
    (hbytes : .write path bytes ∈ effects) :
    ∃ events, fetchChainEvents owned read accountId chainId = .ok events ∧
      bytes = serde.toVecPretty ⟨chainId, events, now⟩ ∧
        result.eventCount.toInt = events.length := by
  unfold createBackup at h
  split at h
  · exact absurd (congrArg Prod.snd h) (by simp)
  · rename_i events hevents
    refine ⟨events, hevents, ?_⟩
    split at h
    · exact absurd (congrArg Prod.snd h) (by simp)
    · split at h
      · exact absurd (congrArg Prod.snd h) (by simp)
      · rename_i eventCount hcount
        dsimp only at h
        have hcount : eventCount.toInt = events.length := by
          unfold tryI32 at hcount
          split_ifs at hcount with hlt
          rw [← Option.some.inj hcount]
          exact Int32.toInt_ofNat_of_lt hlt
        split at h
        · exact absurd (congrArg Prod.snd h) (by simp)
        · split at h
          · exact absurd (congrArg Prod.snd h) (by simp)
          · obtain ⟨rfl, hresult⟩ := Prod.mk.inj h
            split at hresult
            · exact absurd hresult (by simp)
            · rw [← Except.ok.inj hresult]
              simp only [List.mem_cons, ServerEffect.write.injEq, reduceCtorEq, List.not_mem_nil,
                false_or, or_false] at hbytes
              exact ⟨hbytes.2, hcount⟩

/-! ## Runs of the ledger -/

/-- The events of a chain in every reachable state are those of the chain, linked and in order. -/
theorem fetchChainEvents_linked {state : AppState} {owned read : Db}
    (hi : Ledger.LedgerInv state read) (howner : owned.owner? chainId = some accountId) :
    fetchChainEvents owned read accountId chainId =
        .ok ((read.eventsOf chainId).map .ofRecord) ∧
      (∀ e ∈ read.eventsOf chainId, e.chainId = chainId) ∧
        Linked none (Ledger.rows (read.eventsOf chainId)) := by
  have hl := (hi.chains chainId).linked
  refine ⟨?_, fun e he => ?_, hl⟩
  · unfold fetchChainEvents
    rw [if_pos howner, Ledger.orderBySequence_linked hl]
  · simpa using (List.mem_filter.mp he).2

/-- **Backups can be restored** exactly where the chain had an event, whatever was committed between
the two statements: `y` is the moment of the first and `z` that of the second. -/
theorem backup_restores_iff (state : AppState) (requests : Nat → Request)
    (capabilities : Uuid → Option AccountCapabilities) (identityKeys : List Ledger.IdentityKeyRow)
    (y z : LedgerConfig) (hy : Reach (system schema) (fun _ _ _ => True)
      (Ledger.start state requests (Db.empty capabilities identityKeys)) y)
    (hz : Reach (system schema) (fun _ _ _ => True) y z) (accountId chainId : Uuid)
    (howner : y.shared.db.owner? chainId = some accountId) (serde : Serde) (now : Int)
    (hserde : serde.RoundTrips ⟨chainId, (z.shared.db.eventsOf chainId).map .ofRecord, now⟩)
    (sha : Sha256) (dir : EvidentDir) (hdir : localStates serde chainId dir = [])
    (hcreate : dir.createDirAll = .ok ()) (hwrite : dir.write = .ok ()) (backupId : Uuid)
    (force : Bool) (confirm : String → Bool) :
    (∃ snapshot, exportLocalSnapshot y.shared.db z.shared.db accountId chainId now = .ok snapshot ∧
      (Restores sha serde dir backupId (serde.toVec snapshot) force confirm chainId
        (z.shared.db.eventsOf chainId) ↔ z.shared.db.eventsOf chainId ≠ [])) ∧
    ∀ storage plan serverId effects result path bytes,
      createBackup y.shared.db z.shared.db accountId chainId serde storage plan serverId now =
        (effects, .ok result) → .write path bytes ∈ effects →
      (Restores sha serde dir backupId bytes force confirm chainId (z.shared.db.eventsOf chainId) ∧
        result.eventCount.toInt = (z.shared.db.eventsOf chainId).length ↔
          z.shared.db.eventsOf chainId ≠ []) := by
  have hx : (Ledger.Setting.all state requests (Db.empty capabilities identityKeys)).Reach
    (Ledger.start state requests (Db.empty capabilities identityKeys)) z := hy.trans hz
  obtain ⟨hr, -⟩ := Ledger.ledger_reach hx
  obtain ⟨hfetch, hchain, hlinked⟩ :=
    fetchChainEvents_linked (hr.ledgerInv (Ledger.ledgerInv_empty _ _)) howner
  constructor
  · refine ⟨⟨chainId, (z.shared.db.eventsOf chainId).map .ofRecord, now⟩, ?_, ?_⟩
    · unfold exportLocalSnapshot
      rw [hfetch]
      rfl
    · exact restores_iff (parseSnapshot_of_read hserde.compact) hchain hlinked hdir hcreate hwrite
  · intro storage plan serverId effects result path bytes hcreated hbytes
    obtain ⟨events, hevents, rfl, hcount⟩ := createBackup_ok hcreated hbytes
    obtain rfl := Except.ok.inj (hfetch.symm.trans hevents)
    rw [List.length_map] at hcount
    rw [and_iff_left hcount]
    exact restores_iff (parseSnapshot_of_read hserde.pretty) hchain hlinked hdir hcreate hwrite

/-- The text of a snapshot of the first second of the epoch, with these line breaks and colons. -/
def snapshotText (newline : Nat → String) (colon : String) (snapshot : BackupSnapshot) : String :=
  let field (name value : String) := "\"" ++ name ++ "\"" ++ colon ++ value
  let quoted (name value : String) := field name ("\"" ++ value ++ "\"")
  let object (depth : Nat) (fields : List String) :=
    "\x7b" ++ newline (depth + 1) ++ String.intercalate ("," ++ newline (depth + 1)) fields ++
      newline depth ++ "\x7d"
  let event (e : EventSnapshot) := object 2
    [quoted "event_id" e.eventId.toString, quoted "chain_id" e.chainId.toString,
      quoted "parent_event_id" e.parentEventId.toString, quoted "file_hash" e.fileHash,
      quoted "idempotency_key" e.idempotencyKey, quoted "signature" e.signature,
      quoted "created_at" "1970-01-01T00:00:00Z", field "sequence" (toString e.sequence.toInt)]
  let events :=
    if snapshot.events.isEmpty then "[]"
    else "[" ++ newline 2 ++ String.intercalate ("," ++ newline 2) (snapshot.events.map event) ++
      newline 1 ++ "]"
  object 0 [quoted "chain_id" snapshot.chainId.toString, field "events" events,
    quoted "exported_at" "1970-01-01T00:00:00Z"]

def compactText : BackupSnapshot → String := snapshotText (fun _ => "") ":"

def prettyText : BackupSnapshot → String :=
  snapshotText (fun depth => "\n" ++ String.ofList (List.replicate (2 * depth) ' ')) ": "

/-- JSON as far as this snapshot is concerned. -/
def serdeOf (snapshot : BackupSnapshot) : Serde where
  fromSlice bytes :=
    if bytes = asBytes (compactText snapshot) ∨ bytes = asBytes (prettyText snapshot) then
      .ok snapshot
    else .error "expected value"
  toVec s := asBytes (compactText s)
  toVecPretty s := asBytes (prettyText s)
  fromStr _ := none

theorem roundTrips_serdeOf (snapshot : BackupSnapshot) :
    (serdeOf snapshot).RoundTrips snapshot := by
  constructor <;> simp [serdeOf]

def sampleEmptyDir : EvidentDir := ⟨"/home/user/.evident", none, fun _ => none, .ok (), .ok ()⟩

/-- A chain with one event, exported. -/
theorem backup_restores_iff_sampleRun : ∃ y : LedgerConfig, ∃ serde snapshot,
    exportLocalSnapshot y.shared.db y.shared.db (Uuid.small 1) (Uuid.small 9) 0 = .ok snapshot ∧
      Restores sampleSha serde sampleEmptyDir (Uuid.small 5) (serde.toVec snapshot) false
        (fun _ => false) (Uuid.small 9) (y.shared.db.eventsOf (Uuid.small 9)) := by
  have hrun : (Ledger.sampleStart.run (system schema) (fun _ _ _ => True)
      (Ledger.sampleSteps 0 15 20 none)).map (fun y =>
        (y.shared.db.owner? (Uuid.small 9), (y.shared.db.eventsOf (Uuid.small 9)).isEmpty)) =
          some (some (Uuid.small 1), false) := by decide +kernel
  obtain ⟨y, hy, hfacts⟩ := Reach.exists_of_run hrun
  obtain ⟨howner, hevents⟩ := Prod.mk.inj hfacts
  have hne : y.shared.db.eventsOf (Uuid.small 9) ≠ [] := by
    intro hnil
    rw [hnil] at hevents
    exact absurd hevents (by simp)
  obtain ⟨⟨snapshot, hexport, hiff⟩, -⟩ := backup_restores_iff Ledger.sampleState
    Ledger.sampleRequests Ledger.sampleCapabilities [] y y hy .refl (Uuid.small 1) (Uuid.small 9)
    howner _ 0 (roundTrips_serdeOf _) sampleSha sampleEmptyDir rfl rfl rfl (Uuid.small 5) false
    fun _ => false
  exact ⟨y, _, snapshot, hexport, hiff.mpr hne⟩

/-- A local directory in which every write succeeds. -/
def sampleStorage : ServerStorage := ⟨"./data/backups", .ok (), .ok (), .ok ()⟩

/-- A plan with backups. -/
def samplePlan : AccountCapabilities := ⟨"vault", .machine, true, false, false, none, none⟩

/-- **The backup of a chain without events is refused**: the server makes it and the restore takes it
for corrupted. -/
theorem empty_chain_not_restored : ∃ (y : LedgerConfig) (effects : List ServerEffect)
    (result : BackupResult) (path : String) (bytes : List UInt8) (serde : Serde),
    Reach (system schema) (fun _ _ _ => True) (Ledger.start Ledger.sampleState
      (fun _ => .createChain (Uuid.small 1)) (Db.empty Ledger.sampleCapabilities [])) y ∧
    y.shared.db.owner? (Uuid.small 20) = some (Uuid.small 1) ∧
    serde.RoundTrips ⟨Uuid.small 20, [], 0⟩ ∧
    localStates serde (Uuid.small 20) sampleEmptyDir = [] ∧
    createBackup y.shared.db y.shared.db (Uuid.small 1) (Uuid.small 20) serde sampleStorage samplePlan
      (Uuid.small 5) 0 = (effects, .ok result) ∧ .write path bytes ∈ effects ∧
    (restoreSnapshotBytes sampleSha serde sampleEmptyDir (Uuid.small 5) bytes true
      fun _ => true) = ([], .error (.structural STRUCTURAL_INTEGRITY_ERROR)) := by
  have hrun : ((Ledger.start Ledger.sampleState (fun _ => .createChain (Uuid.small 1))
      (Db.empty Ledger.sampleCapabilities [])).run (system schema) (fun _ _ _ => True)
        (Ledger.sampleSteps 0 2 20 none)).map (fun y => (y.shared.db.owner? (Uuid.small 20),
          (y.shared.db.eventsOf (Uuid.small 20)).isEmpty)) = some (some (Uuid.small 1), true) := by
    decide +kernel
  obtain ⟨y, hy, hfacts⟩ := Reach.exists_of_run hrun
  obtain ⟨howner, hevents⟩ := Prod.mk.inj hfacts
  have hnil := List.isEmpty_iff.mp hevents
  have hfetch : fetchChainEvents y.shared.db y.shared.db (Uuid.small 1) (Uuid.small 20) = .ok [] := by
    unfold fetchChainEvents
    rw [if_pos howner, hnil]
    rfl
  have hserde := roundTrips_serdeOf ⟨Uuid.small 20, [], 0⟩
  obtain ⟨effects, result, hcreated, path, hwritten⟩ : ∃ effects result,
      createBackup y.shared.db y.shared.db (Uuid.small 1) (Uuid.small 20)
          (serdeOf ⟨Uuid.small 20, [], 0⟩) sampleStorage samplePlan (Uuid.small 5) 0 =
        (effects, .ok result) ∧
      ∃ path, .write path ((serdeOf ⟨Uuid.small 20, [], 0⟩).toVecPretty ⟨Uuid.small 20, [], 0⟩) ∈
        effects := by
    unfold createBackup
    rw [hfetch]
    exact ⟨_, _, rfl, _, List.mem_cons_of_mem _ List.mem_cons_self⟩
  refine ⟨y, effects, result, path, _, _, hy, howner, hserde, rfl, hcreated, hwritten, ?_⟩
  unfold restoreSnapshotBytes
  rw [parseSnapshot_of_read hserde.pretty]
  rfl

end EvidentLedger.Backup
