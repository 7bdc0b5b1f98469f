import EvidentLedger.Backup.Restore

/-!
# The restore of the desktop application

Model of `decide_restore_after_download` and `start_backup_restore_execute`
(`evident-gui-app/src/main.rs:2311-2417`). After a download the window restores at once, with force, or
keeps the snapshot until the user agrees (`pending_restore`). It looks at the one state that the scan
returns, and takes the file that it may have downloaded itself for an echo.

The read of that file (`:2337-2349`) has no effect and is left out.

* **`restore_waits_iff`**: where some other local data differs from the snapshot, the window waits exactly
  if the last of the local files is such data, and no proof without a head hides it.
-/

namespace EvidentLedger.Backup

open Lib.Text

structure PendingRestore where
  backupId : Uuid
  bytes : List UInt8
  deriving DecidableEq

/-- `UiText`, as far as it is shown here. -/
inductive UiText where
  | raw (text : String)
  | invalidBackupSnapshot
  deriving DecidableEq

/-- The part of the window that a restore changes. -/
structure Window where
  backupRestoreError : Option UiText
  pendingRestore : Option PendingRestore
  loadingBackupRestore : Option String
  /-- The restores that were started, with force. -/
  started : List PendingRestore
  deriving DecidableEq

section Decide

variable (serde : Serde) (evidentDir : Except String EvidentDir)

/-- `start_backup_restore_execute`. -/
def startBackupRestoreExecute (window : Window) (backupId : Uuid) (bytes : List UInt8) : Window :=
  match evidentDir with
  | .error e =>
    { window with
      loadingBackupRestore := none, pendingRestore := none, backupRestoreError := some (.raw e) }
  | .ok _ =>
    { loadingBackupRestore := some backupId.toString, pendingRestore := none,
      backupRestoreError := none, started := window.started ++ [⟨backupId, bytes⟩] }

/-- The file of the backup itself. -/
def selfEchoSource (backupId : Uuid) : String := "backups/" ++ backupId.toString ++ ".json"

/-- The local data agrees with the snapshot. -/
def LocalChainState.Matches (state : LocalChainState) (summary : ChainHeadSummary) : Prop :=
  state.eventCount = summary.eventCount ∧ state.headEventId = summary.headEventId

instance (state : LocalChainState) (summary : ChainHeadSummary) : Decidable (state.Matches summary) :=
  inferInstanceAs (Decidable (_ ∧ _))

/-- `decide_restore_after_download`. -/
def decideRestoreAfterDownload (window : Window) (backupId : Uuid) (bytes : List UInt8) : Window :=
  match parseSnapshot serde bytes with
  | .error e => { window with backupRestoreError := some (.raw e) }
  | .ok snapshot =>
    match snapshot.headSummary with
    | none => { window with backupRestoreError := some .invalidBackupSnapshot }
    | some summary =>
      match evidentDir with
      | .error e => { window with backupRestoreError := some (.raw e) }
      | .ok dir =>
        match scanLocalChainState serde snapshot.chainId dir with
        | none => startBackupRestoreExecute evidentDir window backupId bytes
        | some state =>
          if state.source = selfEchoSource backupId then
            startBackupRestoreExecute evidentDir window backupId bytes
          else if state.Matches summary then
            startBackupRestoreExecute evidentDir window backupId bytes
          else { window with pendingRestore := some ⟨backupId, bytes⟩ }

end Decide

/-- Local data of another file that differs from the snapshot. -/
def Diverges (backupId : Uuid) (summary : ChainHeadSummary) (state : LocalChainState) : Prop :=
  state.source ≠ selfEchoSource backupId ∧ ¬ state.Matches summary

instance (backupId : Uuid) (summary : ChainHeadSummary) (state : LocalChainState) :
    Decidable (Diverges backupId summary state) :=
  inferInstanceAs (Decidable (_ ∧ _))

/-- The window keeps the snapshot and starts nothing. -/
def Waits (window window' : Window) (backupId : Uuid) (bytes : List UInt8) : Prop :=
  window'.pendingRestore = some ⟨backupId, bytes⟩ ∧ window'.started = window.started

variable {serde : Serde} {window : Window} {backupId : Uuid} {bytes : List UInt8} {dir : EvidentDir}
  {snapshot : BackupSnapshot} {summary : ChainHeadSummary}

theorem not_waits_of_started :
    ¬ Waits window (startBackupRestoreExecute (.ok dir) window backupId bytes) backupId bytes := by
  rintro ⟨hpending, -⟩
  exact absurd hpending (by simp [startBackupRestoreExecute])

/-- **What the window does**, by the state that the scan returns. -/
theorem waits_iff_scan (hparse : parseSnapshot serde bytes = .ok snapshot)
    (hhead : snapshot.headSummary = some summary) :
    Waits window (decideRestoreAfterDownload serde (.ok dir) window backupId bytes) backupId bytes ↔
      ∃ state, scanLocalChainState serde snapshot.chainId dir = some state ∧
        Diverges backupId summary state := by
  unfold decideRestoreAfterDownload
  simp only [hparse, hhead]
  cases hscan : scanLocalChainState serde snapshot.chainId dir with
  | none =>
    refine ⟨fun h => absurd h not_waits_of_started, ?_⟩
    rintro ⟨state, h, -⟩
    exact absurd h (by simp)
  | some state =>
    simp only [Option.some.injEq, exists_eq_left']
    by_cases hself : state.source = selfEchoSource backupId
    · rw [if_pos hself]
      exact ⟨fun h => absurd h not_waits_of_started, fun h => absurd hself h.1⟩
    · rw [if_neg hself]
      by_cases hsame : state.Matches summary
      · rw [if_pos hsame]
        exact ⟨fun h => absurd h not_waits_of_started, fun h => absurd hsame h.2⟩
      · rw [if_neg hsame]
        exact ⟨fun _ => ⟨hself, hsame⟩, fun _ => ⟨rfl, rfl⟩⟩

/-- **The window asks before it diverges, exactly if the last of the local files diverges**, the backups
before the proofs, and no proof without a head hides it. -/
theorem restore_waits_iff (serde : Serde) (dir : EvidentDir) (window : Window) (backupId : Uuid)
    (bytes : List UInt8) (snapshot : BackupSnapshot) (summary : ChainHeadSummary)
    (hparse : parseSnapshot serde bytes = .ok snapshot) (hhead : snapshot.headSummary = some summary)
    (hdiverges : ∃ state ∈ localStates serde snapshot.chainId dir, Diverges backupId summary state) :
    Waits window (decideRestoreAfterDownload serde (.ok dir) window backupId bytes) backupId bytes ↔
      Unmasked serde snapshot.chainId dir ∧
        ∀ state, (localStates serde snapshot.chainId dir).getLast? = some state →
          Diverges backupId summary state := by
  rw [waits_iff_scan hparse hhead]
  by_cases hmask : Unmasked serde snapshot.chainId dir
  · rw [scanLocalChainState_eq hmask]
    obtain ⟨state, hmem, -⟩ := hdiverges
    obtain ⟨last, hlast⟩ := Option.ne_none_iff_exists'.mp
      (mt List.getLast?_eq_none_iff.mp (List.ne_nil_of_mem hmem))
    rw [hlast]
    constructor
    · rintro ⟨state, heq, hd⟩
      exact ⟨hmask, fun state' heq' => Option.some.inj (heq.symm.trans heq') ▸ hd⟩
    · rintro ⟨-, h⟩
      exact ⟨last, rfl, h last rfl⟩
  · rw [scanLocalChainState_masked hmask]
    constructor
    · rintro ⟨state, h, -⟩
      exact absurd h (by simp)
    · exact fun h => absurd h.1 hmask

/-! ### Two proofs, in both orders -/

/-- A proof that agrees with the snapshot. -/
def sampleMatchingText : String :=
  "\x7b\"head_event_id\":\"00000000-0000-0000-0000-000000000003\",\"events\":[null]\x7d"

def sampleDownloadSerde : Serde :=
  { sampleSerde with
    fromStr := fun content =>
      if content = sampleMatchingText then
        some (.object [("head_event_id", .string "00000000-0000-0000-0000-000000000003"),
          ("events", .array [.null])])
      else sampleSerde.fromStr content }

theorem parse_sampleDownload :
    parseSnapshot sampleDownloadSerde (asBytes sampleSnapshotText) = .ok sampleSnapshot := by
  unfold parseSnapshot sampleDownloadSerde sampleSerde
  simp only [if_true]
  rfl

def sampleOld : DirEntry := ⟨"old.json", some (asBytes sampleProofText)⟩

def sampleMatching : DirEntry := ⟨"new.json", some (asBytes sampleMatchingText)⟩

def sampleProofs (entries : List DirEntry) : EvidentDir where
  path := "/home/user/.evident"
  backups := none
  proofs _ := some entries
  createDirAll := .ok ()
  write := .ok ()

def sampleWindow : Window := ⟨none, none, none, []⟩

/-- The data of the two files. -/
def sampleOldState : LocalChainState := ⟨0, Uuid.small 7, proofSource (Uuid.small 2) sampleOld⟩

def sampleMatchingState : LocalChainState :=
  ⟨1, Uuid.small 3, proofSource (Uuid.small 2) sampleMatching⟩

theorem sampleOld_events : ∃ json, proofEvents sampleDownloadSerde sampleOld = some (json, []) ∧
    proofHead json [] = some (Uuid.small 7) := by
  have hne : sampleProofText ≠ sampleMatchingText := by decide
  unfold proofEvents sampleOld sampleDownloadSerde sampleSerde
  rw [readToString_asBytes, if_neg (by decide)]
  simp only [hne, if_true, if_false]
  exact ⟨_, rfl, rfl⟩

theorem sampleMatching_events : ∃ json,
    proofEvents sampleDownloadSerde sampleMatching = some (json, [.null]) ∧
      proofHead json [.null] = some (Uuid.small 3) := by
  unfold proofEvents sampleMatching sampleDownloadSerde sampleSerde
  rw [readToString_asBytes, if_neg (by decide)]
  simp only [if_true]
  exact ⟨_, rfl, rfl⟩

theorem sampleOld_state :
    proofState sampleDownloadSerde (Uuid.small 2) sampleOld = some sampleOldState := by
  obtain ⟨json, hevents, hhead⟩ := sampleOld_events
  simp [proofState, hevents, hhead, sampleOldState]

theorem sampleMatching_state :
    proofState sampleDownloadSerde (Uuid.small 2) sampleMatching = some sampleMatchingState := by
  obtain ⟨json, hevents, hhead⟩ := sampleMatching_events
  simp [proofState, hevents, hhead, sampleMatchingState]

/-- Neither hides the other. -/
theorem unmasked_sampleProofs {entries : List DirEntry}
    (h : ∀ entry ∈ entries, entry = sampleOld ∨ entry = sampleMatching) :
    Unmasked sampleDownloadSerde (Uuid.small 2) (sampleProofs entries) := by
  intro entry hmem json events hevents
  rcases h entry hmem with rfl | rfl
  · obtain ⟨json', hevents', hhead⟩ := sampleOld_events
    obtain ⟨rfl, rfl⟩ := Prod.mk.inj (Option.some.inj (hevents.symm.trans hevents'))
    rw [hhead]
    rfl
  · obtain ⟨json', hevents', hhead⟩ := sampleMatching_events
    obtain ⟨rfl, rfl⟩ := Prod.mk.inj (Option.some.inj (hevents.symm.trans hevents'))
    rw [hhead]
    rfl

theorem diverges_sampleOld : Diverges (Uuid.small 9) ⟨1, Uuid.small 3⟩ sampleOldState := by
  decide

/-- The proof that differs is listed last: the window waits. -/
theorem restore_waits_sampleProofs :
    Waits sampleWindow (decideRestoreAfterDownload sampleDownloadSerde
      (.ok (sampleProofs [sampleMatching, sampleOld])) sampleWindow (Uuid.small 9)
      (asBytes sampleSnapshotText)) (Uuid.small 9) (asBytes sampleSnapshotText) := by
  have hstates : localStates sampleDownloadSerde (Uuid.small 2)
      (sampleProofs [sampleMatching, sampleOld]) = [sampleMatchingState, sampleOldState] := by
    simp [localStates, sampleProofs, sampleOld_state, sampleMatching_state]
  refine (restore_waits_iff sampleDownloadSerde (sampleProofs [sampleMatching, sampleOld])
    sampleWindow (Uuid.small 9) (asBytes sampleSnapshotText) sampleSnapshot ⟨1, Uuid.small 3⟩
    parse_sampleDownload rfl ?_).mpr ⟨unmasked_sampleProofs (by simp), ?_⟩
  · rw [show sampleSnapshot.chainId = Uuid.small 2 from rfl, hstates]
    exact ⟨sampleOldState, by simp, diverges_sampleOld⟩
  · rw [show sampleSnapshot.chainId = Uuid.small 2 from rfl, hstates]
    intro state hstate
    obtain rfl := Option.some.inj hstate
    exact diverges_sampleOld

/-- It is listed first: the window restores at once. -/
theorem restore_hidden :
    (∃ state ∈ localStates sampleDownloadSerde (Uuid.small 2)
      (sampleProofs [sampleOld, sampleMatching]),
        Diverges (Uuid.small 9) ⟨1, Uuid.small 3⟩ state) ∧
    ¬ Waits sampleWindow (decideRestoreAfterDownload sampleDownloadSerde
      (.ok (sampleProofs [sampleOld, sampleMatching])) sampleWindow (Uuid.small 9)
      (asBytes sampleSnapshotText)) (Uuid.small 9) (asBytes sampleSnapshotText) := by
  have hstates : localStates sampleDownloadSerde (Uuid.small 2)
      (sampleProofs [sampleOld, sampleMatching]) = [sampleOldState, sampleMatchingState] := by
    simp [localStates, sampleProofs, sampleOld_state, sampleMatching_state]
  refine ⟨⟨sampleOldState, by rw [hstates]; simp, diverges_sampleOld⟩, ?_⟩
  rw [waits_iff_scan parse_sampleDownload rfl, show sampleSnapshot.chainId = Uuid.small 2 from rfl,
    scanLocalChainState_eq (unmasked_sampleProofs (by simp)), hstates]
  rintro ⟨state, hstate, -, hdiffers⟩
  obtain rfl := Option.some.inj hstate
  exact hdiffers (by decide)

end EvidentLedger.Backup
