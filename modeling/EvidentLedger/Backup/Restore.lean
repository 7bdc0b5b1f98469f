import EvidentLedger.Backup.Snapshot
import EvidentLedger.Binding

/-!
# Restoring a backup

Model of `scan_local_chain_state` and `restore_snapshot_bytes` (`src/service/backup_restore.rs:55-182`).
The scan lists two directories and keeps the state of the last file that it understands. A `?` in the
second loop leaves the whole function where a proof has no head that can be found.

* `EvidentDir` is what is found under `.evident`, in any listing order; what a call does to it is the
  list of its `Effect`s.
* `localStates`: what the files hold, one by one.

## Results

* `scanLocalChainState_eq`: the scan gives the state of the last file, unless a proof without a head
  hides everything (`Unmasked`).
* **`restore_asks_iff`**: local data is overwritten only with consent exactly in the directories without
  such a proof; nothing is written on `Parse`, `Structural` and `Declined`.
-/

namespace EvidentLedger.Backup

open Lib.Text

/-! ## The local directory -/

structure LocalChainState where
  eventCount : Nat
  headEventId : Uuid
  source : String
  deriving DecidableEq

/-- A file of a directory: its name and, if it can be read, its bytes. -/
structure DirEntry where
  fileName : String
  contents : Option (List UInt8)

/-- `Path::extension`. -/
def extension (fileName : String) : Option String :=
  let tail := (fileName.toList.reverse.takeWhile (· ≠ '.')).reverse
  if tail.length < fileName.toList.length - 1 then some (String.ofList tail) else none

/-- The directory `.evident`: its listings, if they can be read, and how a write to it ends. -/
structure EvidentDir where
  path : String
  backups : Option (List DirEntry)
  /-- `proofs/<chain_id>`. -/
  proofs : Uuid → Option (List DirEntry)
  createDirAll : Except String Unit
  write : Except String Unit

/-- `fs::read_to_string`. -/
def DirEntry.readToString (entry : DirEntry) : Option String :=
  entry.contents.bind fromUtf8

theorem readToString_asBytes (fileName content : String) :
    (⟨fileName, some (asBytes content)⟩ : DirEntry).readToString = some content :=
  fromUtf8_asBytes content

/-! ## The scan -/

section Scan

variable (serde : Serde) (chainId : Uuid)

/-- A turn of the first loop: the state of the file, or `continue`. -/
def backupState (entry : DirEntry) : Option LocalChainState :=
  if extension entry.fileName ≠ some "json" then none
  else
    match entry.contents with
    | none => none
    | some bytes =>
      match parseSnapshot serde bytes with
      | .error _ => none
      | .ok snapshot =>
        if snapshot.chainId ≠ chainId then none
        else
          match snapshot.headSummary with
          | none => none
          | some summary =>
            some ⟨summary.eventCount, summary.headEventId, "backups/" ++ entry.fileName⟩

def scanBackups : Option LocalChainState → List DirEntry → Option LocalChainState
  | best, [] => best
  | best, entry :: entries =>
    match backupState serde chainId entry with
    | some state => scanBackups (some state) entries
    | none => scanBackups best entries

/-- The events of a proof file, with the whole of it. -/
def proofEvents (entry : DirEntry) : Option (Json × List Json) :=
  if extension entry.fileName ≠ some "json" then none
  else
    match entry.readToString with
    | none => none
    | some content =>
      match serde.fromStr content with
      | none => none
      | some json => (json.index "events").asArray.map fun events => (json, events)

/-- `head_event_id`, or the id of the last event. -/
def proofHead (json : Json) (events : List Json) : Option Uuid :=
  ((json.index "head_event_id").asStr.bind Uuid.parseStr).or
    (events.getLast?.bind fun e => (e.index "event_id").asStr.bind Uuid.parseStr)

def proofSource (entry : DirEntry) : String :=
  "proofs/" ++ chainId.toString ++ "/" ++ entry.fileName

/-- The second loop: a proof without a head ends the function. -/
def scanProofs : Option LocalChainState → List DirEntry → Option LocalChainState
  | best, [] => best
  | best, entry :: entries =>
    match proofEvents serde entry with
    | none => scanProofs best entries
    | some (json, events) =>
      match proofHead json events with
      | none => none
      | some head =>
        scanProofs (some ⟨events.length, head, proofSource chainId entry⟩) entries

/-- A directory that does not exist or cannot be listed has no entries. -/
def scanLocalChainState (dir : EvidentDir) : Option LocalChainState :=
  scanProofs serde chainId (scanBackups serde chainId none (dir.backups.getD []))
    ((dir.proofs chainId).getD [])

/-! ### What the files hold -/

/-- A proof file with a head. -/
def proofState (entry : DirEntry) : Option LocalChainState :=
  (proofEvents serde entry).bind fun (json, events) =>
    (proofHead json events).map fun head => ⟨events.length, head, proofSource chainId entry⟩

/-- The data of the chain in the local files, in listing order. -/
def localStates (dir : EvidentDir) : List LocalChainState :=
  (dir.backups.getD []).filterMap (backupState serde chainId) ++
    ((dir.proofs chainId).getD []).filterMap (proofState serde chainId)

/-- Every proof of the chain that has a list of events has a head. -/
def Unmasked (dir : EvidentDir) : Prop :=
  ∀ entry ∈ (dir.proofs chainId).getD [], ∀ json events,
    proofEvents serde entry = some (json, events) → (proofHead json events).isSome

end Scan

variable {serde : Serde} {chainId : Uuid} {dir : EvidentDir} {best : Option LocalChainState}
  {entries : List DirEntry}

/-- The last of some states, after an earlier one. -/
theorem getLast?_cons_or (state : LocalChainState) (states : List LocalChainState) :
    (state :: states).getLast?.or best = states.getLast?.or (some state) := by
  cases states with
  | nil => rfl
  | cons s states => simp [List.getLast?_eq_getLast_of_ne_nil]

theorem scanBackups_eq :
    scanBackups serde chainId best entries =
      (entries.filterMap (backupState serde chainId)).getLast?.or best := by
  induction entries generalizing best with
  | nil => rfl
  | cons entry entries ih =>
    unfold scanBackups
    cases hstate : backupState serde chainId entry with
    | none =>
      simp only [List.filterMap_cons_none hstate]
      exact ih
    | some state =>
      simp only [List.filterMap_cons_some hstate, getLast?_cons_or]
      exact ih

theorem scanProofs_of_heads (h : ∀ entry ∈ entries, ∀ json events,
      proofEvents serde entry = some (json, events) → (proofHead json events).isSome) :
    scanProofs serde chainId best entries =
      (entries.filterMap (proofState serde chainId)).getLast?.or best := by
  induction entries generalizing best with
  | nil => rfl
  | cons entry entries ih =>
    have hrest := @ih best fun e he => h e (List.mem_cons_of_mem _ he)
    unfold scanProofs
    cases hevents : proofEvents serde entry with
    | none =>
      have hstate : proofState serde chainId entry = none := by simp [proofState, hevents]
      simp only [List.filterMap_cons_none hstate]
      exact hrest
    | some pair =>
      obtain ⟨json, events⟩ := pair
      obtain ⟨head, hhead⟩ := Option.isSome_iff_exists.mp (h entry List.mem_cons_self json events
        hevents)
      have hstate : proofState serde chainId entry =
          some ⟨events.length, head, proofSource chainId entry⟩ := by
        simp [proofState, hevents, hhead]
      simp only [hhead, List.filterMap_cons_some hstate, getLast?_cons_or]
      exact ih fun e he => h e (List.mem_cons_of_mem _ he)

/-- **One proof without a head hides everything.** -/
theorem scanProofs_of_headless (h : ∃ entry ∈ entries, ∃ json events,
      proofEvents serde entry = some (json, events) ∧ proofHead json events = none) :
    scanProofs serde chainId best entries = none := by
  induction entries generalizing best with
  | nil =>
    obtain ⟨entry, hmem, -⟩ := h
    exact absurd hmem List.not_mem_nil
  | cons entry entries ih =>
    unfold scanProofs
    obtain ⟨e, hmem, json, events, hevents, hhead⟩ := h
    rcases List.mem_cons.mp hmem with rfl | hmem
    · simp only [hevents, hhead]
    · have hrest := fun best => @ih best ⟨e, hmem, json, events, hevents, hhead⟩
      split
      · exact hrest best
      · split
        · rfl
        · exact hrest _

/-- **The scan**: the last file, or nothing. -/
theorem scanLocalChainState_eq (h : Unmasked serde chainId dir) :
    scanLocalChainState serde chainId dir = (localStates serde chainId dir).getLast? := by
  unfold scanLocalChainState localStates
  rw [scanBackups_eq, scanProofs_of_heads h, List.getLast?_append, Option.or_none]

theorem scanLocalChainState_masked (h : ¬ Unmasked serde chainId dir) :
    scanLocalChainState serde chainId dir = none := by
  refine scanProofs_of_headless ?_
  by_contra hnone
  refine h fun entry hmem json events hevents => ?_
  cases hhead : proofHead json events with
  | some head => rfl
  | none => exact absurd ⟨entry, hmem, json, events, hevents, hhead⟩ hnone

/-! ## The restore -/

structure RestoreSummary where
  chainId : Uuid
  backupId : Uuid
  eventCount : Nat
  outputPath : String
  deriving DecidableEq

/-- `RestoreError`, without `Conflict`, which nothing returns. -/
inductive RestoreError where
  | parse (message : String)
  | structural (message : String)
  | declined
  | io (error : String)
  deriving DecidableEq

/-- What a restore does: it asks, creates the directory, and writes. -/
inductive Effect where
  | confirm (prompt : String) (answer : Bool)
  | createDirAll (path : String)
  | write (path : String) (bytes : List UInt8)
  deriving DecidableEq

def backupsDir (dir : EvidentDir) : String := dir.path ++ "/backups"

def formatConflictMessage (chainId : Uuid) (state : LocalChainState) (backup : ChainHeadSummary) :
    String :=
  "Local data already exists for chain " ++ chainId.toString ++ " (via " ++ state.source ++ "):\n" ++
    "  local:  " ++ toString state.eventCount ++ " events, head " ++ state.headEventId.toString ++
    "\n" ++ "  backup: " ++ toString backup.eventCount ++ " events, head " ++
    backup.headEventId.toString ++ "\n" ++
    "Re-run with --force to overwrite the restored backup file."

section Restoring

variable (sha : Sha256) (serde : Serde) (dir : EvidentDir) (backupId : Uuid) (bytes : List UInt8)

/-- The end of the function: the directory and the file. -/
def writeSnapshot (snapshot : BackupSnapshot) (summary : ChainHeadSummary) :
    List Effect × Except RestoreError RestoreSummary :=
  let outDir := backupsDir dir
  let outputPath := outDir ++ "/" ++ backupId.toString ++ ".json"
  match dir.createDirAll with
  | .error e => ([.createDirAll outDir], .error (.io e))
  | .ok _ =>
    ([.createDirAll outDir, .write outputPath bytes],
      match dir.write with
      | .error e => .error (.io e)
      | .ok _ => .ok ⟨snapshot.chainId, backupId, summary.eventCount, outputPath⟩)

/-- What is asked about local data, and the rest of the function. -/
def confirmed (confirm : String → Bool) (prompt : String)
    (rest : List Effect × Except RestoreError RestoreSummary) :
    List Effect × Except RestoreError RestoreSummary :=
  if confirm prompt then (.confirm prompt true :: rest.1, rest.2)
  else ([.confirm prompt false], .error .declined)

/-- `restore_snapshot_bytes`: what it does, and what it returns. -/
def restoreSnapshotBytes (force : Bool) (confirm : String → Bool) :
    List Effect × Except RestoreError RestoreSummary :=
  match parseSnapshot serde bytes with
  | .error e => ([], .error (.parse e))
  | .ok snapshot =>
    match validateStructuralIntegrity sha snapshot with
    | .error e => ([], .error (.structural e))
    | .ok _ =>
      match snapshot.headSummary with
      | none => ([], .error (.structural STRUCTURAL_INTEGRITY_ERROR))
      | some summary =>
        match scanLocalChainState serde snapshot.chainId dir with
        | none => writeSnapshot dir backupId bytes snapshot summary
        | some state =>
          if force then writeSnapshot dir backupId bytes snapshot summary
          else
            confirmed confirm (formatConflictMessage snapshot.chainId state summary)
              (writeSnapshot dir backupId bytes snapshot summary)

/-- A file is written, or begun. -/
def Writes (effects : List Effect) : Prop := ∃ path bytes, Effect.write path bytes ∈ effects

/-- **Local data of the chain is overwritten with consent only**, and nothing is written where the
restore is refused. -/
structure RestoreAsks (force : Bool) (confirm : String → Bool) : Prop where
  consent : ∀ snapshot, parseSnapshot serde bytes = .ok snapshot →
    localStates serde snapshot.chainId dir ≠ [] → force = false →
      Writes (restoreSnapshotBytes sha serde dir backupId bytes force confirm).1 →
        ∃ prompt, Effect.confirm prompt true ∈
          (restoreSnapshotBytes sha serde dir backupId bytes force confirm).1
  refused : ∀ e, (restoreSnapshotBytes sha serde dir backupId bytes force confirm).2 = .error e →
    (∃ m, e = .parse m) ∨ (∃ m, e = .structural m) ∨ e = .declined →
      ¬ Writes (restoreSnapshotBytes sha serde dir backupId bytes force confirm).1

/-- A snapshot that passes the checks of the restore. -/
def Restorable (snapshot : BackupSnapshot) : Prop :=
  (∃ root, validateStructuralIntegrity sha snapshot = .ok root) ∧ snapshot.events ≠ []

end Restoring

section Asking

variable {sha : Sha256} {backupId : Uuid} {bytes : List UInt8} {snapshot : BackupSnapshot}
  {summary : ChainHeadSummary} {force : Bool} {confirm : String → Bool}

theorem headSummary_eq_none : snapshot.headSummary = none ↔ snapshot.events = [] := by
  unfold BackupSnapshot.headSummary
  rw [Option.map_eq_none_iff, List.getLast?_eq_none_iff]

theorem writes_writeSnapshot :
    Writes (writeSnapshot dir backupId bytes snapshot summary).1 ↔
      ∃ u, dir.createDirAll = .ok u := by
  unfold writeSnapshot Writes
  cases dir.createDirAll with
  | error e => simp
  | ok u => simp

theorem writeSnapshot_asks {prompt : String} {answer : Bool} :
    Effect.confirm prompt answer ∉ (writeSnapshot dir backupId bytes snapshot summary).1 := by
  unfold writeSnapshot
  cases dir.createDirAll with
  | error e => simp
  | ok u => simp

theorem writeSnapshot_error {e : RestoreError}
    (h : (writeSnapshot dir backupId bytes snapshot summary).2 = .error e) : ∃ m, e = .io m := by
  unfold writeSnapshot at h
  cases hcreate : dir.createDirAll with
  | error m =>
    rw [hcreate] at h
    exact ⟨m, (Except.error.inj h).symm⟩
  | ok u =>
    rw [hcreate] at h
    cases hwrite : dir.write with
    | error m =>
      rw [hwrite] at h
      exact ⟨m, (Except.error.inj h).symm⟩
    | ok u =>
      rw [hwrite] at h
      exact absurd h (by simp)

/-- **What a restore does**, once the snapshot has passed. -/
theorem restoreSnapshotBytes_eq {root : String} (hparse : parseSnapshot serde bytes = .ok snapshot)
    (hvalid : validateStructuralIntegrity sha snapshot = .ok root)
    (hhead : snapshot.headSummary = some summary) :
    restoreSnapshotBytes sha serde dir backupId bytes force confirm =
      match scanLocalChainState serde snapshot.chainId dir with
      | none => writeSnapshot dir backupId bytes snapshot summary
      | some state =>
        if force then writeSnapshot dir backupId bytes snapshot summary
        else
          confirmed confirm (formatConflictMessage snapshot.chainId state summary)
            (writeSnapshot dir backupId bytes snapshot summary) := by
  unfold restoreSnapshotBytes
  simp only [hparse, hvalid, hhead]

/-- Without a snapshot that passes, nothing happens. -/
theorem restoreSnapshotBytes_refused
    (h : ∀ snapshot, parseSnapshot serde bytes = .ok snapshot → ¬ Restorable sha snapshot) :
    (restoreSnapshotBytes sha serde dir backupId bytes force confirm).1 = [] := by
  unfold restoreSnapshotBytes
  cases hparse : parseSnapshot serde bytes with
  | error e => rfl
  | ok snapshot =>
    simp only
    cases hvalid : validateStructuralIntegrity sha snapshot with
    | error e => rfl
    | ok root =>
      have hempty : snapshot.headSummary = none := by
        rw [headSummary_eq_none]
        by_contra hne
        exact h snapshot hparse ⟨⟨root, hvalid⟩, hne⟩
      simp only [hempty]

theorem confirmed_asks {prompt : String} {rest : List Effect × Except RestoreError RestoreSummary}
    (hw : Writes (confirmed confirm prompt rest).1) :
    Effect.confirm prompt true ∈ (confirmed confirm prompt rest).1 := by
  unfold confirmed at hw ⊢
  split_ifs at hw ⊢ with hconfirm
  · exact List.mem_cons_self
  · obtain ⟨path, written, hmem⟩ := hw
    exact absurd hmem (by simp)

/-- Nothing is written where the restore is refused. -/
theorem restore_refused {e : RestoreError}
    (he : (restoreSnapshotBytes sha serde dir backupId bytes force confirm).2 = .error e)
    (hkind : (∃ m, e = .parse m) ∨ (∃ m, e = .structural m) ∨ e = .declined) :
    ¬ Writes (restoreSnapshotBytes sha serde dir backupId bytes force confirm).1 := by
  have hnotIo : ∀ m, e ≠ .io m := by
    rintro m rfl
    rcases hkind with ⟨m', h⟩ | ⟨m', h⟩ | h <;> exact RestoreError.noConfusion h
  by_cases hpass : ∀ snapshot, parseSnapshot serde bytes = .ok snapshot → ¬ Restorable sha snapshot
  · rw [restoreSnapshotBytes_refused hpass]
    rintro ⟨path, written, hmem⟩
    exact absurd hmem List.not_mem_nil
  · push Not at hpass
    obtain ⟨snapshot, hparse, ⟨root, hvalid⟩, hne⟩ := hpass
    obtain ⟨summary, hhead⟩ := Option.ne_none_iff_exists'.mp (mt headSummary_eq_none.mp hne)
    rw [restoreSnapshotBytes_eq hparse hvalid hhead] at he ⊢
    cases hscan : scanLocalChainState serde snapshot.chainId dir with
    | none =>
      simp only [hscan] at he
      obtain ⟨m, hm⟩ := writeSnapshot_error he
      exact absurd hm (hnotIo m)
    | some state =>
      simp only [hscan] at he ⊢
      split_ifs at he ⊢
      · obtain ⟨m, hm⟩ := writeSnapshot_error he
        exact absurd hm (hnotIo m)
      · unfold confirmed at he ⊢
        split_ifs at he ⊢
        · obtain ⟨m, hm⟩ := writeSnapshot_error he
          exact absurd hm (hnotIo m)
        · rintro ⟨path, written, hmem⟩
          exact absurd hmem (by simp)

variable (backupId force confirm) in
/-- A hidden state is overwritten without a question. -/
theorem restore_masked (hparse : parseSnapshot serde bytes = .ok snapshot)
    (hpass : Restorable sha snapshot) (hmask : ¬ Unmasked serde snapshot.chainId dir)
    (hcreate : ∃ u, dir.createDirAll = .ok u) :
    Writes (restoreSnapshotBytes sha serde dir backupId bytes force confirm).1 ∧
      ∀ prompt answer, Effect.confirm prompt answer ∉
        (restoreSnapshotBytes sha serde dir backupId bytes force confirm).1 := by
  obtain ⟨⟨root, hvalid⟩, hne⟩ := hpass
  obtain ⟨summary, hhead⟩ := Option.ne_none_iff_exists'.mp (mt headSummary_eq_none.mp hne)
  rw [restoreSnapshotBytes_eq hparse hvalid hhead, scanLocalChainState_masked hmask]
  exact ⟨writes_writeSnapshot.mpr hcreate, fun _ _ => writeSnapshot_asks⟩

end Asking

/-- **A restore asks before it overwrites local data, exactly where no proof without a head hides it.**
Nothing is at stake where the snapshot does not pass or the directory cannot be created. -/
theorem restore_asks_iff (sha : Sha256) (serde : Serde) (dir : EvidentDir) (backupId : Uuid)
    (bytes : List UInt8) (force : Bool) (confirm : String → Bool) :
    RestoreAsks sha serde dir backupId bytes force confirm ↔
      ∀ snapshot, parseSnapshot serde bytes = .ok snapshot → Restorable sha snapshot →
        localStates serde snapshot.chainId dir ≠ [] → force = false →
          (∃ u, dir.createDirAll = .ok u) → Unmasked serde snapshot.chainId dir := by
  constructor
  · intro hasks snapshot hparse hpass hlocal hforce hcreate
    by_contra hmask
    obtain ⟨hwrites, hsilent⟩ := restore_masked backupId force confirm hparse hpass hmask hcreate
    obtain ⟨prompt, hprompt⟩ := hasks.consent snapshot hparse hlocal hforce hwrites
    exact hsilent prompt true hprompt
  · intro h
    refine ⟨fun snapshot hparse hlocal hforce hwrites => ?_, fun e he => restore_refused he⟩
    by_cases hpass : Restorable sha snapshot
    · obtain ⟨⟨root, hvalid⟩, hne⟩ := hpass
      obtain ⟨summary, hhead⟩ := Option.ne_none_iff_exists'.mp (mt headSummary_eq_none.mp hne)
      rw [restoreSnapshotBytes_eq hparse hvalid hhead] at hwrites ⊢
      cases hscan : scanLocalChainState serde snapshot.chainId dir with
      | none =>
        simp only [hscan] at hwrites
        have hshown := h snapshot hparse ⟨⟨root, hvalid⟩, hne⟩ hlocal hforce
          (writes_writeSnapshot.mp hwrites)
        rw [scanLocalChainState_eq hshown, List.getLast?_eq_none_iff] at hscan
        exact absurd hscan hlocal
      | some state =>
        simp only [hscan, hforce, Bool.false_eq_true, if_false] at hwrites ⊢
        exact ⟨_, confirmed_asks hwrites⟩
    · have hnot : ∀ s, parseSnapshot serde bytes = .ok s → ¬ Restorable sha s := by
        intro s hs
        obtain rfl := Except.ok.inj (hparse.symm.trans hs)
        exact hpass
      rw [restoreSnapshotBytes_refused hnot] at hwrites
      obtain ⟨path, written, hmem⟩ := hwrites
      exact absurd hmem List.not_mem_nil

/-! ### A proof without events -/

/-- A snapshot of one event. -/
def sampleSnapshot : BackupSnapshot :=
  ⟨Uuid.small 2, [⟨Uuid.small 3, Uuid.small 2, Uuid.nil, "aa", "k", "", 0, 1⟩], 0⟩

def sampleSnapshotText : String :=
  "\x7b\"chain_id\":\"00000000-0000-0000-0000-000000000002\",\"events\":[\x7b" ++
    "\"event_id\":\"00000000-0000-0000-0000-000000000003\"," ++
    "\"chain_id\":\"00000000-0000-0000-0000-000000000002\"," ++
    "\"parent_event_id\":\"00000000-0000-0000-0000-000000000000\"," ++
    "\"file_hash\":\"aa\",\"idempotency_key\":\"k\",\"signature\":\"\"," ++
    "\"created_at\":\"1970-01-01T00:00:00Z\",\"sequence\":1\x7d]," ++
    "\"exported_at\":\"1970-01-01T00:00:00Z\"\x7d"

/-- A proof with a head, and one without events. -/
def sampleProofText : String :=
  "\x7b\"head_event_id\":\"00000000-0000-0000-0000-000000000007\",\"events\":[]\x7d"

def sampleEmptyProofText : String := "\x7b\"events\":[]\x7d"

/-- The values of these texts. -/
def sampleSerde : Serde where
  fromSlice bytes :=
    if bytes = asBytes sampleSnapshotText then .ok sampleSnapshot else .error "expected value"
  toVec _ := asBytes sampleSnapshotText
  toVecPretty _ := asBytes sampleSnapshotText
  fromStr content :=
    if content = sampleProofText then
      some (.object [("head_event_id", .string "00000000-0000-0000-0000-000000000007"),
        ("events", .array [])])
    else if content = sampleEmptyProofText then some (.object [("events", .array [])])
    else none

/-- A directory with these proofs of the chain. -/
def sampleDir : EvidentDir where
  path := "/home/user/.evident"
  backups := none
  proofs _ := some [⟨"old.json", some (asBytes sampleProofText)⟩,
    ⟨"new.json", some (asBytes sampleEmptyProofText)⟩]
  createDirAll := .ok ()
  write := .ok ()

theorem parse_sampleSnapshot :
    parseSnapshot sampleSerde (asBytes sampleSnapshotText) = .ok sampleSnapshot := by
  unfold parseSnapshot sampleSerde
  simp only [if_true]
  rfl

theorem restorable_sampleSnapshot (sha : Sha256) : Restorable sha sampleSnapshot :=
  ⟨validateStructuralIntegrity_ok.mpr ⟨by decide, rfl, rfl, trivial⟩, by decide⟩

theorem sampleEmptyProof_events :
    proofEvents sampleSerde ⟨"new.json", some (asBytes sampleEmptyProofText)⟩ =
      some (.object [("events", .array [])], []) := by
  have hne : sampleEmptyProofText ≠ sampleProofText := by decide
  unfold proofEvents sampleSerde
  rw [readToString_asBytes, if_neg (by decide)]
  simp only [hne, if_true, if_false]
  rfl

theorem sampleProof_state :
    proofState sampleSerde (Uuid.small 2) ⟨"old.json", some (asBytes sampleProofText)⟩ =
      some ⟨0, Uuid.small 7, proofSource (Uuid.small 2) ⟨"old.json", none⟩⟩ := by
  unfold proofState proofEvents sampleSerde
  rw [readToString_asBytes, if_neg (by decide)]
  simp only [if_true]
  rfl

/-- The second proof hides the first one: the backup is written without a question. -/
theorem restore_unasked : ¬ RestoreAsks sampleSha sampleSerde sampleDir (Uuid.small 9)
    (asBytes sampleSnapshotText) false fun _ => false := by
  intro hasks
  have hmask : ¬ Unmasked sampleSerde (Uuid.small 2) sampleDir := fun h =>
    absurd (h _ (by simp [sampleDir]) _ _ sampleEmptyProof_events) (by decide)
  obtain ⟨hwrites, hsilent⟩ := restore_masked (Uuid.small 9) false (fun _ => false)
    parse_sampleSnapshot (restorable_sampleSnapshot sampleSha) hmask ⟨(), rfl⟩
  have hlocal : localStates sampleSerde (Uuid.small 2) sampleDir ≠ [] := by
    refine List.ne_nil_of_mem (List.mem_append_right _ (List.mem_filterMap.mpr
      ⟨_, List.mem_cons_self, sampleProof_state⟩))
  obtain ⟨prompt, hprompt⟩ := hasks.consent sampleSnapshot parse_sampleSnapshot hlocal rfl hwrites
  exact hsilent prompt true hprompt

end EvidentLedger.Backup
