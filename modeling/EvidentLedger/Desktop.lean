import EvidentLedger.EvidenceRecord
import Mathlib.Data.List.Sort

/-!
# The desktop verdict

Model of `verify_project` of the desktop application (`evident-gui-app/src/main.rs:1631-1906`) with
`load_local_proof` (`:731-755`), `build_local_events` (`:931-976`), `check_local_integrity`
(`:687-694`) and `set_verify_outcome` (`:559-587`).

The verdict is a sequence of assignments over the state of the window. The file with the most events
is loaded and shown, whatever chain it names; its parent links are compared as texts after sorting
by sequence; and the signature check of the file shown can only replace an outcome by `Invalid`. It
runs when a key is pinned, or fetched and then stored on a best effort; without a key the outcome
stays. `verifyProject` returns early, with the outcome of the last run still shown, when the
selected project does not load.

* `verifyProject_some`: what a run shows, and when it ends with `Valid`.
* `desktop_agrees_iff`: a run that ends with `Valid` shows a file of the selected chain that
  `evident-verify` accepts exactly under `VerdictSound`: the project loads or nothing valid was
  shown, and a locally intact best file comes with a stored key and either fails its signature check
  or passes the checks this window does not make.
* `desktop_disagrees`: a run without a key.

The texts on screen beside the outcome (status line, report, file names) are left out, with the
sixteen bytes of a fetched key they show.
-/

namespace EvidentLedger.Desktop

open Lib.Text

/-! ## The window -/

/-- `Lang`. -/
inductive Lang where
  | ru
  | en
  deriving Repr, DecidableEq

/-- `tr`. -/
def tr (lang : Lang) (ru en : String) : String :=
  match lang with
  | .ru => ru
  | .en => en

/-- `VerifyStatus`. -/
inductive VerifyStatus where
  | none
  | valid
  | invalid
  | partly
  deriving Repr, DecidableEq

/-- `VerifyDetailsState`. -/
inductive VerifyDetailsState where
  | empty
  | noProjectSelected
  | verifying
  | proofValid
  | readProjectFailed (error : String)
  | parseProjectFailed (error : String)
  | invalidChainId
  | warning (text : String)
  | untrustedSignerIdentity (pinnedKey proofKey : String)
  | verifyFailed (error : String)
  | serverErrors (errors : String)
  deriving Repr, DecidableEq

/-- `Project`. -/
structure Project where
  name : String
  chainId : String
  createdAt : String
  deriving DecidableEq

/-- `ErrorType`, as far as it is used here. -/
inductive ErrorType where
  | none
  | chainBreak
  deriving Repr, DecidableEq

/-- `VerificationEvent`. -/
structure VerificationEvent where
  sequence : Int64
  eventId : String
  valid : Bool
  error : Option String
  errorType : ErrorType
  localIntegrityOk : Option Bool
  deriving DecidableEq

/-- The state `verify_project` reads and writes, with the file of the pinned key. -/
structure App where
  lang : Lang
  selectedProject : String
  headEventId : Option String
  verificationEvents : List VerificationEvent
  verificationComplete : Bool
  verificationProject : String
  lastProof : Option ProofFile
  verifyStatus : VerifyStatus
  verifyDetails : VerifyDetailsState
  /-- The content of `~/.evident/server_identity.pub`, if it can be read. -/
  pinnedFile : Option String
  deriving DecidableEq

/-- A file of the proofs directory: its extension and, if it can be read, its content. -/
structure DirEntry where
  extension : Option String
  contents : Option String

/-- What `verify_project` finds around it. -/
structure World where
  /-- `HOME`, for the projects directory. -/
  home : Option String
  /-- `dirs::home_dir`, for the pinned key. -/
  homeDir : Option String
  readToString : String → Except String String
  parseProject : String → Except String Project
  /-- `read_dir` of a proofs directory, in listing order. -/
  readDir : String → Option (List DirEntry)
  parseProof : String → Option ProofFile
  /-- `load_local_copies`: the file recorded for an event id. -/
  localCopies : String → String → Option String
  /-- The bytes of a path that is a file; the inner failure is a failed read. -/
  readFile : String → Option (Option (List UInt8))
  /-- `fetch_identity`. -/
  fetchIdentity : Except String String
  /-- Whether `fs::write` of the fetched key succeeds. -/
  writeOk : Bool

/-- `set_verify_outcome`. -/
def setVerifyOutcome (app : App) (status : VerifyStatus) (details : VerifyDetailsState) : App :=
  let details :=
    match status with
    | .none =>
      match details with
      | .empty | .verifying | .noProjectSelected => details
      | _ => .empty
    | .valid => .proofValid
    | .invalid =>
      match details with
      | .proofValid | .verifying | .empty => .empty
      | other => other
    | .partly =>
      match details with
      | .proofValid | .verifying | .empty => .empty
      | other => other
  { app with verifyStatus := status, verifyDetails := details }

/-- `clear_verify_outcome`. -/
def clearVerifyOutcome (app : App) : App := setVerifyOutcome app .none .empty

/-! ## The local picture -/

variable (sha : Sha256) (ed : Ed25519) (world : World)

/-- The proof file of a directory entry. -/
def DirEntry.proof (entry : DirEntry) : Option ProofFile :=
  if entry.extension = some "json" then entry.contents.bind world.parseProof else none

/-- The loop of `load_local_proof`: a file replaces the best one if it has more events. -/
def bestProof (best : Option ProofFile) : List DirEntry → Option ProofFile
  | [] => best
  | entry :: entries =>
    match entry.proof world with
    | none => bestProof best entries
    | some proof =>
      match best with
      | none => bestProof (some proof) entries
      | some b =>
        if proof.events.length > b.events.length then bestProof (some proof) entries
        else bestProof (some b) entries

/-- `load_local_proof`. -/
def loadLocalProof (proofsDir : String) : Option ProofFile :=
  (world.readDir proofsDir).bind (bestProof world none)

/-- `check_local_integrity`. -/
def checkLocalIntegrity (localPath expectedHash : String) : Option Bool :=
  match world.readFile localPath with
  | some (some bytes) => some (sha256Hex sha bytes == expectedHash)
  | _ => none

/-- The loop of `build_local_events`. -/
def localEvents (proofsDir : String) (expectedParent : String) :
    List EventLeaf → List VerificationEvent
  | [] => []
  | leaf :: leaves =>
    let chainOk := leaf.parentEventId == expectedParent
    { sequence := leaf.sequence
      eventId := leaf.eventId
      valid := chainOk
      error := if chainOk then none else some "parent_event_id chain break (local)"
      errorType := if chainOk then .none else .chainBreak
      localIntegrityOk := (world.localCopies proofsDir leaf.eventId).bind fun path =>
        checkLocalIntegrity sha world path leaf.fileHash } ::
      localEvents proofsDir leaf.eventId leaves

/-- `build_local_events`. -/
def buildLocalEvents (proof : ProofFile) (proofsDir : String) : List VerificationEvent :=
  localEvents sha world proofsDir "00000000-0000-0000-0000-000000000000"
    (proof.events.insertionSort fun a b => a.sequence ≤ b.sequence)

def localChainOk (events : List VerificationEvent) : Bool := events.all (·.valid)

def localTampered (events : List VerificationEvent) : Bool :=
  events.any fun e => e.localIntegrityOk == some false

/-! ## The run -/

/-- The projects directory. -/
def projectPath (app : App) : Option String :=
  world.home.map fun home => home ++ "/Evident Projects/" ++ app.selectedProject

/-- The selected project and its proofs directory, when `verify_project` gets that far. -/
def loadProject (app : App) : Option (Project × String) :=
  if app.selectedProject = "" then none
  else
    match projectPath world app with
    | none => none
    | some path =>
      match world.readToString (path ++ "/project.json") with
      | .error _ => none
      | .ok json =>
        match world.parseProject json with
        | .error _ => none
        | .ok project =>
          match Uuid.parseStr project.chainId with
          | none => none
          | some _ => some (project, path ++ "/proofs")

/-- The local-first part: the outcome from disk. -/
def verifyLocal (app : App) (proofsDir : String) : App :=
  match loadLocalProof world proofsDir with
  | some localProof =>
    let events := buildLocalEvents sha world localProof proofsDir
    let app :=
      { app with
        headEventId := some localProof.headEventId
        verificationEvents := events
        lastProof := some localProof }
    if !localChainOk events then
      setVerifyOutcome app .invalid (.warning (tr app.lang "Локальная цепочка событий нарушена"
        "Local event chain is broken"))
    else if localTampered events then
      setVerifyOutcome app .partly (.warning (tr app.lang
        "Локальная копия файла изменена относительно зафиксированного хэша"
        "Local file copy differs from the committed hash"))
    else setVerifyOutcome app .valid .proofValid
  | none => clearVerifyOutcome app

/-- The key the signature is checked under, and the state after a fetched key is stored. -/
def trustedPublicKey (app : App) : Option String × App :=
  match world.homeDir with
  | none => (none, app)
  | some _ =>
    match app.pinnedFile with
    | some k => (some (trim k), app)
    | none =>
      match world.fetchIdentity with
      | .ok key => (some key, if world.writeOk then { app with pinnedFile := some key } else app)
      | .error _ => (none, app)

/-- The signature part, for the file shown. -/
def verifySignature (app : App) : App :=
  match app.lastProof with
  | none => app
  | some proof =>
    match trustedPublicKey world app with
    | (none, app) => app
    | (some key, app) =>
      match classifySignature ed proof.proof.publicKey key proof.chainId proof.proof.root
          proof.proof.chainHead proof.proof.signature with
      | .valid => app
      | .untrustedSignerIdentity pinnedKey proofKey =>
        setVerifyOutcome app .invalid (.untrustedSignerIdentity pinnedKey proofKey)
      | .signatureInvalid _ =>
        setVerifyOutcome app .invalid (.warning (tr app.lang
          "Ошибка проверки криптографической подписи"
          "Cryptographic signature verification failed"))

/-- The state at the start of a run. -/
def App.started (app : App) : App :=
  { app with
    verificationEvents := []
    verificationComplete := false
    verificationProject := app.selectedProject }

/-- The state once the local part is done. -/
def App.completed (app : App) : App := { app with verificationComplete := true }

/-- `verify_project`. -/
def verifyProject (app : App) : App :=
  match loadProject world app with
  | none => app.started
  | some (_, proofsDir) =>
    verifySignature ed world (verifyLocal sha world app.started proofsDir).completed

/-- The key `evident-verify` finds pinned. -/
def pinnedKey (app : App) : Option String :=
  match world.homeDir with
  | none => none
  | some _ => app.pinnedFile.map trim

/-! ## The condition -/

/-- The key at hand, pinned or fetched, and whether it is (then) stored. -/
def keyAtHand (app : App) : Option (String × Bool) :=
  match world.homeDir with
  | none => none
  | some _ =>
    match app.pinnedFile, world.fetchIdentity with
    | some k, _ => some (trim k, true)
    | none, .ok key => some (key, world.writeOk)
    | none, .error _ => none

/-- No parent link is broken after sorting and no stored copy differs. -/
def LocallyIntact (proof : ProofFile) (proofsDir : String) : Prop :=
  localChainOk (buildLocalEvents sha world proof proofsDir) = true ∧
    localTampered (buildLocalEvents sha world proof proofsDir) = false

/-- What the window leaves to `evident-verify`: the chain, the versions, the head, the count, the
structure and the root. -/
structure PassesRest (project : Project) (proof : ProofFile) : Prop where
  chain : proof.chainId = project.chainId
  version : proof.proof.version = some PROOF_VERSION
  leafVersion : proof.leafVersion = LEAF_VERSION
  head : proof.headEventId = proof.proof.chainHead
  count : proof.proof.leavesCount = proof.events.length
  structure_ok : ∃ rows, eventsToRows 0 proof.events = some rows ∧
    checkEventStructure sha rows = .ok proof.proof.root

/-- The signature check of the window, under a key. -/
def SignatureValid (proof : ProofFile) (key : String) : Prop :=
  classifySignature ed proof.proof.publicKey key proof.chainId proof.proof.root
    proof.proof.chainHead proof.proof.signature = .valid

/-- **When `Valid` means accepted.** The project loads, or `Valid` was not shown before. A locally
intact best file comes with a key, and fails its signature check under it or else passes the rest
with the key stored. -/
def VerdictSound (app : App) : Prop :=
  match loadProject world app with
  | none => app.verifyStatus ≠ .valid
  | some (project, proofsDir) =>
    ∀ proof, loadLocalProof world proofsDir = some proof → LocallyIntact sha world proof proofsDir →
      ∃ key stored, keyAtHand world app = some (key, stored) ∧
        (¬ SignatureValid ed proof key ∨ (stored = true ∧ PassesRest sha project proof))

variable {sha ed world} {app : App} {proof : ProofFile} {project : Project} {proofsDir : String}

theorem setVerifyOutcome_status (app : App) (status : VerifyStatus) (d : VerifyDetailsState) :
    (setVerifyOutcome app status d).verifyStatus = status := rfl

theorem classify_trim {proofKey key c r h sig : String} :
    classifySignature ed proofKey (trim key) c r h sig = .valid ↔
      classifySignature ed proofKey key c r h sig = .valid := by
  rw [classifySignature_valid, classifySignature_valid]
  unfold normalizePublicKeyHex
  rw [trim_trim]

/-- The key taken and the state after: the outcome and the file shown are kept, and `evident-verify`
finds the key pinned if it is stored. -/
theorem trustedPublicKey_spec {key : Option String} {app' : App}
    (h : trustedPublicKey world app = (key, app')) :
    key = (keyAtHand world app).map Prod.fst ∧ app'.verifyStatus = app.verifyStatus ∧
      app'.lastProof = app.lastProof ∧ pinnedKey world app' =
        (keyAtHand world app).bind fun ks => if ks.2 then some (trim ks.1) else none := by
  unfold trustedPublicKey at h
  unfold keyAtHand pinnedKey
  cases hh : world.homeDir with
  | none =>
    rw [hh] at h
    obtain ⟨rfl, rfl⟩ := Prod.mk.inj h
    exact ⟨rfl, rfl, rfl, rfl⟩
  | some home =>
    rw [hh] at h
    cases hp : app.pinnedFile with
    | some k =>
      rw [hp] at h
      obtain ⟨rfl, rfl⟩ := Prod.mk.inj h
      refine ⟨rfl, rfl, rfl, ?_⟩
      simp [hp, trim_trim]
    | none =>
      rw [hp] at h
      cases hf : world.fetchIdentity with
      | error e =>
        rw [hf] at h
        obtain ⟨rfl, rfl⟩ := Prod.mk.inj h
        refine ⟨rfl, rfl, rfl, ?_⟩
        simp [hp]
      | ok k =>
        rw [hf] at h
        obtain ⟨rfl, rfl⟩ := Prod.mk.inj h
        cases hw : world.writeOk with
        | true => exact ⟨rfl, rfl, rfl, rfl⟩
        | false =>
          refine ⟨rfl, rfl, rfl, ?_⟩
          simp [hp]

variable (ed world) in
/-- **The signature part**: it keeps the file shown, keeps `Valid` unless the key at hand refutes
it, and leaves that key pinned if it is stored. -/
theorem verifySignature_spec (hl : app.lastProof = some proof) :
    (verifySignature ed world app).lastProof = some proof ∧
      ((verifySignature ed world app).verifyStatus = .valid ↔ app.verifyStatus = .valid ∧
        ∀ ks, keyAtHand world app = some ks → SignatureValid ed proof ks.1) ∧
      pinnedKey world (verifySignature ed world app) =
        (keyAtHand world app).bind fun ks => if ks.2 then some (trim ks.1) else none := by
  have hpin : ∀ (a : App) (s : VerifyStatus) (d : VerifyDetailsState),
      pinnedKey world (setVerifyOutcome a s d) = pinnedKey world a := fun _ _ _ => rfl
  have hlast : ∀ (a : App) (s : VerifyStatus) (d : VerifyDetailsState),
      (setVerifyOutcome a s d).lastProof = a.lastProof := fun _ _ _ => rfl
  unfold verifySignature
  rw [hl]
  cases ht : trustedPublicKey world app with
  | mk key app' =>
    obtain ⟨hkey, hstatus, hlp, hpk⟩ := trustedPublicKey_spec ht
    rw [hl] at hlp
    cases hk : keyAtHand world app with
    | none =>
      rw [hk] at hkey hpk
      subst hkey
      exact ⟨hlp, by simp [hstatus], hpk⟩
    | some ks =>
      rw [hk] at hkey hpk
      subst hkey
      simp only [Option.map_some, Option.some.injEq, forall_eq', SignatureValid]
      cases hc : classifySignature ed proof.proof.publicKey ks.1 proof.chainId proof.proof.root
          proof.proof.chainHead proof.proof.signature with
      | valid => exact ⟨hlp, by simp [hstatus], hpk⟩
      | untrustedSignerIdentity a b =>
        exact ⟨(hlast _ _ _).trans hlp, by simp [setVerifyOutcome_status], (hpin _ _ _).trans hpk⟩
      | signatureInvalid a =>
        exact ⟨(hlast _ _ _).trans hlp, by simp [setVerifyOutcome_status], (hpin _ _ _).trans hpk⟩

/-- Without a file on disk the local part clears the outcome. -/
theorem verifyLocal_none (h : loadLocalProof world proofsDir = none) :
    (verifyLocal sha world app proofsDir).verifyStatus = .none := by
  unfold verifyLocal
  rw [h]
  rfl

variable (sha app) in
/-- With one it is shown, and `Valid` exactly if it is intact. -/
theorem verifyLocal_some (h : loadLocalProof world proofsDir = some proof) :
    (verifyLocal sha world app proofsDir).lastProof = some proof ∧
      (verifyLocal sha world app proofsDir).pinnedFile = app.pinnedFile ∧
      ((verifyLocal sha world app proofsDir).verifyStatus = .valid ↔
        LocallyIntact sha world proof proofsDir) := by
  unfold verifyLocal LocallyIntact
  rw [h]
  by_cases hc : localChainOk (buildLocalEvents sha world proof proofsDir) = true
  · by_cases ht : localTampered (buildLocalEvents sha world proof proofsDir) = true
    · simp [hc, ht, setVerifyOutcome]
    · simp [hc, ht, setVerifyOutcome]
  · simp [hc, setVerifyOutcome]

theorem verifySignature_not_valid (h : app.verifyStatus ≠ .valid) :
    (verifySignature ed world app).verifyStatus ≠ .valid := by
  cases hl : app.lastProof with
  | none =>
    unfold verifySignature
    rw [hl]
    exact h
  | some proof => exact fun hv => h ((verifySignature_spec ed world hl).2.1.mp hv).1

/-- The key at hand depends on the pinned file alone. -/
theorem keyAtHand_congr {a b : App} (h : a.pinnedFile = b.pinnedFile) :
    keyAtHand world a = keyAtHand world b := by
  unfold keyAtHand
  rw [h]

/-- Without a proof file on disk a run does not end with `Valid`. -/
theorem verifyProject_none (h : loadProject world app = some (project, proofsDir))
    (hp : loadLocalProof world proofsDir = none) :
    (verifyProject sha ed world app).verifyStatus ≠ .valid := by
  unfold verifyProject
  rw [h]
  refine verifySignature_not_valid ?_
  rw [App.completed, verifyLocal_none hp]
  simp

variable (sha ed) in
/-- **With one, it is the file shown**, the key at hand is pinned if it is stored, and the run ends
with `Valid` exactly if the file is intact and the key, if any, does not refute it. -/
theorem verifyProject_some (h : loadProject world app = some (project, proofsDir))
    (hp : loadLocalProof world proofsDir = some proof) :
    (verifyProject sha ed world app).lastProof = some proof ∧
      ((verifyProject sha ed world app).verifyStatus = .valid ↔
        LocallyIntact sha world proof proofsDir ∧
          ∀ ks, keyAtHand world app = some ks → SignatureValid ed proof ks.1) ∧
      pinnedKey world (verifyProject sha ed world app) =
        (keyAtHand world app).bind fun ks => if ks.2 then some (trim ks.1) else none := by
  obtain ⟨hl, hpf, hv⟩ := verifyLocal_some sha app.started hp
  have hkey : keyAtHand world (verifyLocal sha world app.started proofsDir).completed =
      keyAtHand world app := keyAtHand_congr hpf
  have hl' : (verifyLocal sha world app.started proofsDir).completed.lastProof = some proof := hl
  obtain ⟨hlast, hvalid, hpin⟩ := verifySignature_spec ed world hl'
  rw [hkey] at hvalid hpin
  unfold verifyProject
  rw [h]
  exact ⟨hlast, hvalid.trans (and_congr_left' hv), hpin⟩

/-- A file is accepted under the key that passed its signature check exactly if it passes the
rest. -/
theorem accepted_iff_passesRest {key : String} (hsig : SignatureValid ed proof key)
    (hchain : proof.chainId = project.chainId) :
    Verifier.Accepted sha ed (trim key) proof.forVerifier ↔ PassesRest sha project proof := by
  constructor
  · intro ha
    exact ⟨hchain, ha.version, Option.some.inj ha.leafVersion, ha.head, ha.count.symm,
      ha.structure_ok⟩
  · intro hr
    exact ⟨hr.version, congrArg some hr.leafVersion, classify_trim.mpr hsig, hr.count.symm, hr.head,
      hr.structure_ok⟩

/-- The file passes `evident-verify` on a machine with this pinned key. -/
def VerifierAccepts (sha : Sha256) (ed : Ed25519) (pinned : Option String) (proof : ProofFile) :
    Prop :=
  ∀ env : Verifier.Env, env.pinnedKey = pinned →
    (Verifier.verifyFile sha ed env proof.forVerifier).exitCode = 0

theorem verifierAccepts_trim {key : String} : VerifierAccepts sha ed (some (trim key)) proof ↔
    Verifier.Accepted sha ed (trim key) proof.forVerifier := by
  constructor
  · intro h
    obtain ⟨k, hk, ha⟩ := Verifier.verifyFile_exitCode.mp
      (h (Verifier.sampleEnv key proof.forVerifier) rfl)
    rwa [← Option.some.inj hk] at ha
  · intro ha env henv
    exact Verifier.verifyFile_exitCode.mpr ⟨trim key, henv, ha⟩

/-- Without a pinned key nothing is accepted. -/
theorem not_verifierAccepts_none : ¬ VerifierAccepts sha ed none proof := by
  intro h
  obtain ⟨k, hk, -⟩ := Verifier.verifyFile_exitCode.mp
    (h { Verifier.sampleEnv "" proof.forVerifier with homeDir := none } rfl)
  exact absurd hk (by simp [Verifier.Env.pinnedKey])

/-- **When the desktop verdict agrees with the offline verifier.** If a run ends with `Valid`, the
file shown is of the selected project's chain and `evident-verify` accepts it under the pinned key:
exactly under `VerdictSound`. -/
theorem desktop_agrees_iff (sha : Sha256) (ed : Ed25519) (world : World) (app : App) :
    ((verifyProject sha ed world app).verifyStatus = .valid →
      ∃ project proofsDir proof, loadProject world app = some (project, proofsDir) ∧
        (verifyProject sha ed world app).lastProof = some proof ∧
        proof.chainId = project.chainId ∧
        VerifierAccepts sha ed (pinnedKey world (verifyProject sha ed world app)) proof) ↔
      VerdictSound sha ed world app := by
  unfold VerdictSound
  cases hload : loadProject world app with
  | none =>
    have hsame : verifyProject sha ed world app = app.started := by
      unfold verifyProject
      rw [hload]
    rw [hsame]
    constructor
    · intro h hv
      obtain ⟨project, proofsDir, proof, hl, -⟩ := h hv
      exact absurd hl (by simp)
    · exact fun h hv => absurd hv h
  | some loaded =>
    obtain ⟨project, proofsDir⟩ := loaded
    constructor
    · intro h proof hp hintact
      obtain ⟨hlast, hvalid, hpin⟩ := verifyProject_some sha ed hload hp
      have hshown : (∀ ks, keyAtHand world app = some ks → SignatureValid ed proof ks.1) →
          proof.chainId = project.chainId ∧ VerifierAccepts sha ed
            (pinnedKey world (verifyProject sha ed world app)) proof := fun hsig => by
        obtain ⟨project', proofsDir', proof', hl, hlast', hchain, hacc⟩ :=
          h (hvalid.mpr ⟨hintact, hsig⟩)
        obtain ⟨rfl, rfl⟩ := Prod.mk.inj (Option.some.inj hl)
        rw [hlast] at hlast'
        obtain rfl := Option.some.inj hlast'
        exact ⟨hchain, hacc⟩
      cases hk : keyAtHand world app with
      | none =>
        -- no key: the outcome stays `Valid`, and nothing is accepted
        obtain ⟨-, hacc⟩ := hshown fun ks hks => absurd (hk.symm.trans hks) (by simp)
        rw [hpin, hk] at hacc
        exact absurd hacc not_verifierAccepts_none
      | some ks =>
        obtain ⟨key, stored⟩ := ks
        refine ⟨key, stored, rfl, ?_⟩
        by_cases hsig : SignatureValid ed proof key
        · obtain ⟨hchain, hacc⟩ := hshown fun ks hks => by
            obtain rfl := Option.some.inj (hk.symm.trans hks)
            exact hsig
          rw [hpin, hk] at hacc
          cases stored with
          | false => exact absurd hacc not_verifierAccepts_none
          | true =>
            exact Or.inr ⟨rfl, (accepted_iff_passesRest hsig hchain).mp
              (verifierAccepts_trim.mp hacc)⟩
        · exact Or.inl hsig
    · intro h hv
      cases hp : loadLocalProof world proofsDir with
      | none => exact absurd hv (verifyProject_none hload hp)
      | some proof =>
        obtain ⟨hlast, hvalid, hpin⟩ := verifyProject_some sha ed hload hp
        obtain ⟨hintact, hsig⟩ := hvalid.mp hv
        obtain ⟨key, stored, hk, hcase⟩ := h proof hp hintact
        have hkey := hsig _ hk
        obtain ⟨rfl, hrest⟩ := hcase.resolve_left (not_not_intro hkey)
        refine ⟨project, proofsDir, proof, rfl, hlast, hrest.chain, ?_⟩
        rw [hpin, hk]
        exact verifierAccepts_trim.mpr ((accepted_iff_passesRest hkey hrest.chain).mpr hrest)

/-- A machine with one project and one proof file, without a key and without a server. -/
def sampleWorld : World where
  home := some "/home/evident"
  homeDir := some "/home/evident"
  readToString _ := .ok ""
  parseProject _ := .ok ⟨"audit", (Uuid.small 9).toString, ""⟩
  readDir _ := some [⟨some "json", some ""⟩]
  parseProof _ := some selfSignedFile
  localCopies _ _ := none
  readFile _ := none
  fetchIdentity := .error "connection refused"
  writeOk := false

/-- The window with that project selected. -/
def sampleApp : App where
  lang := .en
  selectedProject := "audit"
  headEventId := none
  verificationEvents := []
  verificationComplete := false
  verificationProject := ""
  lastProof := none
  verifyStatus := .none
  verifyDetails := .empty
  pinnedFile := none

/-- **The desktop disagrees on a file its author signed**: with no key at hand the run ends with
`Valid`, and `evident-verify` does not accept the file shown. -/
theorem desktop_disagrees :
    (verifyProject sampleSha Verifier.fileEd sampleWorld sampleApp).verifyStatus = .valid ∧
      (verifyProject sampleSha Verifier.fileEd sampleWorld sampleApp).lastProof =
        some selfSignedFile ∧
      ¬ VerifierAccepts sampleSha Verifier.fileEd
        (pinnedKey sampleWorld (verifyProject sampleSha Verifier.fileEd sampleWorld sampleApp))
        selfSignedFile := by
  have hload : loadProject sampleWorld sampleApp =
      some (⟨"audit", (Uuid.small 9).toString, ""⟩, "/home/evident/Evident Projects/audit/proofs") :=
    by decide +kernel
  have hp : loadLocalProof sampleWorld "/home/evident/Evident Projects/audit/proofs" =
      some selfSignedFile := rfl
  obtain ⟨hlast, hvalid, hpin⟩ := verifyProject_some sampleSha Verifier.fileEd hload hp
  have hkey : keyAtHand sampleWorld sampleApp = none := rfl
  refine ⟨hvalid.mpr ⟨⟨by decide +kernel, by decide +kernel⟩, ?_⟩, hlast, ?_⟩
  · exact fun ks hks => absurd (hkey.symm.trans hks) (by simp)
  · rw [hpin, hkey]
    exact not_verifierAccepts_none

end EvidentLedger.Desktop
