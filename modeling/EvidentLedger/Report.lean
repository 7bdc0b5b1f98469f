import EvidentLedger.Backup.Restore
import EvidentLedger.Lib.Decimal
import EvidentLedger.Verifier

/-!
# The certificates of the command line

`cmd_report` (`src/bin/evident.rs:1288-1345`), and `cmd_report_generate` with `find_latest_proof_artifact`
(`evident.rs:966-1023`), beside `evident-verify` on the same file. The command takes what it needs out of
the untyped JSON; `Verifier.main` reads a `ProofFile` of the same text.

* `t["timestamp"]` of an object without that name panics.
* The PDF, the disk and the clock are parameters of `World`; what the command prints is left out, and the
  names of files are UTF-8.
* `Complete`: `cmd_report` comes to its end. It depends on no signature, head or root (`cmdReport_ok`).
* **`issued_iff`**: every certificate is of a verified proof and its head, exactly if `cmd_report` does not
  come to its end, or `evident-verify` accepts the file and its first event has the hash of its head
  event. `forged_certificate` is a file that nobody signed, which `evident report generate` finds.
-/

namespace EvidentLedger.Report

open Lib.Text Lib.Decimal Verifier

/-! ## The certificate -/

/-- `CertificateStatus`. -/
inductive CertificateStatus where
  | valid
  | invalidHash
  | invalidTsa
  | missingTsa
  deriving Repr, DecidableEq

/-- `CertificateInput`. -/
structure CertificateInput where
  status : CertificateStatus
  fileHashValid : Bool
  tsaValid : Bool
  proofId : String
  sha256 : String
  objectType : String
  createdAtUtc : String
  tsaProvider : String
  tsaTimestampUtc : String
  tsaTokenBase64 : String
  verifyUrl : String
  fileSizeKb : UInt64
  fileName : String
  deriving DecidableEq

/-- The variants of `CliError` that the commands return, and a panic. -/
inductive CliError where
  | io (e : String)
  | json (e : String)
  | server (message : String)
  | usage (message : String)
  | panicked
  deriving Repr, DecidableEq

/-- An entry of a directory, and the time it was modified at if that is known. -/
structure ProofEntry where
  fileName : String
  modified : Option Int

/-- What the commands read and write. -/
structure World extends Env where
  /-- `serde_json::from_str::<Value>`. -/
  parseValue : String → Except String Json
  /-- `HOME`. -/
  home : Option String
  /-- `fs::read_dir`: none if there is no such directory. -/
  readDir : String → Except String (Option (List ProofEntry))
  /-- `Utc::now().to_rfc3339()`. -/
  nowRfc3339 : String
  /-- `CertificateInput::format_timestamp_unix`. -/
  formatTimestampUnix : UInt64 → String
  generateCertificatePdf : CertificateInput → Except String (List UInt8)
  /-- `fs::write`. -/
  write : String → List UInt8 → Except String Unit

/-- A certificate that was written. -/
structure Certificate where
  path : String
  input : CertificateInput
  bytes : List UInt8

/-! ## The commands -/

/-- `as_object`. -/
def asObject : Json → Option (List (String × Json))
  | .object fields => some fields
  | _ => none

/-- `as_i64`; `-0` is a float. -/
def asI64 : Json → Option Int64
  | .number literal => if literal = "-0" then none else parseI64 literal.toList
  | _ => none

/-- `proof_json["events"]`, its first element, and the `file_hash` there. -/
def firstFileHash (proofJson : Json) : Option String := do
  let events ← (proofJson.index "events").asArray
  let first ← events.head?
  (first.index "file_hash").asStr

/-- `t[key]` of a map. -/
def mapIndex (t : List (String × Json)) (key : String) : Except CliError Json :=
  (t.lookup key).elim (.error .panicked) .ok

/-- The fields of `tsa_obj`. -/
def tsaFields (proofJson : Json) : Except CliError TsaData :=
  match (proofJson.get? "tsa").bind asObject with
  | none => .ok ⟨none, none, none⟩
  | some t => do
    let timestamp ← mapIndex t "timestamp"
    let serial ← mapIndex t "serial"
    let token ← mapIndex t "token_bytes"
    pure ⟨asI64 timestamp, serial.asStr, asI64 token⟩

variable (w : World)

/-- The input of the certificate. -/
def certificateInput (proofPath sha256 chainId : String) (tsa : TsaData) : CertificateInput where
  status := .valid
  fileHashValid := true
  tsaValid := tsa.timestamp.isSome && tsa.serial.isSome && tsa.tokenBytes.isSome
  proofId := chainId
  sha256 := sha256
  objectType := "file"
  createdAtUtc := w.nowRfc3339
  tsaProvider := "FreeTSA"
  tsaTimestampUtc := w.formatTimestampUnix (tsa.timestamp.getD 0).toUInt64
  tsaTokenBase64 := String.ofList (intChars (tsa.tokenBytes.getD 0).toInt)
  verifyUrl := "https://example.com/verify/" ++ chainId
  fileSizeKb := 0
  fileName := (((proofPath.toList.splitOn '/').getLast?).map String.ofList).getD "proof"

/-- `cmd_report`. -/
def cmdReport (proofPath outputPath : String) : Except CliError Certificate := do
  let content ← (w.readToString proofPath).mapError .io
  let proofJson ← (w.parseValue content).mapError .json
  let sha256 ← (firstFileHash proofJson).elim
    (.error (.server "incomplete proof: missing file_hash")) .ok
  let chainId ← ((proofJson.index "chain_id").asStr).elim
    (.error (.server "incomplete proof: missing chain_id")) .ok
  let tsa ← tsaFields proofJson
  let input := certificateInput w proofPath sha256 chainId tsa
  let pdfBytes ← (w.generateCertificatePdf input).mapError fun e =>
    .server ("PDF generation failed: " ++ e)
  (w.write outputPath pdfBytes).mapError .io
  pure ⟨outputPath, input, pdfBytes⟩

/-- `evident_dir`. -/
def evidentDir : String := w.home.getD "." ++ "/.evident"

/-- The error of a chain without proofs. -/
def noLocalProofs (chainId : String) : CliError :=
  .usage ("Error: no local proofs found for chain " ++ chainId ++ ".\nCommit a file first: " ++
    "evident commit <file> --chain " ++ chainId)

/-- `find_latest_proof_artifact`. -/
def findLatestProofArtifact (chainId : String) : Except CliError String := do
  let proofDir := evidentDir w ++ "/proofs/" ++ chainId
  let found ← (w.readDir proofDir).mapError .io
  let entries ← found.elim (.error (noLocalProofs chainId)) .ok
  let paths := entries.filter fun entry =>
    Backup.extension entry.fileName == some "json" && entry.fileName != "proof.json"
  -- the sort is stable, and a file without a time counts as one of the epoch
  let sorted := paths.mergeSort fun a b => decide (a.modified.getD 0 ≤ b.modified.getD 0)
  (sorted.getLast?).elim (.error (noLocalProofs chainId)) fun entry =>
    .ok (proofDir ++ "/" ++ entry.fileName)

/-- Where the certificate of a chain goes. -/
def certificatePath (chainId : String) : String := evidentDir w ++ "/proofs/" ++ chainId ++ "/proof.pdf"

/-- `cmd_report_generate`, the command `evident report generate <chain_id>`. -/
def cmdReportGenerate (chainId : String) : Except CliError Certificate := do
  let sourcePath ← findLatestProofArtifact w chainId
  cmdReport w sourcePath (certificatePath w chainId)

/-! ## What a command does -/

/-- Everything that the command needs is there, for this hash. -/
def Complete (proofPath outputPath sha256 : String) (cert : Certificate) : Prop :=
  ∃ content proofJson chainId tsa, w.readToString proofPath = .ok content ∧
    w.parseValue content = .ok proofJson ∧ firstFileHash proofJson = some sha256 ∧
    (proofJson.index "chain_id").asStr = some chainId ∧ tsaFields proofJson = .ok tsa ∧
    cert.input = certificateInput w proofPath sha256 chainId tsa ∧ cert.path = outputPath ∧
    w.generateCertificatePdf cert.input = .ok cert.bytes ∧ w.write outputPath cert.bytes = .ok ()

variable {w}

theorem bind_eq_ok {ε α β : Type} {x : Except ε α} {f : α → Except ε β} {b : β} :
    (x >>= f) = .ok b ↔ ∃ a, x = .ok a ∧ f a = .ok b := by
  cases x with
  | error e =>
    exact ⟨fun h => absurd h (by simp [bind, Except.bind]), fun ⟨_, h, _⟩ => absurd h (by simp)⟩
  | ok a => exact ⟨fun h => ⟨a, rfl, h⟩, fun ⟨_, ha, h⟩ => Except.ok.inj ha ▸ h⟩

theorem mapError_eq_ok {ε ε' α : Type} {x : Except ε α} {f : ε → ε'} {a : α} :
    x.mapError f = .ok a ↔ x = .ok a := by
  cases x <;> simp [Except.mapError]

theorem elim_eq_ok {ε α : Type} {x : Option α} {e : ε} {a : α} :
    x.elim (.error e) .ok = Except.ok a ↔ x = some a := by
  cases x <;> simp

/-- **A certificate is written** when everything is there. -/
theorem cmdReport_ok {proofPath outputPath : String} {cert : Certificate} :
    cmdReport w proofPath outputPath = .ok cert ↔
      ∃ sha256, Complete w proofPath outputPath sha256 cert := by
  unfold cmdReport Complete
  simp only [bind_eq_ok, mapError_eq_ok, elim_eq_ok]
  constructor
  · rintro ⟨content, hread, proofJson, hjson, sha256, hsha, chainId, hchain, tsa, htsa, bytes, hpdf, _,
      hwrite, hcert⟩
    obtain rfl := Except.ok.inj hcert
    exact ⟨sha256, content, proofJson, chainId, tsa, hread, hjson, hsha, hchain, htsa, rfl, rfl, hpdf,
      hwrite⟩
  · rintro ⟨sha256, content, proofJson, chainId, tsa, hread, hjson, hsha, hchain, htsa, hinput, hpath,
      hpdf, hwrite⟩
    refine ⟨content, hread, proofJson, hjson, sha256, hsha, chainId, hchain, tsa, htsa, cert.bytes,
      hinput ▸ hpdf, (), hwrite, ?_⟩
    rw [← hinput, ← hpath]
    rfl

/-- **The verdict** of every certificate. -/
theorem input_of_complete {proofPath outputPath sha256 : String} {cert : Certificate}
    (h : Complete w proofPath outputPath sha256 cert) :
    cert.input.sha256 = sha256 ∧ cert.input.status = .valid ∧ cert.input.fileHashValid = true := by
  obtain ⟨_, _, _, _, _, _, _, _, _, hinput, -⟩ := h
  rw [hinput]
  exact ⟨rfl, rfl, rfl⟩

theorem cmdReportGenerate_ok {chainId : String} {cert : Certificate} :
    cmdReportGenerate w chainId = .ok cert ↔ ∃ proofPath,
      findLatestProofArtifact w chainId = .ok proofPath ∧
        cmdReport w proofPath (certificatePath w chainId) = .ok cert :=
  bind_eq_ok

/-! ## Verified proofs -/

/-- `evident-verify <proof.json>` beside the command. -/
def World.verifyEnv (w : World) (proofPath : String) : Env :=
  { w.toEnv with args := ["evident-verify", proofPath] }

/-- The `file_hash` of the event that the head names. As in `events_to_rows`, an id is the uuid that its
text parses to, in whatever case it is written. -/
def headFileHash (f : Verifier.ProofFile) : Option String := do
  let head ← Uuid.parseStr f.headEventId
  let event ← f.events.find? fun e => Uuid.parseStr e.eventId == some head
  pure event.fileHash

/-- `evident-verify` accepts the file, and `h` is the hash of its head event. -/
def Verified (sha : Sha256) (ed : Ed25519) (w : World) (proofPath h : String) : Prop :=
  (main sha ed (w.verifyEnv proofPath)).exitCode = 0 ∧
    ∃ f, (w.verifyEnv proofPath).proofFile = some f ∧ headFileHash f = some h

/-- A valid certificate for the hash of the proof file's head, if the file is accepted. -/
def Backed (sha : Sha256) (ed : Ed25519) (w : World) (proofPath : String) (cert : Certificate) : Prop :=
  cert.input.status = .valid → cert.input.fileHashValid = true →
    Verified sha ed w proofPath cert.input.sha256

/-- The file is accepted under the pinned key, and its first event has the hash of its head event. -/
def HeadFirst (sha : Sha256) (ed : Ed25519) (w : World) (proofPath : String) : Prop :=
  ∃ f pinned first, (w.verifyEnv proofPath).proofFile = some f ∧ w.pinnedKey = some pinned ∧
    Accepted sha ed pinned f ∧ f.events.head? = some first ∧ headFileHash f = some first.fileHash

/-- **Two readings of one text**: a `file_hash` of the first event that `Value` finds is the one that
`ProofFile` finds. -/
def SameFirstHash (w : World) : Prop :=
  ∀ content proofJson f h, w.parseValue content = .ok proofJson → w.fromStr content = .ok f →
    firstFileHash proofJson = some h → f.events.head?.map (·.fileHash) = some h

theorem verified_iff {sha : Sha256} {ed : Ed25519} {proofPath h : String} :
    Verified sha ed w proofPath h ↔ ∃ f pinned, (w.verifyEnv proofPath).proofFile = some f ∧
      w.pinnedKey = some pinned ∧ Accepted sha ed pinned f ∧ headFileHash f = some h := by
  unfold Verified
  simp only [main_exitCode, verifyFile_exitCode]
  constructor
  · rintro ⟨⟨f, hf, pinned, hpinned, hok⟩, f', hf', hhead⟩
    obtain rfl := Option.some.inj (hf.symm.trans hf')
    exact ⟨f, pinned, hf, hpinned, hok, hhead⟩
  · rintro ⟨f, pinned, hf, hpinned, hok, hhead⟩
    exact ⟨⟨f, hf, pinned, hpinned, hok⟩, f, hf, hhead⟩

/-- The hash of a certificate is that of the first event of the proof file. -/
theorem first_of_complete (hserde : SameFirstHash w) {proofPath outputPath sha256 : String}
    {cert : Certificate} {f : Verifier.ProofFile} (hc : Complete w proofPath outputPath sha256 cert)
    (hf : (w.verifyEnv proofPath).proofFile = some f) :
    ∃ first, f.events.head? = some first ∧ first.fileHash = sha256 := by
  obtain ⟨content, proofJson, chainId, tsa, hread, hjson, hsha, -⟩ := hc
  have hparse : w.fromStr content = .ok f := by
    unfold Env.proofFile World.verifyEnv at hf
    simp only [List.getElem?_cons_succ, List.getElem?_cons_zero, hread] at hf
    cases hok : w.fromStr content with
    | error e => simp [hok, Except.toOption] at hf
    | ok f' =>
      simp only [hok, Except.toOption] at hf
      rw [Option.some.inj hf]
  exact Option.map_eq_some_iff.mp (hserde content proofJson f sha256 hjson hparse hsha)

theorem headFirst_iff (hserde : SameFirstHash w) {sha : Sha256} {ed : Ed25519}
    {proofPath outputPath sha256 : String} {cert : Certificate}
    (hc : Complete w proofPath outputPath sha256 cert) :
    Verified sha ed w proofPath sha256 ↔ HeadFirst sha ed w proofPath := by
  rw [verified_iff]
  constructor
  · rintro ⟨f, pinned, hf, hpinned, hok, hhead⟩
    obtain ⟨first, hfirst, rfl⟩ := first_of_complete hserde hc hf
    exact ⟨f, pinned, first, hf, hpinned, hok, hfirst, hhead⟩
  · rintro ⟨f, pinned, first, hf, hpinned, hok, hfirst, hhead⟩
    obtain ⟨first', hfirst', rfl⟩ := first_of_complete hserde hc hf
    obtain rfl := Option.some.inj (hfirst.symm.trans hfirst')
    exact ⟨f, pinned, hf, hpinned, hok, hhead⟩

theorem backed_iff (hserde : SameFirstHash w) {sha : Sha256} {ed : Ed25519}
    {proofPath outputPath : String} :
    (∀ cert, cmdReport w proofPath outputPath = .ok cert → Backed sha ed w proofPath cert) ↔
      ((∃ sha256 cert, Complete w proofPath outputPath sha256 cert) → HeadFirst sha ed w proofPath) := by
  constructor
  · rintro h ⟨sha256, cert, hc⟩
    obtain ⟨hsha, hstatus, hvalid⟩ := input_of_complete hc
    have hv := h cert (cmdReport_ok.mpr ⟨sha256, hc⟩) hstatus hvalid
    exact (headFirst_iff hserde hc).mp (hsha ▸ hv)
  · intro h cert hreport _ _
    obtain ⟨sha256, hc⟩ := cmdReport_ok.mp hreport
    rw [(input_of_complete hc).1]
    exact (headFirst_iff hserde hc).mpr (h ⟨sha256, cert, hc⟩)

/-- **When certificates are backed**: `cmd_report` does not come to its end, or the file is accepted and
its first event has the hash of its head event. So it is for a proof file at any path, and for the one
that `report generate` finds. -/
theorem issued_iff (sha : Sha256) (ed : Ed25519) {w : World} (hserde : SameFirstHash w) :
    (∀ proofPath outputPath,
      (∀ cert, cmdReport w proofPath outputPath = .ok cert → Backed sha ed w proofPath cert) ↔
        ((∃ sha256 cert, Complete w proofPath outputPath sha256 cert) →
          HeadFirst sha ed w proofPath)) ∧
    ∀ chainId,
      (∀ cert, cmdReportGenerate w chainId = .ok cert →
        ∃ proofPath, findLatestProofArtifact w chainId = .ok proofPath ∧
          Backed sha ed w proofPath cert) ↔
        ∀ proofPath, findLatestProofArtifact w chainId = .ok proofPath →
          (∃ sha256 cert, Complete w proofPath (certificatePath w chainId) sha256 cert) →
            HeadFirst sha ed w proofPath := by
  refine ⟨fun _ _ => backed_iff hserde, fun chainId => ⟨fun h proofPath hfind => ?_, fun h cert hrun => ?_⟩⟩
  · refine (backed_iff hserde).mp fun cert hreport => ?_
    obtain ⟨proofPath', hfind', hb⟩ := h cert (cmdReportGenerate_ok.mpr ⟨proofPath, hfind, hreport⟩)
    obtain rfl := Except.ok.inj (hfind.symm.trans hfind')
    exact hb
  · obtain ⟨proofPath, hfind, hreport⟩ := cmdReportGenerate_ok.mp hrun
    exact ⟨proofPath, hfind, (backed_iff hserde).mpr (h proofPath hfind) cert hreport⟩

/-! ## A file that nobody signed, and one of two events -/

/-- A leaf as JSON, and as a text. -/
def leafValue (e : EventLeaf) : Json :=
  .object [("sequence", .number (String.ofList (intChars e.sequence.toInt))),
    ("event_id", .string e.eventId), ("parent_event_id", .string e.parentEventId),
    ("file_hash", .string e.fileHash)]

def leafText (e : EventLeaf) : String :=
  "\x7b\"sequence\":" ++ String.ofList (intChars e.sequence.toInt) ++ ",\"event_id\":\"" ++ e.eventId ++
    "\",\"parent_event_id\":\"" ++ e.parentEventId ++ "\",\"file_hash\":\"" ++ e.fileHash ++ "\"\x7d"

/-- A file of the current version as JSON, and as a text. -/
def fileValue (f : Verifier.ProofFile) : Json :=
  .object [("leaf_version", .string LEAF_VERSION), ("chain_id", .string f.chainId),
    ("head_event_id", .string f.headEventId),
    ("proof", .object [("version", .string PROOF_VERSION), ("root", .string f.proof.root),
      ("chain_head", .string f.proof.chainHead), ("signature", .string f.proof.signature),
      ("public_key", .string f.proof.publicKey),
      ("leaves_count", .number (toString f.proof.leavesCount))]),
    ("events", .array (f.events.map leafValue))]

def fileText (f : Verifier.ProofFile) : String :=
  "\x7b\"leaf_version\":\"" ++ LEAF_VERSION ++ "\",\"chain_id\":\"" ++ f.chainId ++
    "\",\"head_event_id\":\"" ++ f.headEventId ++ "\",\"proof\":\x7b\"version\":\"" ++ PROOF_VERSION ++
    "\",\"root\":\"" ++ f.proof.root ++ "\",\"chain_head\":\"" ++ f.proof.chainHead ++
    "\",\"signature\":\"" ++ f.proof.signature ++ "\",\"public_key\":\"" ++ f.proof.publicKey ++
    "\",\"leaves_count\":" ++ toString f.proof.leavesCount ++ "\x7d,\"events\":[" ++
    ",".intercalate (f.events.map leafText) ++ "]\x7d"

/-- The latest artifact of a chain at home. -/
def samplePath (chainId : String) : String := "/home/evident/.evident/proofs/" ++ chainId ++ "/x.json"

/-- A home directory with a pinned key and, for every chain, one artifact beside its `proof.json`. -/
def sampleWorld (f : Verifier.ProofFile) : World where
  toEnv := { sampleEnv sampleKey f with
    readToString := fun path => .ok (if path = samplePath f.chainId then fileText f else sampleKey)
    fromStr := fun text => if text = fileText f then .ok f else .error "expected value" }
  parseValue text := if text = fileText f then .ok (fileValue f) else .error "expected value"
  home := some "/home/evident"
  readDir _ := .ok (some [⟨"proof.json", some 2⟩, ⟨"x.json", some 1⟩])
  nowRfc3339 := "2026-01-01T00:00:00+00:00"
  formatTimestampUnix _ := "1970-01-01 00:00:00 UTC"
  generateCertificatePdf input := .ok (asBytes input.sha256)
  write _ _ := .ok ()

/-- The artifact is found, and `proof.json` is passed over. -/
theorem sampleWorld_find (f : Verifier.ProofFile) (chainId : String) :
    findLatestProofArtifact (sampleWorld f) chainId = .ok (samplePath chainId) := by
  have hkept : (([⟨"proof.json", some 2⟩, ⟨"x.json", some 1⟩] : List ProofEntry).filter fun entry =>
      Backup.extension entry.fileName == some "json" && entry.fileName != "proof.json") =
        [⟨"x.json", some 1⟩] := by
    have hproof : (("proof.json" : String) != "proof.json") = false := by decide
    have hx : (Backup.extension "x.json" == some "json" && "x.json" != "proof.json") = true := by
      decide +kernel
    simp only [List.filter_cons, hproof, hx, Bool.and_false, Bool.false_eq_true, if_false, if_true,
      List.filter_nil]
  have hread (dir) : (sampleWorld f).readDir dir =
      .ok (some [⟨"proof.json", some 2⟩, ⟨"x.json", some 1⟩]) := rfl
  have hdir : evidentDir (sampleWorld f) = "/home/evident" ++ "/.evident" := rfl
  have hproofs : "/home/evident" ++ "/.evident" ++ "/proofs/" = "/home/evident/.evident/proofs/" := by
    decide
  have hname : "/" ++ "x.json" = "/x.json" := by decide
  unfold findLatestProofArtifact samplePath
  simp only [hread, hdir, Except.mapError, bind, Except.bind, Option.elim, hkept,
    List.mergeSort_singleton, List.getLast?_singleton, hproofs, String.append_assoc, ← hname]

theorem firstFileHash_fileValue (f : Verifier.ProofFile) :
    firstFileHash (fileValue f) = f.events.head?.map (·.fileHash) := by
  have hevents : (fileValue f).index "events" = .array (f.events.map leafValue) := rfl
  have hleaf : ∀ e, (leafValue e).index "file_hash" = .string e.fileHash := fun _ => rfl
  unfold firstFileHash
  rw [hevents]
  cases f.events with
  | nil => rfl
  | cons e rest => exact congrArg Json.asStr (hleaf e)

theorem sampleWorld_complete {f : Verifier.ProofFile} {first : EventLeaf}
    (hfirst : f.events.head? = some first) :
    ∃ cert, Complete (sampleWorld f) (samplePath f.chainId) (certificatePath (sampleWorld f) f.chainId)
      first.fileHash cert := by
  have hhash : firstFileHash (fileValue f) = some first.fileHash := by
    rw [firstFileHash_fileValue, hfirst, Option.map_some]
  have hvalue : (sampleWorld f).parseValue (fileText f) = .ok (fileValue f) := by
    simp only [sampleWorld, if_true]
  have hread : (sampleWorld f).readToString (samplePath f.chainId) = .ok (fileText f) := by
    simp only [sampleWorld, if_true]
  exact ⟨⟨certificatePath (sampleWorld f) f.chainId, certificateInput (sampleWorld f)
    (samplePath f.chainId) first.fileHash f.chainId ⟨none, none, none⟩, asBytes first.fileHash⟩,
    fileText f, fileValue f, f.chainId, ⟨none, none, none⟩, hread, hvalue, hhash, rfl, rfl, rfl, rfl, rfl,
    rfl⟩

theorem sampleWorld_proofFile (f : Verifier.ProofFile) :
    ((sampleWorld f).verifyEnv (samplePath f.chainId)).proofFile = some f := by
  have hparse : (sampleWorld f).fromStr (fileText f) = .ok f := by simp only [sampleWorld, if_true]
  have hread : (sampleWorld f).readToString (samplePath f.chainId) = .ok (fileText f) := by
    simp only [sampleWorld, if_true]
  simp only [Env.proofFile, World.verifyEnv, List.getElem?_cons_succ, List.getElem?_cons_zero, hread,
    hparse, Except.toOption]

/-- The two parsers read the same file. -/
theorem sampleWorld_sameFirstHash (f : Verifier.ProofFile) : SameFirstHash (sampleWorld f) := by
  intro content proofJson g h hvalue hfile hhash
  by_cases hcontent : content = fileText f
  · have hvalue : Except.ok (fileValue f) = Except.ok proofJson := (if_pos hcontent).symm.trans hvalue
    have hfile : Except.ok f = Except.ok g := (if_pos hcontent).symm.trans hfile
    obtain rfl := Except.ok.inj hvalue
    obtain rfl := Except.ok.inj hfile
    rwa [firstFileHash_fileValue] at hhash
  · have hvalue : Except.error "expected value" = Except.ok proofJson :=
      (if_neg hcontent).symm.trans hvalue
    exact absurd hvalue (by simp)

/-- The file of a signed list, with another signature. -/
def forgedFile : Verifier.ProofFile :=
  { sampleFile with proof := { sampleFile.proof with signature := "00" } }

/-- **A file that nobody signed** gets its certificate. -/
theorem forged_certificate : ¬ ∀ cert,
    cmdReportGenerate (sampleWorld forgedFile) forgedFile.chainId = .ok cert →
      cert.input.status = .valid → cert.input.fileHashValid = true → ∃ proofPath,
        findLatestProofArtifact (sampleWorld forgedFile) forgedFile.chainId = .ok proofPath ∧
          Verified sampleSha fileEd (sampleWorld forgedFile) proofPath cert.input.sha256 := by
  intro h
  have hfind := sampleWorld_find forgedFile forgedFile.chainId
  have hfirst : forgedFile.events.head? = some ⟨1, (Uuid.small 1).toString, Uuid.nil.toString, "aa"⟩ := rfl
  obtain ⟨cert, hc⟩ := sampleWorld_complete hfirst
  obtain ⟨-, hstatus, hvalid⟩ := input_of_complete hc
  obtain ⟨_, hpath, hv⟩ := h cert (cmdReportGenerate_ok.mpr ⟨_, hfind, cmdReport_ok.mpr ⟨_, hc⟩⟩)
    hstatus hvalid
  obtain rfl := Except.ok.inj (hfind.symm.trans hpath)
  obtain ⟨f, pinned, hf, hpinned, hok, -⟩ := verified_iff.mp hv
  obtain rfl := Option.some.inj ((sampleWorld_proofFile forgedFile).symm.trans hf)
  have hkey : (sampleWorld forgedFile).pinnedKey = some sampleKey := by decide +kernel
  obtain rfl := Option.some.inj (hkey.symm.trans hpinned)
  have hbad : classifySignature fileEd forgedFile.proof.publicKey sampleKey forgedFile.chainId
      forgedFile.proof.root forgedFile.proof.chainHead forgedFile.proof.signature ≠ .valid := by
    decide +kernel
  exact hbad hok.signature

/-- The certificate of a signed file of two events is about the first. -/
theorem issued_iff_sampleFile : ¬ ∀ cert,
    cmdReportGenerate (sampleWorld sampleFile) sampleFile.chainId = .ok cert → ∃ proofPath,
      findLatestProofArtifact (sampleWorld sampleFile) sampleFile.chainId = .ok proofPath ∧
        Backed sampleSha fileEd (sampleWorld sampleFile) proofPath cert := by
  rw [(issued_iff sampleSha fileEd (sampleWorld_sameFirstHash sampleFile)).2]
  intro h
  have hfirst : sampleFile.events.head? = some ⟨1, (Uuid.small 1).toString, Uuid.nil.toString, "aa"⟩ := rfl
  obtain ⟨cert, hc⟩ := sampleWorld_complete hfirst
  obtain ⟨f, pinned, first, hf, -, -, hhead, hhash⟩ :=
    h _ (sampleWorld_find sampleFile sampleFile.chainId) ⟨_, cert, hc⟩
  obtain rfl := Option.some.inj ((sampleWorld_proofFile sampleFile).symm.trans hf)
  obtain rfl := Option.some.inj (hfirst.symm.trans hhead)
  exact absurd hhash (by decide +kernel)

end EvidentLedger.Report
