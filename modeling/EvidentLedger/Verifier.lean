import EvidentLedger.ProofFile

/-!
# The offline verifier

Model of `main` of `evident-verify` (`src/bin/verify.rs:69-228`), with everything it reads from its
surroundings in `Env`: the arguments, the files, the JSON parser, the home directory, the server URL
and the clock. What it does is the text it prints and its exit code.

The source accumulates failures in one flag `ok` and leaves early in five places; `Report` is the
flag with the lines printed so far, and each check takes a report to the next. The original file of
the second argument is checked for information only.

* `Accepted`: the conditions that a file is accepted on, under a pinned key.
* `verifyFile_exitCode`: exit code 0 is exactly `Accepted` under the pinned key.
* `accepted_signedFile`: the file of a list the server signed is accepted under its key.
* `verifier_sound`: an accepted file is a signed one. With the signed messages those of a set of
  structurally valid lists, a signature text that verifies for no other message, and a hash without
  collisions among the inputs involved, the file's chain, root and head are those of a list of the
  set and its events are that list.

The message framing needs no assumption on the file: the three parts of a signed message have no
`:`, so a message an adversary joined from other parts has the same three parts
(`signMessage_inj`).
-/

namespace EvidentLedger

open Lib.Text

namespace Verifier

/-- What `main` reads. -/
structure Env where
  /-- `std::env::args`, the program name first. -/
  args : List String
  /-- `std::fs::read_to_string`: the content, or the error's text. -/
  readToString : String → Except String String
  /-- `std::fs::read`. -/
  read : String → Option (List UInt8)
  /-- `serde_json::from_str`. -/
  fromStr : String → Except String ProofFile
  /-- `dirs::home_dir`. -/
  homeDir : Option String
  /-- `EVIDENT_SERVER_URL`. -/
  serverUrl : Option String
  /-- `Utc::now`. -/
  now : Int

/-- What `main` does. -/
structure Outcome where
  stdout : List String
  stderr : List String
  exitCode : Nat
  deriving DecidableEq

/-- `ok` and the lines on standard error. -/
structure Report where
  ok : Bool
  stderr : List String

def Report.fail (r : Report) (lines : List String) : Report := ⟨false, r.stderr ++ lines⟩

/-- `pinned_key_path`. -/
def pinnedKeyPath (home : String) : String := home ++ "/.evident/server_identity.pub"

/-- The message of `reject_unversioned`, when it rejects. -/
def rejectUnversioned (proofVersion leafVersion : Option String) : Option String :=
  if isVersioned proofVersion leafVersion && isSupported proofVersion leafVersion then none
  else if proofVersion.isNone && leafVersion.isNone then some LEGACY_UNVERSIONED_MESSAGE
  else some UNSUPPORTED_PROOF_FORMAT_MESSAGE

variable (sha : Sha256) (ed : Ed25519) (env : Env)

/-- Step 1: the signature. -/
def checkSignature (trustedPublicKey : String) (f : ProofFile) (r : Report) : Report :=
  match classifySignature ed f.proof.publicKey trustedPublicKey f.chainId f.proof.root
      f.proof.chainHead f.proof.signature with
  | .valid => r
  | .untrustedSignerIdentity _ _ =>
    let base := env.serverUrl.getD "https://evident-ledger.com"
    r.fail ["FAIL: untrusted signer identity (server key mismatch)",
      "To trust the current server identity, update:\n~/.evident/server_identity.pub\nExample:\n" ++
        "curl -s " ++ base ++ "/identity | jq -r .public_key > ~/.evident/server_identity.pub"]
  | .signatureInvalid _ => r.fail ["FAIL: cryptographic signature verification failed"]

/-- Step 2: `leaves_count`. -/
def checkLeavesCount (f : ProofFile) (r : Report) : Report :=
  if f.events.length ≠ f.proof.leavesCount then r.fail ["FAIL: leaves_count mismatch"] else r

/-- Step 3: the two heads. -/
def checkHead (f : ProofFile) (r : Report) : Report :=
  if f.headEventId ≠ f.proof.chainHead then r.fail ["FAIL: head_event_id != chain_head"] else r

/-- Steps 4 to 6: the structure and the root. -/
def checkStructure (f : ProofFile) (rows : List EventRow) (r : Report) : Report :=
  match checkEventStructure sha rows with
  | .ok recomputed =>
    if recomputed ≠ f.proof.root then
      r.fail ["FAIL: merkle root mismatch", "  expected:   " ++ f.proof.root,
        "  recomputed: " ++ recomputed]
    else r
  | .error (.sequence index) =>
    r.fail ["FAIL: sequence not monotonic at index " ++ toString index]
  | .error (.parentChain index) => r.fail ["FAIL: parent mismatch at index " ++ toString index]
  | .error .emptyMerkle => r.fail ["FAIL: merkle root empty"]

/-- The line about the original file, when a path for it was given. -/
def checkOriginal (f : ProofFile) : List String :=
  match env.args[2]? with
  | none => []
  | some originalPath =>
    match f.events.find? (·.eventId == f.headEventId), env.read originalPath with
    | some ev, some bytes =>
      if sha256Hex sha bytes = ev.fileHash then ["Original: OK"]
      else ["Original: MISSING or MISMATCH"]
    | _, _ => ["Original: MISSING or MISMATCH"]

/-- The last line and the exit code. -/
def finish (f : ProofFile) (r : Report) : Outcome :=
  if r.ok then ⟨checkOriginal sha env f ++ ["OK: proof valid"], r.stderr, 0⟩
  else ⟨checkOriginal sha env f ++ ["FAIL"], r.stderr, 2⟩

/-- `main` once the file is parsed. -/
def verifyFile (f : ProofFile) : Outcome :=
  match rejectUnversioned f.proof.version f.leafVersion with
  | some message => ⟨[], [message], LEGACY_EXIT_CODE⟩
  | none =>
    match env.homeDir with
    | none => ⟨[], ["no home dir"], 101⟩
    | some home =>
      match env.readToString (pinnedKeyPath home) with
      | .error _ =>
        ⟨[], ["FAIL: no pinned server key at " ++ pinnedKeyPath home,
          "Fetch it once: curl http://127.0.0.1:3000/identity"], 3⟩
      | .ok k =>
        let r := checkHead f (checkLeavesCount f (checkSignature ed env (trim k) f ⟨true, []⟩))
        match eventsToRows env.now f.events with
        | none => ⟨[], r.stderr ++ ["FAIL: invalid event UUIDs in proof"], 2⟩
        | some rows => finish sha env f (checkStructure sha f rows r)

/-- `main`. -/
def main : Outcome :=
  match env.args[1]? with
  | none => ⟨[], ["Usage: evident-verify <proof.json>"], 1⟩
  | some path =>
    match env.readToString path with
    | .error e => ⟨[], ["Cannot read proof file: " ++ e], 1⟩
    | .ok content =>
      match env.fromStr content with
      | .error e => ⟨[], ["Invalid proof JSON: " ++ e], 1⟩
      | .ok f => verifyFile sha ed env f

/-- The pinned key, as `main` finds it. -/
def Env.pinnedKey (env : Env) : Option String :=
  match env.homeDir with
  | none => none
  | some home =>
    match env.readToString (pinnedKeyPath home) with
    | .error _ => none
    | .ok k => some (trim k)

/-- The proof file named by the first argument. -/
def Env.proofFile (env : Env) : Option ProofFile :=
  match env.args[1]? with
  | none => none
  | some path =>
    match env.readToString path with
    | .error _ => none
    | .ok content => (env.fromStr content).toOption

/-! ## Acceptance -/

/-- **What an accepted file satisfies**, under a pinned key. -/
structure Accepted (pinned : String) (f : ProofFile) : Prop where
  version : f.proof.version = some PROOF_VERSION
  leafVersion : f.leafVersion = some LEAF_VERSION
  signature : classifySignature ed f.proof.publicKey pinned f.chainId f.proof.root
    f.proof.chainHead f.proof.signature = .valid
  count : f.events.length = f.proof.leavesCount
  head : f.headEventId = f.proof.chainHead
  structure_ok : ∃ rows, eventsToRows 0 f.events = some rows ∧
    checkEventStructure sha rows = .ok f.proof.root

variable {sha ed env} {pinned : String} {f : ProofFile}

theorem rejectUnversioned_none {pv lv : Option String} :
    rejectUnversioned pv lv = none ↔ pv = some PROOF_VERSION ∧ lv = some LEAF_VERSION := by
  unfold rejectUnversioned
  rw [← isSupported_iff]
  by_cases h : isSupported pv lv = true
  · simp [h, isVersioned_of_isSupported h]
  · simp only [h, Bool.and_false, Bool.false_eq_true, if_false, iff_false]
    split_ifs <;> simp

theorem fail_ok (r : Report) (lines : List String) : (r.fail lines).ok = false := rfl

theorem checkSignature_ok {r : Report} : (checkSignature ed env pinned f r).ok = true ↔
    r.ok = true ∧ classifySignature ed f.proof.publicKey pinned f.chainId f.proof.root
      f.proof.chainHead f.proof.signature = .valid := by
  unfold checkSignature
  cases classifySignature ed f.proof.publicKey pinned f.chainId f.proof.root f.proof.chainHead
    f.proof.signature with
  | valid => simp
  | untrustedSignerIdentity a b => simp [fail_ok]
  | signatureInvalid a => simp [fail_ok]

theorem checkLeavesCount_ok {r : Report} : (checkLeavesCount f r).ok = true ↔
    r.ok = true ∧ f.events.length = f.proof.leavesCount := by
  unfold checkLeavesCount
  split_ifs with h
  · simp [fail_ok, h]
  · simp [Decidable.not_not.mp h]

theorem checkHead_ok {r : Report} : (checkHead f r).ok = true ↔
    r.ok = true ∧ f.headEventId = f.proof.chainHead := by
  unfold checkHead
  split_ifs with h
  · simp [fail_ok, h]
  · simp [Decidable.not_not.mp h]

theorem checkStructure_ok {rows : List EventRow} {r : Report} :
    (checkStructure sha f rows r).ok = true ↔
      r.ok = true ∧ checkEventStructure sha rows = .ok f.proof.root := by
  unfold checkStructure
  cases h : checkEventStructure sha rows with
  | error e => cases e <;> simp [fail_ok]
  | ok recomputed =>
    by_cases hr : recomputed = f.proof.root
    · simp [hr]
    · simp [hr, fail_ok]

theorem finish_exitCode {r : Report} : (finish sha env f r).exitCode = 0 ↔ r.ok = true := by
  unfold finish
  split_ifs with h
  · simp [h]
  · simp [h]

/-- The rows at the time of reading check like the rows at time 0. -/
theorem checkEventStructure_now {now : Int} {events : List EventLeaf} {root : String} :
    (∃ rows, eventsToRows now events = some rows ∧ checkEventStructure sha rows = .ok root) ↔
      ∃ rows, eventsToRows 0 events = some rows ∧ checkEventStructure sha rows = .ok root := by
  have move : ∀ {s t : Int},
      (∃ rows, eventsToRows s events = some rows ∧ checkEventStructure sha rows = .ok root) →
        ∃ rows, eventsToRows t events = some rows ∧ checkEventStructure sha rows = .ok root := by
    rintro s t ⟨rows, hrows, hok⟩
    have hc := eventsToRows_content s t events
    rw [hrows, Option.map_some] at hc
    obtain ⟨rows', hrows', hmap⟩ := Option.map_eq_some_iff.mp hc.symm
    exact ⟨rows', hrows', (checkEventStructure_congr hmap).trans hok⟩
  exact ⟨move, move⟩

/-- **Exit code 0 is acceptance under the pinned key.** -/
theorem verifyFile_exitCode : (verifyFile sha ed env f).exitCode = 0 ↔
    ∃ pinned, env.pinnedKey = some pinned ∧ Accepted sha ed pinned f := by
  unfold verifyFile Env.pinnedKey
  cases hv : rejectUnversioned f.proof.version f.leafVersion with
  | some message =>
    refine iff_of_false (by simp [LEGACY_EXIT_CODE]) ?_
    rintro ⟨pinned, -, ha⟩
    rw [rejectUnversioned_none.mpr ⟨ha.version, ha.leafVersion⟩] at hv
    exact absurd hv (by simp)
  | none =>
    obtain ⟨hpv, hlv⟩ := rejectUnversioned_none.mp hv
    cases hh : env.homeDir with
    | none => simp
    | some home =>
      cases hk : env.readToString (pinnedKeyPath home) with
      | error e => simp [hk]
      | ok k =>
        simp only [hk, Option.some.injEq, exists_eq_left']
        cases hrows : eventsToRows env.now f.events with
        | none =>
          refine iff_of_false (by simp) fun ha => ?_
          obtain ⟨rows, h1, -⟩ := checkEventStructure_now.mpr ha.structure_ok
          rw [hrows] at h1
          exact absurd h1 (by simp)
        | some rows =>
          simp only [finish_exitCode, checkStructure_ok, checkHead_ok, checkLeavesCount_ok,
            checkSignature_ok, true_and]
          constructor
          · rintro ⟨⟨⟨hsig, hcount⟩, hhead⟩, hok⟩
            exact ⟨hpv, hlv, hsig, hcount, hhead, checkEventStructure_now.mp ⟨rows, hrows, hok⟩⟩
          · intro ha
            obtain ⟨rows', h1, h2⟩ := checkEventStructure_now.mpr ha.structure_ok
            rw [hrows] at h1
            rw [← Option.some.inj h1] at h2
            exact ⟨⟨⟨ha.signature, ha.count⟩, ha.head⟩, h2⟩

theorem main_exitCode : (main sha ed env).exitCode = 0 ↔
    ∃ f, env.proofFile = some f ∧ (verifyFile sha ed env f).exitCode = 0 := by
  unfold main Env.proofFile
  cases env.args[1]? with
  | none => simp
  | some path =>
    cases hr : env.readToString path with
    | error e => simp [hr]
    | ok content =>
      cases hp : env.fromStr content with
      | error e => simp [hr, hp, Except.toOption]
      | ok f => simp [hr, hp, Except.toOption]

/-! ## Completeness -/

/-- The client's file of a signed list, under a signer. -/
def signedFile (ed : Ed25519) (signer : ServerSigner) (t : SignedList sha) (tsa : Option TsaData) :
    EvidentLedger.ProofFile where
  leafVersion := LEAF_VERSION
  chainId := t.chainId.toString
  headEventId := t.head.toString
  proof :=
    { root := t.root
      chainHead := t.head.toString
      signature := signer.signRoot ed t.chainId.toString t.root t.head.toString
      publicKey := signer.publicKeyHex ed
      leavesCount := t.events.length
      version := some PROOF_VERSION
      proofType := some PROOF_TYPE }
  events := t.events.map EventRow.toLeaf
  tsa := tsa

/-- **Completeness of the offline verifier**: what the server signs is accepted under its key. -/
theorem accepted_signedFile (hed : ed.Correct) (signer : ServerSigner) (t : SignedList sha)
    (tsa : Option TsaData) :
    Accepted sha ed (signer.publicKeyHex ed) (signedFile ed signer t tsa).forVerifier where
  version := rfl
  leafVersion := rfl
  signature := by
    refine classifySignature_valid.mpr ⟨rfl, ?_⟩
    rw [normalize_publicKeyHex]
    exact verifyRoot_signRoot hed signer _ _ _
  count := List.length_map _
  head := rfl
  structure_ok := by
    refine ⟨_, eventsToRows_toLeaf 0 t.events, ?_⟩
    rw [checkEventStructure_congr (by rw [List.map_map]; rfl : _ = t.events.map EventRow.content)]
    exact t.checked

/-! ## Soundness -/

/-- The inputs hashed for the events of a file. -/
def HashedIn (sha : Sha256) (H : Set (List UInt8)) (events : List EventLeaf) : Prop :=
  ∀ now rows, eventsToRows now events = some rows → ∀ b ∈ recomputeInputs sha rows, b ∈ H

theorem hashedIn_toLeaf (sha : Sha256) (rows : List EventRow) :
    HashedIn sha {b | b ∈ recomputeInputs sha rows} (rows.map EventRow.toLeaf) := by
  intro now rows' h b hb
  rwa [recomputeInputs_congr (content_of_eventsToRows_toLeaf h)] at hb

/-- An accepted file is the file of a signed list. -/
theorem Accepted.exists_signed (ha : Accepted sha ed pinned f) {S : Set (SignedList sha)}
    {H : Set (List UInt8)} (hH : Set.InjOn sha H)
    (hS : ∀ t ∈ S, ∀ b ∈ recomputeInputs sha t.events, b ∈ H) (hf : HashedIn sha H f.events)
    (hu : Unforged ed (normalizePublicKeyHex pinned) (SignedList.message '' S) f.proof.signature) :
    ∃ t ∈ S, f.chainId = t.chainId.toString ∧ f.proof.root = t.root ∧
      f.proof.chainHead = t.head.toString ∧ f.headEventId = t.head.toString ∧
        (eventsToRows 0 f.events).map (List.map EventRow.content) =
          some (t.events.map EventRow.content) := by
  obtain ⟨-, hv⟩ := classifySignature_valid.mp ha.signature
  obtain ⟨t, ht, hc, hr, hh⟩ := hu.exists_signed hv
  obtain ⟨rows, hrows, hok⟩ := ha.structure_ok
  rw [hr] at hok
  have hcontent := t.content_eq hH (hS t ht) (hf 0 rows hrows) hok
  exact ⟨t, ht, hc, hr, hh, ha.head.trans hh, by rw [hrows, Option.map_some, hcontent]⟩

/-- **Soundness of the offline verifier.** With the lists of `S` the only ones signed, a signature
that verifies for nothing else and no collision among the inputs, an accepted file carries the
chain, root and head of a list of `S` and exactly its events. So no other events, whatever the
count beside them, are accepted in their place. -/
theorem verifier_sound (sha : Sha256) (ed : Ed25519) (env : Env) (pinned : String) (f : ProofFile)
    (S : Set (SignedList sha)) (H : Set (List UInt8)) (hH : Set.InjOn sha H)
    (hS : ∀ t ∈ S, ∀ b ∈ recomputeInputs sha t.events, b ∈ H) (hf : HashedIn sha H f.events)
    (hu : Unforged ed (normalizePublicKeyHex pinned) (SignedList.message '' S) f.proof.signature)
    (hpin : env.pinnedKey = some pinned) (hfile : env.proofFile = some f)
    (hexit : (main sha ed env).exitCode = 0) :
    (∃ t ∈ S, f.chainId = t.chainId.toString ∧ f.proof.root = t.root ∧
      f.proof.chainHead = t.head.toString ∧ f.headEventId = f.proof.chainHead ∧
        ∃ rows, eventsToRows env.now f.events = some rows ∧
          rows.map EventRow.content = t.events.map EventRow.content) ∧
      ∀ (events : List EventLeaf) (count : Nat), HashedIn sha H events →
        (eventsToRows env.now events).map (List.map EventRow.content) ≠
          (eventsToRows env.now f.events).map (List.map EventRow.content) →
        (verifyFile sha ed env
          { f with events := events, proof := { f.proof with leavesCount := count } }).exitCode
            ≠ 0 := by
  obtain ⟨f', hf', hexit'⟩ := main_exitCode.mp hexit
  rw [hfile] at hf'
  rw [← Option.some.inj hf'] at hexit'
  obtain ⟨k, hk, ha⟩ := verifyFile_exitCode.mp hexit'
  rw [hpin] at hk
  rw [← Option.some.inj hk] at ha
  obtain ⟨t, ht, hc, hr, hh, -, hevents⟩ := ha.exists_signed hH hS hf hu
  refine ⟨⟨t, ht, hc, hr, hh, ha.head, ?_⟩, ?_⟩
  · rw [eventsToRows_content 0 env.now] at hevents
    exact Option.map_eq_some_iff.mp hevents
  · intro events count hin hne hexit2
    obtain ⟨k2, hk2, ha2⟩ := verifyFile_exitCode.mp hexit2
    rw [hpin] at hk2
    rw [← Option.some.inj hk2] at ha2
    obtain ⟨t2, ht2, -, hr2, -, -, hevents2⟩ := ha2.exists_signed hH hS hin hu
    -- the two lists have one root, so they are one list
    have hroot : t2.root = t.root := hr2.symm.trans hr
    have hsame := t.content_eq hH (hS t ht) (hS t2 ht2) (hroot ▸ t2.checked)
    rw [hsame, ← hevents, eventsToRows_content 0 env.now, eventsToRows_content 0 env.now] at hevents2
    exact hne hevents2

/-- The list of `sampleEvents`, signed. -/
def sampleSigned : SignedList sampleSha where
  chainId := Uuid.small 9
  events := sampleEvents 0
  nonempty := by decide
  checked := by decide +kernel

/-- The signer of thirty-two zero bytes, its public key, and signatures that tell the message of
`sampleSigned` from every other. -/
def sampleSigner : ServerSigner := ⟨⟨List.replicate 32 0, rfl⟩⟩

def sampleKey : String := hexEncode (List.replicate 32 0)

def fileEd : Ed25519 := sampleEd [sampleSigned.message]

def sampleFile : ProofFile :=
  (signedFile fileEd sampleSigner sampleSigned none).forVerifier

/-- A home directory with a pinned key, and a file. -/
def sampleEnv (key : String) (f : ProofFile) : Env where
  args := ["evident-verify", "proof.json"]
  readToString _ := .ok key
  read _ := none
  fromStr _ := .ok f
  homeDir := some "/home/evident"
  serverUrl := none
  now := 7

theorem verifier_sound_sampleFile :
    (∃ t ∈ ({sampleSigned} : Set (SignedList sampleSha)),
      sampleFile.chainId = t.chainId.toString ∧ sampleFile.proof.root = t.root ∧
        sampleFile.proof.chainHead = t.head.toString ∧
        sampleFile.headEventId = sampleFile.proof.chainHead ∧
        ∃ rows, eventsToRows 7 sampleFile.events = some rows ∧
          rows.map EventRow.content = t.events.map EventRow.content) ∧
      ∀ (events : List EventLeaf) (count : Nat),
        HashedIn sampleSha {b | b ∈ recomputeInputs sampleSha sampleSigned.events} events →
        (eventsToRows 7 events).map (List.map EventRow.content) ≠
          (eventsToRows 7 sampleFile.events).map (List.map EventRow.content) →
        (verifyFile sampleSha fileEd
          (sampleEnv sampleKey sampleFile)
          { sampleFile with
            events := events, proof := { sampleFile.proof with leavesCount := count } }).exitCode
            ≠ 0 :=
  verifier_sound sampleSha fileEd
    (sampleEnv sampleKey sampleFile) sampleKey
    sampleFile {sampleSigned} {b | b ∈ recomputeInputs sampleSha sampleSigned.events}
    (by
      have h : ∀ x ∈ recomputeInputs sampleSha sampleSigned.events,
          ∀ y ∈ recomputeInputs sampleSha sampleSigned.events,
            sampleSha x = sampleSha y → x = y := by decide +kernel
      exact fun x hx y hy => h x hx y hy)
    (by rintro t rfl b hb; exact hb)
    (hashedIn_toLeaf sampleSha (sampleEvents 0))
    (by
      have h := @sampleEd_unforged [sampleSigned.message] (by decide) sampleSigned.message
        List.mem_cons_self (normalizePublicKeyHex sampleKey)
        ⟨List.replicate 32 0, rfl⟩
      intro c r hd hv
      obtain he := List.mem_singleton.mp (h c r hd hv)
      exact ⟨sampleSigned, rfl, he.symm⟩)
    (by decide +kernel) rfl
    (main_exitCode.mpr ⟨sampleFile, rfl, verifyFile_exitCode.mpr
      ⟨sampleKey, by decide +kernel,
        accepted_signedFile (sampleEd_correct _) sampleSigner sampleSigned none⟩⟩)

end Verifier

end EvidentLedger
