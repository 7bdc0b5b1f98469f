import EvidentLedger.Desktop
import EvidentLedger.Ledger.ClientProof

/-!
# Projects of the desktop

What the window shows for a project whose proofs directory holds the files of the replies that its
commits were given (`do_commit`, `evident-gui-app/src/main.rs:1911-2085`, and `CommitDone`): every commit
leaves a whole proof file of the chain, and `load_local_proof` takes the one with the most events.

* `bestProof_spec`: the file taken is one of the directory, and none has more events.
* `localEvents_linked`: the rows of a linked chain are shown as an unbroken one.
* `validateChain_linked`: the list on the screen finds no gap in them (`validate_chain`, 1561-1592).
* `clientFile_chain`: the file of a reply has a prefix of the events of its chain as it is in the end.
* `Delivered` is such a directory, `Differs` a recorded local copy whose hash is not that of the proof.

## Results

* **`project_shown`**: the window takes a file that has the events of all the others, that
  `evident-verify` accepts, and whose events are the first ones of the chain in the ledger. It shows
  `Valid` exactly if no recorded copy of an event differs, and otherwise `Partly`.
-/

namespace EvidentLedger.Ledger

open Lib.Interleave Lib.Transaction Lib.Text
open Desktop (World App DirEntry VerificationEvent bestProof loadLocalProof localEvents
  buildLocalEvents checkLocalIntegrity localChainOk localTampered loadProject keyAtHand
  verifyProject verifyLocal verifySignature SignatureValid VerifierAccepts LocallyIntact)

/-! ## The file that is taken -/

section Best

variable {world : World} {entries : List DirEntry} {best : Option ProofFile} {f : ProofFile}

/-- The file taken so far has at least as many events as another. -/
def AtLeast (best : Option ProofFile) (f : ProofFile) : Prop :=
  ∃ b, best = some b ∧ f.events.length ≤ b.events.length

/-- **The file taken** is one of those looked at, and has the most events. -/
theorem bestProof_spec (world : World) (best : Option ProofFile) (entries : List DirEntry) :
    (∀ f, bestProof world best entries = some f →
      best = some f ∨ ∃ entry ∈ entries, entry.proof world = some f) ∧
    (∀ b, best = some b → AtLeast (bestProof world best entries) b) ∧
    ∀ entry ∈ entries, ∀ f, entry.proof world = some f →
      AtLeast (bestProof world best entries) f := by
  induction entries generalizing best with
  | nil => exact ⟨fun f hf => Or.inl hf, fun b hb => ⟨b, hb, le_rfl⟩, by simp⟩
  | cons entry entries ih =>
    -- one more file: `next` is the better of the two
    have hstep : ∃ next, bestProof world best (entry :: entries) = bestProof world next entries ∧
        (∀ f, next = some f → best = some f ∨ entry.proof world = some f) ∧
        (∀ b, best = some b → AtLeast next b) ∧
        ∀ f, entry.proof world = some f → AtLeast next f := by
      cases hproof : entry.proof world with
      | none =>
        refine ⟨best, by rw [bestProof, hproof], fun f hf => Or.inl hf, fun b hb => ⟨b, hb, le_rfl⟩, ?_⟩
        exact fun f hf => absurd hf (by simp)
      | some proof =>
        cases best with
        | none =>
          refine ⟨some proof, by rw [bestProof, hproof], fun f hf => Or.inr hf, ?_, ?_⟩
          · exact fun b hb => absurd hb (by simp)
          · exact fun f hf => ⟨proof, rfl, by rw [Option.some.inj hf]⟩
        | some b =>
          by_cases hmore : proof.events.length > b.events.length
          · refine ⟨some proof, by simp only [bestProof, hproof, if_pos hmore], fun f hf => Or.inr hf, ?_, ?_⟩
            · exact fun b' hb => ⟨proof, rfl, by rw [← Option.some.inj hb]; exact hmore.le⟩
            · exact fun f hf => ⟨proof, rfl, by rw [Option.some.inj hf]⟩
          · refine ⟨some b, by simp only [bestProof, hproof, if_neg hmore], fun f hf => Or.inl hf, ?_, ?_⟩
            · exact fun b' hb => ⟨b, rfl, by rw [Option.some.inj hb]⟩
            · exact fun f hf => ⟨b, rfl, by rw [← Option.some.inj hf]; exact not_lt.mp hmore⟩
    obtain ⟨next, heq, hfrom, hbest, hentry⟩ := hstep
    obtain ⟨ihfrom, ihbest, ihentries⟩ := ih next
    have hleast : ∀ f, AtLeast next f → AtLeast (bestProof world next entries) f := by
      rintro f ⟨b, hb, hle⟩
      obtain ⟨b', hb', hle'⟩ := ihbest b hb
      exact ⟨b', hb', hle.trans hle'⟩
    rw [heq]
    refine ⟨fun f hf => ?_, fun b hb => hleast b (hbest b hb), fun entry' hmem f hf => ?_⟩
    · rcases ihfrom f hf with hnext | ⟨entry', hmem, hf'⟩
      · rcases hfrom f hnext with hold | hnew
        · exact Or.inl hold
        · exact Or.inr ⟨entry, List.mem_cons_self, hnew⟩
      · exact Or.inr ⟨entry', List.mem_cons_of_mem _ hmem, hf'⟩
    · rcases List.mem_cons.mp hmem with rfl | hmem
      · exact hleast f (hentry f hf)
      · exact ihentries entry' hmem f hf

end Best

/-! ## The events that are shown -/

inductive ChainValidationError where
  | invalidSequence (index : Nat) (sequence : Int64)
  | sequenceBreak (index : Nat) (expected actual : Int64)
  | missingHeadEventId

/-- The loop of `validate_chain`. -/
def validateSequences (index : Nat) : List VerificationEvent → Except ChainValidationError Unit
  | [] => .ok ()
  | event :: events =>
    if event.sequence ≤ 0 then .error (.invalidSequence index event.sequence)
    else if event.sequence ≠ Int64.ofNat index + 1 then
      .error (.sequenceBreak index (Int64.ofNat index + 1) event.sequence)
    else validateSequences (index + 1) events

/-- `validate_chain`, before the list of events is drawn. -/
def validateChain (events : List VerificationEvent) (headEventId : Option String) :
    Except ChainValidationError Unit := do
  if events.isEmpty then throw .missingHeadEventId
  validateSequences 0 events
  if headEventId.isNone then throw .missingHeadEventId

section Shown

variable {sha : Sha256} {ed : Ed25519} {world : World} {app : App} {proofsDir : String}
  {f : ProofFile} {rows : List EventRow} {prev : Option EventRow}

/-- The state of the recorded copy of an event: none, the same, or another one. -/
def copyState (sha : Sha256) (world : World) (proofsDir : String) (leaf : EventLeaf) : Option Bool :=
  (world.localCopies proofsDir leaf.eventId).bind fun path =>
    checkLocalIntegrity sha world path leaf.fileHash

/-- A recorded copy of an event of the file differs from its hash. -/
def Differs (sha : Sha256) (world : World) (proofsDir : String) (f : ProofFile) : Prop :=
  ∃ leaf ∈ f.events, copyState sha world proofsDir leaf = some false

/-- An event whose parent is the event before it. -/
def shownEvent (sha : Sha256) (world : World) (proofsDir : String) (leaf : EventLeaf) :
    VerificationEvent :=
  ⟨leaf.sequence, leaf.eventId, true, none, .none, copyState sha world proofsDir leaf⟩

/-- **A linked chain is shown as unbroken.** -/
theorem localEvents_linked (hl : Linked prev rows) :
    localEvents sha world proofsDir (lastEventId prev).toString (rows.map EventRow.toLeaf) =
      (rows.map EventRow.toLeaf).map (shownEvent sha world proofsDir) := by
  induction rows generalizing prev with
  | nil => rfl
  | cons row rows ih =>
    obtain ⟨-, hparent, hrest⟩ := hl
    have hok : (row.toLeaf.parentEventId == (lastEventId prev).toString) = true := by
      rw [← hparent]
      exact beq_self_eq_true _
    rw [List.map_cons, localEvents, List.map_cons]
    simp only [hok, if_true]
    rw [← ih hrest]
    rfl

/-- It is in the order of its sequences. -/
theorem sorted_linked (hl : Linked none rows) :
    (rows.map EventRow.toLeaf).Pairwise fun a b => a.sequence ≤ b.sequence := by
  rw [List.pairwise_map, List.pairwise_iff_getElem]
  intro i j hi hj hij
  have hseqi := hl.sequence_eq i hi
  have hseqj := hl.sequence_eq j hj
  change rows[i].sequence ≤ rows[j].sequence
  rw [Int64.le_iff_toInt_le, hseqi, hseqj]
  omega

theorem buildLocalEvents_linked (hl : Linked none rows) (hf : f.events = rows.map EventRow.toLeaf) :
    buildLocalEvents sha world f proofsDir = f.events.map (shownEvent sha world proofsDir) := by
  unfold buildLocalEvents
  rw [hf, (sorted_linked hl).insertionSort_eq]
  exact localEvents_linked hl

theorem localChainOk_linked (hl : Linked none rows) (hf : f.events = rows.map EventRow.toLeaf) :
    localChainOk (buildLocalEvents sha world f proofsDir) = true := by
  rw [buildLocalEvents_linked hl hf, localChainOk, List.all_map, List.all_eq_true]
  exact fun leaf _ => rfl

theorem localTampered_linked (hl : Linked none rows) (hf : f.events = rows.map EventRow.toLeaf) :
    localTampered (buildLocalEvents sha world f proofsDir) = true ↔ Differs sha world proofsDir f := by
  rw [buildLocalEvents_linked hl hf, localTampered, List.any_map, List.any_eq_true]
  simp only [Function.comp_apply, shownEvent, beq_iff_eq, Differs]

theorem locallyIntact_linked (hl : Linked none rows) (hf : f.events = rows.map EventRow.toLeaf) :
    LocallyIntact sha world f proofsDir ↔ ¬ Differs sha world proofsDir f := by
  constructor
  · rintro ⟨-, hclean⟩ hdiffers
    rw [(localTampered_linked hl hf).mpr hdiffers] at hclean
    exact absurd hclean (by simp)
  · intro hnone
    refine ⟨localChainOk_linked hl hf, ?_⟩
    by_contra htampered
    exact hnone ((localTampered_linked hl hf).mp (by simpa using htampered))

/-- **It has no gap**: the sequences are counted from where they went on. -/
theorem validateSequences_linked {index : Nat} (hl : Linked prev rows)
    (hindex : lastSequence prev = index) (hlen : index + rows.length < 2 ^ 63) :
    validateSequences index ((rows.map EventRow.toLeaf).map (shownEvent sha world proofsDir)) =
      .ok () := by
  induction rows generalizing prev index with
  | nil => rfl
  | cons row rows ih =>
    obtain ⟨hseq, -, hrest⟩ := hl
    rw [hindex] at hseq
    rw [List.length_cons] at hlen
    have hnext : row.sequence = Int64.ofNat index + 1 := by
      have hof : Int64.ofNat index + 1 = Int64.ofNat (index + 1) := (Int64.ofNat_add index 1).symm
      rw [hof, ← Int64.toInt_inj, hseq, Int64.toInt_ofNat_of_lt (by omega)]
      rfl
    have hpos : ¬ row.sequence ≤ 0 := by
      rw [Int64.le_iff_toInt_le, hseq, Int64.toInt_zero]
      omega
    rw [List.map_cons, List.map_cons, validateSequences]
    change (if row.sequence ≤ 0 then _ else if row.sequence ≠ Int64.ofNat index + 1 then _ else _) = _
    rw [if_neg hpos, if_neg (not_not_intro hnext)]
    exact ih hrest hseq (by omega)

theorem validateChain_linked {head : String} (hne : rows ≠ []) (hl : Linked none rows)
    (hf : f.events = rows.map EventRow.toLeaf) :
    validateChain (f.events.map (shownEvent sha world proofsDir)) (some head) = .ok () := by
  have hsome : (f.events.map (shownEvent sha world proofsDir)).isEmpty = false := by
    rw [hf]
    simpa using hne
  have hsequences : validateSequences 0 (f.events.map (shownEvent sha world proofsDir)) = .ok () := by
    rw [hf]
    exact validateSequences_linked hl rfl (by simpa using hl.length_lt)
  unfold validateChain
  rw [hsome, hsequences]
  rfl

/-- A signature that is valid under the key at hand leaves the outcome. -/
theorem verifySignature_status (hlast : app.lastProof = some f)
    (hsig : ∀ ks, keyAtHand world app = some ks → SignatureValid ed f ks.1) :
    (verifySignature ed world app).verifyStatus = app.verifyStatus := by
  unfold verifySignature
  rw [hlast]
  cases ht : Desktop.trustedPublicKey world app with
  | mk key app' =>
    obtain ⟨hkey, hstatus, -, -⟩ := Desktop.trustedPublicKey_spec ht
    cases hk : keyAtHand world app with
    | none =>
      rw [hk] at hkey
      subst hkey
      exact hstatus
    | some ks =>
      rw [hk] at hkey
      subst hkey
      have hvalid := hsig ks hk
      unfold SignatureValid at hvalid
      simp only [Option.map_some, hvalid]
      exact hstatus

/-- The events and the head that are shown. -/
def picture (app : App) : List VerificationEvent × Option String :=
  (app.verificationEvents, app.headEventId)

theorem picture_setVerifyOutcome (app : App) (status : Desktop.VerifyStatus)
    (details : Desktop.VerifyDetailsState) :
    picture (Desktop.setVerifyOutcome app status details) = picture app := rfl

theorem trustedPublicKey_picture {key : Option String} {app' : App}
    (h : Desktop.trustedPublicKey world app = (key, app')) : picture app' = picture app := by
  unfold Desktop.trustedPublicKey at h
  split at h
  · rw [(Prod.mk.inj h).2]
  · split at h
    · rw [(Prod.mk.inj h).2]
    · split at h
      · rw [← (Prod.mk.inj h).2]
        split_ifs <;> rfl
      · rw [(Prod.mk.inj h).2]

/-- The signature part leaves them. -/
theorem verifySignature_picture : picture (verifySignature ed world app) = picture app := by
  unfold verifySignature
  split
  · rfl
  · split
    · rename_i htrusted
      exact trustedPublicKey_picture htrusted
    · rename_i htrusted
      have hsame := trustedPublicKey_picture htrusted
      split
      · exact hsame
      · exact (picture_setVerifyOutcome _ _ _).trans hsame
      · exact (picture_setVerifyOutcome _ _ _).trans hsame

/-- They are those of the file taken. -/
theorem verifyProject_picture {project : Desktop.Project}
    (hload : loadProject world app = some (project, proofsDir))
    (hproof : loadLocalProof world proofsDir = some f) :
    picture (verifyProject sha ed world app) =
      (buildLocalEvents sha world f proofsDir, some f.headEventId) := by
  have hlocal : picture (verifyLocal sha world app.started proofsDir) =
      (buildLocalEvents sha world f proofsDir, some f.headEventId) := by
    unfold verifyLocal
    rw [hproof]
    dsimp only
    split_ifs <;> rfl
  unfold verifyProject
  rw [hload]
  exact verifySignature_picture.trans hlocal

/-- **A copy that differs** is told. -/
theorem verifyProject_partly {project : Desktop.Project}
    (hload : loadProject world app = some (project, proofsDir))
    (hproof : loadLocalProof world proofsDir = some f) (hl : Linked none rows)
    (hf : f.events = rows.map EventRow.toLeaf) (hdiffers : Differs sha world proofsDir f)
    (hsig : ∀ ks, keyAtHand world app = some ks → SignatureValid ed f ks.1) :
    (verifyProject sha ed world app).verifyStatus = .partly := by
  obtain ⟨hlast, hpinned, -⟩ := Desktop.verifyLocal_some sha app.started hproof
  have hkey : keyAtHand world (verifyLocal sha world app.started proofsDir).completed =
      keyAtHand world app := Desktop.keyAtHand_congr hpinned
  have hlast' : (verifyLocal sha world app.started proofsDir).completed.lastProof = some f := hlast
  unfold verifyProject
  rw [hload]
  change (verifySignature ed world (verifyLocal sha world app.started proofsDir).completed).verifyStatus = _
  rw [verifySignature_status hlast' (by rwa [hkey])]
  change (verifyLocal sha world app.started proofsDir).verifyStatus = _
  unfold verifyLocal
  rw [hproof]
  simp only [localChainOk_linked hl hf, (localTampered_linked hl hf).mpr hdiffers, Bool.not_true,
    Bool.false_eq_true, if_false, if_true]
  rfl

end Shown

/-! ## The directory of a project -/

section Delivery

variable {x : Setting} {p : Nat} {account c : Uuid} {req : SubmitEventRequest} {db : Db}
  {h : History schema} {response : CommitResponse} {state : AppState}

/-- A file signed for the first events of a chain. -/
def SignedPrefix (state : AppState) (db : Db) (c : Uuid) (f : ProofFile) (events : List EventRecord) :
    Prop :=
  events <+: db.eventsOf c ∧ f.events = (rows events).map EventRow.toLeaf ∧
    ∃ (t : SignedList state.sha) (tsa : Option TsaData), t.events = rows events ∧
      f = Verifier.signedFile state.ed state.signer t tsa

/-- **The file of a reply is signed for the first events of its chain**, if the query that reads them
found the chain as it was signed. -/
theorem clientFile_chain (hr : x.Inv db h) (hi : LedgerInv x.state x.db₀)
    (hcalm : ∀ g, x.ok p (.sql (.selectChainEvents .finalizeEventSubmission req.chainId)) g →
      OwnLast p req.chainId g)
    (hanswered : Answered x p account req h response) :
    ∃ events, SignedPrefix x.state db response.chainId (clientFile response) events := by
  obtain ⟨eventId, snapshot, after, sequence, events, tsa, rfl, g, hok, hdb, hp, hlanded, rfl⟩ :=
    hanswered
  have hr' : x.Inv g.db g.history := by
    rw [hdb]
    exact hr.of_prefix hp
  obtain ⟨before, e, hrows, hprefix, hl, rfl, rfl⟩ := Landed.readBack hr' hi hlanded (hcalm g hok)
  have hlater : g.db.eventsOf req.chainId <+: db.eventsOf req.chainId := by
    rw [hdb]
    exact (hr.events hp).filter (·.chainId == req.chainId)
  have hhead : (signedRows x.state req.chainId hl).head = e.eventId := lastEventId_append before e
  refine ⟨before ++ [e], hprefix.trans hlater, ?_, signedRows x.state req.chainId hl, tsa, rfl, ?_⟩
  · rw [hrows]
    rfl
  · unfold clientFile Verifier.signedFile
    rw [hhead, hrows]
    rfl

/-- The proofs directory of a project: its proofs are files of replies for the project's chain to the
requests `mine`, and there is one. -/
structure Delivered (y : LedgerConfig) (mine : Nat → Prop) (c : Uuid) (world : World)
    (proofsDir : String) (entries : List DirEntry) : Prop where
  listed : world.readDir proofsDir = some entries
  proofs : ∀ entry ∈ entries, ∀ f, entry.proof world = some f → ∃ p response, mine p ∧
    (y.procs p).1.result = some (.event (.ok (.committed response))) ∧ response.chainId = c ∧
      f = clientFile response
  nonempty : ∃ entry ∈ entries, (entry.proof world).isSome = true

/-- What the window shows of a project. -/
structure ProjectShown (state : AppState) (db : Db) (c : Uuid) (world : World) (app : App)
    (proofsDir : String) (entries : List DirEntry) (f : ProofFile) : Prop where
  taken : (verifyProject state.sha state.ed world app).lastProof = some f
  accepted : VerifierAccepts state.sha state.ed (some (state.signer.publicKeyHex state.ed)) f
  stored : ∃ events, SignedPrefix state db c f events
  listed : (verifyProject state.sha state.ed world app).verificationEvents =
    f.events.map (shownEvent state.sha world proofsDir)
  unbroken : validateChain (verifyProject state.sha state.ed world app).verificationEvents
    (verifyProject state.sha state.ed world app).headEventId = .ok ()
  covers : ∀ entry ∈ entries, ∀ f', entry.proof world = some f' → f'.events <+: f.events
  valid : ¬ Differs state.sha world proofsDir f →
    (verifyProject state.sha state.ed world app).verifyStatus = .valid
  partly : Differs state.sha world proofsDir f →
    (verifyProject state.sha state.ed world app).verifyStatus = .partly

end Delivery

/-- **What the desktop shows for a project**: all the events it has committed, accepted offline, and
`Valid` as long as the files are as they were committed. -/
theorem project_shown (state : AppState) (hed : state.ed.Correct) (requests : Nat → Request)
    (capabilities : Uuid → Option AccountCapabilities) (identityKeys : List IdentityKeyRow)
    (mine : Nat → Prop) (y : LedgerConfig)
    (hy : Reach (system schema)
      (allowed fun q reader => mine q ∧ reader = .finalizeEventSubmission)
      (start state requests (Db.empty capabilities identityKeys)) y)
    (c : Uuid) (world : World) (app : App) (project : Desktop.Project) (proofsDir : String)
    (hload : loadProject world app = some (project, proofsDir)) (entries : List DirEntry)
    (hdir : Delivered y mine c world proofsDir entries)
    (hkey : ∀ ks, keyAtHand world app = some ks → ks.1 = state.signer.publicKeyHex state.ed) :
    ∃ f, ProjectShown state y.shared.db c world app proofsDir entries f := by
  let x : Setting := .quiet (fun q reader => mine q ∧ reader = .finalizeEventSubmission) state requests
    capabilities identityKeys
  have hx : x.Reach (start x.state x.requests x.db₀) y := hy
  obtain ⟨hr, hreplies⟩ := ledger_reach hx
  have hsigned : ∀ entry ∈ entries, ∀ f, entry.proof world = some f →
      ∃ events, SignedPrefix state y.shared.db c f events := by
    intro entry hmem f hf
    obtain ⟨p, response, hmine, hreply, rfl, rfl⟩ := hdir.proofs entry hmem f hf
    obtain ⟨account, req, -, hanswered⟩ := hreplies p _ hreply
    exact clientFile_chain hr (ledgerInv_empty _ _) (fun g hok => hok _ rfl ⟨hmine, rfl⟩) hanswered
  obtain ⟨hfrom, -, hmost⟩ := bestProof_spec world none entries
  obtain ⟨entry₀, hmem₀, hsome₀⟩ := hdir.nonempty
  obtain ⟨f₀, hf₀⟩ := Option.isSome_iff_exists.mp hsome₀
  obtain ⟨f, hbest, -⟩ := hmost entry₀ hmem₀ f₀ hf₀
  have hproof : loadLocalProof world proofsDir = some f := by
    rw [loadLocalProof, hdir.listed]
    exact hbest
  obtain ⟨entry, hmem, hf⟩ := (hfrom f hbest).resolve_left (by simp)
  obtain ⟨events, hp, hleaves, t, tsa, ht, htf⟩ := hsigned entry hmem f hf
  have hl : Linked none (rows events) := ht ▸ t.linked
  have haccepted : Verifier.Accepted state.sha state.ed (state.signer.publicKeyHex state.ed)
      f.forVerifier := by
    rw [htf]
    exact Verifier.accepted_signedFile hed state.signer t tsa
  have hsig : ∀ ks, keyAtHand world app = some ks → SignatureValid state.ed f ks.1 := by
    intro ks hks
    rw [hkey ks hks]
    exact haccepted.signature
  obtain ⟨hlast, hvalid, -⟩ := Desktop.verifyProject_some state.sha state.ed hload hproof
  obtain ⟨hshown, hhead⟩ := Prod.mk.inj (verifyProject_picture hload hproof)
  rw [buildLocalEvents_linked hl hleaves] at hshown
  refine ⟨f, hlast, fun env henv => Verifier.verifyFile_exitCode.mpr ⟨_, henv, haccepted⟩,
    ⟨events, hp, hleaves, t, tsa, ht, htf⟩, hshown, ?_, fun entry' hmem' f' hf' => ?_, fun hsame => ?_,
    fun hdiffers => verifyProject_partly hload hproof hl hleaves hdiffers hsig⟩
  · rw [hshown, hhead]
    exact validateChain_linked (ht ▸ t.nonempty) hl hleaves
  · -- two prefixes of one chain, and the one taken is not the shorter one
    obtain ⟨events', hp', hleaves', -⟩ := hsigned entry' hmem' f' hf'
    obtain ⟨b, hb, hle⟩ := hmost entry' hmem' f' hf'
    obtain rfl := Option.some.inj (hb.symm.trans hbest)
    rw [hleaves, hleaves', List.length_map, List.length_map, rows, rows, List.length_map,
      List.length_map] at hle
    rw [hleaves, hleaves']
    exact ((List.prefix_of_prefix_length_le hp' hp hle).map _).map _
  · exact hvalid.mpr ⟨(locallyIntact_linked hl hleaves).mpr hsame, hsig⟩

/-! ## A project -/

section Samples

/-- A machine whose project has the proof file of one reply. -/
def sampleDesk (response : CommitResponse) : World :=
  { Desktop.sampleWorld with parseProof := fun _ => some (clientFile response) }

/-- The window on it, with the key of the server. -/
def samplePinned : App :=
  { Desktop.sampleApp with pinnedFile := some (sampleState.signer.publicKeyHex sampleState.ed) }

theorem project_shown_sampleRun : ∃ (response : CommitResponse) (f : ProofFile),
    (verifyProject sampleState.sha sampleState.ed (sampleDesk response) samplePinned).lastProof =
      some f ∧
    (verifyProject sampleState.sha sampleState.ed (sampleDesk response) samplePinned).verifyStatus =
      .valid := by
  have hrun : (sampleStart.run (system schema)
      (allowed fun q reader => q = 0 ∧ reader = .finalizeEventSubmission)
      (sampleSteps 0 15 20 none ++ sampleSteps 0 6 20 none)).map
        (fun y => (committedReply y 0).isSome) = some true := by decide +kernel
  obtain ⟨y, hy, hsome⟩ := Reach.exists_of_run hrun
  obtain ⟨response, hresponse⟩ := Option.isSome_iff_exists.mp hsome
  have hreply := result_of_committedReply hresponse
  have hload : loadProject (sampleDesk response) samplePinned =
      some (⟨"audit", (Uuid.small 9).toString, ""⟩, "/home/evident/Evident Projects/audit/proofs") := by
    have hsame : loadProject (sampleDesk response) samplePinned =
        loadProject Desktop.sampleWorld Desktop.sampleApp := rfl
    rw [hsame]
    decide +kernel
  have hdir : Delivered y (· = 0) response.chainId (sampleDesk response)
      "/home/evident/Evident Projects/audit/proofs" [⟨some "json", some ""⟩] := by
    refine ⟨rfl, fun entry hmem f hf => ?_, ⟨_, List.mem_cons_self, rfl⟩⟩
    obtain rfl := List.mem_singleton.mp hmem
    exact ⟨0, response, rfl, hreply, rfl, (Option.some.inj hf).symm⟩
  obtain ⟨f, hshown⟩ := project_shown sampleState (sampleEd_correct []) sampleRequests
    sampleCapabilities [] (· = 0) y hy response.chainId (sampleDesk response) samplePinned _ _ hload
    [⟨some "json", some ""⟩] hdir fun ks hks => by
      rw [← Option.some.inj hks]
      exact trim_of_hexDecode (hexDecode_hexEncode _)
  refine ⟨response, f, hshown.taken, hshown.valid ?_⟩
  rintro ⟨leaf, -, hcopy⟩
  exact Option.some_ne_none _ hcopy.symm

end Samples

end EvidentLedger.Ledger
