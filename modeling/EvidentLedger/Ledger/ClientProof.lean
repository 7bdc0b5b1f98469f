import EvidentLedger.Verifier
import EvidentLedger.Ledger.ChainStore
import EvidentLedger.Ledger.ReadBack

/-!
# The client's proof file

The file `submit_event_with_meta` (`src/client.rs:314-334`) writes for a response of `POST /events`,
and what `evident-verify` says about it. Root, signature and head of a response come from the
snapshot inside the transaction, its events from a query on the pool after the commit
(`src/service/ledger.rs:395-472`).

* `clientFile_answered`: if the query found the chain as it was signed, the file is the signed file
  of these events.
* **`submitted_proof_verifies`**: so it is accepted in every run where that query of the request
  finds the request's own event last, whatever else the requests do in between.
* `submitted_proof_rejected`: with another commit before the query, it is not.
-/

namespace EvidentLedger.Ledger

open Lib.Interleave Lib.Transaction Lib.Text

/-- The proof file built from a response. -/
def clientFile (commit : CommitResponse) : ProofFile where
  leafVersion := LEAF_VERSION
  chainId := commit.chainId.toString
  headEventId := commit.headEventId.toString
  proof :=
    { commit.proof with
      version := commit.proof.version.or (some PROOF_VERSION)
      proofType := commit.proof.proofType.or (some PROOF_TYPE) }
  events := commit.events
  tsa := commit.tsa

variable {response : CommitResponse}

/-- The last of the rows has the id of the last event. -/
theorem lastEventId_append (before : List EventRecord) (e : EventRecord) :
    lastEventId (rows (before ++ [e])).getLast? = e.eventId := by
  rw [lastEventId_rows, headId, List.getLast?_concat]
  rfl

/-- Linked rows, as a list that is signed for. -/
def signedRows (state : AppState) (c : Uuid) {before : List EventRecord} {e : EventRecord}
    (hl : Linked none (rows (before ++ [e]))) : SignedList state.sha where
  chainId := c
  events := rows (before ++ [e])
  nonempty := by simp [rows]
  checked := (checkEventStructure_ok (by simp [rows])).mpr ⟨hl, rfl⟩

/-- **The chain read as it was signed**: the file is the one signed for it. -/
theorem clientFile_answered {x : Setting} {p : Nat} {account : Uuid} {req : SubmitEventRequest}
    {db : Db} {h : History schema} (hr : x.Inv db h) (hi : LedgerInv x.state x.db₀)
    (hcalm : ∀ g, x.ok p (.sql (.selectChainEvents .finalizeEventSubmission req.chainId)) g →
      OwnLast p req.chainId g)
    (hanswered : Answered x p account req h response) :
    ∃ t : SignedList x.state.sha, ∃ tsa,
      clientFile response = Verifier.signedFile x.state.ed x.state.signer t tsa := by
  obtain ⟨eventId, snapshot, after, sequence, events, tsa, rfl, g, hok, hdb, hp, hlanded, rfl⟩ :=
    hanswered
  have hr' : x.Inv g.db g.history := by
    rw [hdb]
    exact hr.of_prefix hp
  obtain ⟨before, e, hrows, -, hl, rfl, rfl⟩ := Landed.readBack hr' hi hlanded (hcalm g hok)
  refine ⟨signedRows x.state req.chainId hl, tsa, ?_⟩
  have hhead : (signedRows x.state req.chainId hl).head = e.eventId := lastEventId_append before e
  unfold clientFile Verifier.signedFile
  rw [hhead, hrows]
  rfl

/-- **The proof returned verifies offline**, in every run where the last read of the request finds
its own event last. -/
theorem submitted_proof_verifies (state : AppState) (hed : state.ed.Correct)
    (requests : Nat → Request) (capabilities : Uuid → Option AccountCapabilities)
    (identityKeys : List IdentityKeyRow) (p : Nat) (y : LedgerConfig)
    (hy : Reach (system schema)
      (allowed fun q reader => q = p ∧ reader = .finalizeEventSubmission)
      (start state requests (Db.empty capabilities identityKeys)) y)
    (response : CommitResponse)
    (hreply : (y.procs p).1.result = some (.event (.ok (.committed response))))
    (env : Verifier.Env) (hpin : env.pinnedKey = some (state.signer.publicKeyHex state.ed))
    (hfile : env.proofFile = some (clientFile response).forVerifier) :
    (Verifier.main state.sha state.ed env).exitCode = 0 := by
  let x : Setting := .quiet (fun q reader => q = p ∧ reader = .finalizeEventSubmission) state requests
    capabilities identityKeys
  have hx : x.Reach (start x.state x.requests x.db₀) y := hy
  obtain ⟨hr, hreplies⟩ := ledger_reach hx
  obtain ⟨account, req, -, hanswered⟩ := hreplies p _ hreply
  obtain ⟨t, tsa, hsigned⟩ := clientFile_answered hr (ledgerInv_empty _ _)
    (fun g hok => hok _ rfl ⟨rfl, rfl⟩) hanswered
  rw [hsigned] at hfile
  exact Verifier.main_exitCode.mpr ⟨_, hfile, Verifier.verifyFile_exitCode.mpr
    ⟨_, hpin, Verifier.accepted_signedFile hed state.signer t tsa⟩⟩

/-! ## Two runs -/

/-- The response of a committed legacy request. -/
def committedReply (y : LedgerConfig) (p : Nat) : Option CommitResponse :=
  match (y.procs p).1.result with
  | some (.event (.ok (.committed response))) => some response
  | _ => none

theorem result_of_committedReply {y : LedgerConfig} {p : Nat}
    (h : committedReply y p = some response) :
    (y.procs p).1.result = some (.event (.ok (.committed response))) := by
  unfold committedReply at h
  split at h
  · rw [← Option.some.inj h]
    assumption
  · exact absurd h (by simp)

/-- A home directory with the server's key and the client's file. -/
def sampleHome (response : CommitResponse) : Verifier.Env :=
  Verifier.sampleEnv (sampleState.signer.publicKeyHex sampleState.ed)
    (clientFile response).forVerifier

theorem pinnedKey_sampleHome (response : CommitResponse) :
    (sampleHome response).pinnedKey = some (sampleState.signer.publicKeyHex sampleState.ed) :=
  congrArg some (trim_of_hexDecode (hexDecode_hexEncode _))

theorem submitted_proof_verifies_sampleRun :
    ∃ (y : LedgerConfig) (response : CommitResponse),
      (y.procs 0).1.result = some (.event (.ok (.committed response))) ∧
      (Verifier.main sampleState.sha sampleState.ed (sampleHome response)).exitCode = 0 := by
  have hrun : (sampleStart.run (system schema)
      (allowed fun q reader => q = 0 ∧ reader = .finalizeEventSubmission)
      (sampleSteps 0 15 20 none ++ sampleSteps 0 6 20 none)).map
        (fun y => (committedReply y 0).isSome) = some true := by decide +kernel
  obtain ⟨y, hy, hsome⟩ := Reach.exists_of_run hrun
  obtain ⟨response, hresponse⟩ := Option.isSome_iff_exists.mp hsome
  have hreply := result_of_committedReply hresponse
  exact ⟨y, response, hreply, submitted_proof_verifies sampleState (sampleEd_correct [])
    sampleRequests sampleCapabilities [] 0 y hy response hreply (sampleHome response)
    (pinnedKey_sampleHome response) rfl⟩

/-- **Another commit between the request's own and its last read**: the response has two events
under the root of one. -/
theorem submitted_proof_rejected :
    ∃ (y : LedgerConfig) (response : CommitResponse),
      Reach (system schema) (fun _ _ _ => True) sampleStart y ∧
      (y.procs 0).1.result = some (.event (.ok (.committed response))) ∧
      (sampleHome response).pinnedKey = some (sampleState.signer.publicKeyHex sampleState.ed) ∧
      (sampleHome response).proofFile = some (clientFile response).forVerifier ∧
      (Verifier.main sampleState.sha sampleState.ed (sampleHome response)).exitCode = 2 := by
  have hrun : (sampleStart.run (system schema) (fun _ _ _ => True)
      (sampleSteps 0 15 20 none ++ sampleSteps 1 16 21 none ++ sampleSteps 0 6 20 none)).map
        (fun y => (committedReply y 0).map fun response =>
          (Verifier.main sampleState.sha sampleState.ed (sampleHome response)).exitCode) =
        some (some 2) := by decide +kernel
  obtain ⟨y, hy, hexit⟩ := Reach.exists_of_run hrun
  obtain ⟨response, hresponse, hexit⟩ := Option.map_eq_some_iff.mp hexit
  exact ⟨y, response, hy, result_of_committedReply hresponse, pinnedKey_sampleHome response, rfl,
    hexit⟩

end EvidentLedger.Ledger
