import EvidentLedger.Ledger.ClientProof
import EvidentLedger.Ledger.ReadPath

/-!
# Edited rows and `GET /v1/verify`

What the handler says of a committed database whose rows of `events` were edited. It derives the root from
the edited rows and checks it under the signature of the edited row, so that all it relies on is that a
signature is for one chain, root and event id.

* `loadEventPrefix_eq`: the prefix of a committed event is what was committed up to it.
* `committedMessages`: what the server signed when the events were committed.
* `anchored_committed`, `verifyHandler_valid`: of rows that nobody edited, the handler says valid.
* **`verify_tamper_evident`**: of edited rows it says so only for a prefix that was committed.
-/

namespace EvidentLedger.Ledger

open Lib.Interleave Lib.Transaction Lib.Text

/-! ## Prefixes -/

/-- The rows up to the sequence of one of them. -/
theorem filter_prefix {events before : List EventRecord} {e : EventRecord}
    (hl : Linked none (rows events)) (hp : before ++ [e] <+: events) :
    events.filter (·.sequence ≤ e.sequence) = before ++ [e] := by
  obtain ⟨rest, rfl⟩ := hp
  have hseq := toInt_sequence hl
  rw [rows_append, linked_append] at hl
  have hrest : rest.filter (·.sequence ≤ e.sequence) = [] := by
    refine List.filter_eq_nil_iff.mpr fun a ha => ?_
    obtain ⟨i, hi, rfl⟩ := List.getElem_of_mem ha
    have hafter := hseq (before.length + 1 + i) (by simp; omega)
    have hself := hseq before.length (by simp)
    rw [List.getElem_append_right (by simp)] at hafter
    rw [List.getElem_append_left (by simp), List.getElem_concat_length rfl] at hself
    simp only [List.length_append, List.length_singleton, Nat.add_sub_cancel_left] at hafter
    rw [decide_eq_true_iff, Int64.le_iff_toInt_le]
    omega
  rw [List.filter_append, hrest, filter_linked hl.1, List.append_nil]

section Committed

variable {state : AppState} {db : Db}

/-- **The prefix of a committed event.** -/
theorem loadEventPrefix_eq (hi : LedgerInv state db) {c : Uuid} {before : List EventRecord}
    {e : EventRecord} (hp : before ++ [e] <+: db.eventsOf c) :
    loadEventPrefix db c e.sequence = rows (before ++ [e]) := by
  have hl := (hi.chains c).linked
  obtain ⟨rest, hrest⟩ := hp
  have hl' := hl
  rw [← hrest, rows_append, linked_append] at hl'
  rw [loadEventPrefix, filter_prefix hl ⟨rest, hrest⟩, orderBySequence_linked hl'.1]
  rfl

/-- Every committed event ends a prefix of its chain. -/
theorem exists_prefix {e : EventRecord} (he : e ∈ db.events) :
    ∃ before, before ++ [e] <+: db.eventsOf e.chainId := by
  have hmem : e ∈ db.eventsOf e.chainId := List.mem_filter.mpr ⟨he, beq_self_eq_true _⟩
  obtain ⟨before, after, hsplit⟩ := List.append_of_mem hmem
  refine ⟨before, after, ?_⟩
  rw [hsplit, List.append_assoc, List.singleton_append]

/-- What was signed when the events were committed. -/
def committedMessages (sha : Sha256) (db : Db) : Set String :=
  {m | ∃ c before e, before ++ [e] <+: db.eventsOf c ∧
    m = signMessage c.toString (recomputeRootFromEvents sha (rows (before ++ [e]))) e.eventId.toString}

end Committed

/-! ## The checks of the handler -/

variable {state : ReadState} {db : Db} {cache : TsaCache}

/-- The root that is reported is that of the rows. -/
theorem resolveProofState_root {chainId : Uuid} {snapshot : ProofSnapshot} :
    (resolveProofState state db cache chainId snapshot).1.resolvedRoot = snapshot.merkleRoot := by
  unfold resolveProofState
  split <;> rfl

/-- **What is checked of a prefix.** -/
theorem verifyChainPrefix_valid {c id : Uuid} {signature publicKey : String} {events : List EventRow} :
    (verifyChainPrefix state c id signature publicKey events
        (recomputeRootFromEvents state.sha events)).valid = true ↔
      events ≠ [] ∧ Linked none events ∧ signature ≠ "" ∧
        verifyRoot state.ed c.toString (recomputeRootFromEvents state.sha events) id.toString signature
          publicKey = true := by
  by_cases hne : events = []
  · simp [verifyChainPrefix, hne]
  · have hroot : recomputeRootFromEvents state.sha events ≠ "" := recompute_ne_empty hne
    have herrors : (chainErrors state.sha events).isEmpty = true ↔ Linked none events := by
      unfold chainErrors
      rw [if_neg (by simp [hroot]), List.append_nil]
      cases hcheck : checkEventStructure state.sha events with
      | ok root => simpa using ((checkEventStructure_ok hne).mp hcheck).1
      | error failure =>
        refine iff_of_false (by simp) fun hl => ?_
        rw [(checkEventStructure_ok hne).mpr ⟨hl, rfl⟩] at hcheck
        exact absurd hcheck (by simp)
    simp only [verifyChainPrefix, Bool.and_eq_true, herrors, beq_self_eq_true, bne_iff_ne, ne_eq,
      Bool.not_eq_true', List.isEmpty_eq_false_iff, hne, hroot, not_false_eq_true, true_and, and_true]
    constructor
    · rintro ⟨⟨hsig, hverify⟩, hl⟩
      exact ⟨hl, hsig, hverify⟩
    · rintro ⟨hl, hsig, hverify⟩
      exact ⟨⟨hsig, hverify⟩, hl⟩

/-- **An answer of the handler** is about the prefix of the event that it found. -/
theorem verifyHandler_ok {account eventId requestId : Uuid} {fileHash : Option String}
    {response : VerifyResponse}
    (h : (verifyHandler state db cache account eventId fileHash requestId).1 = .ok response) :
    ∃ event, verifyEventAccess db account eventId = .ok event ∧
      response.chain = verifyChainPrefix state event.chainId event.eventId event.signature
        (state.signer.publicKeyHex state.ed) (loadEventPrefix db event.chainId event.sequence)
        (recomputeRootFromEvents state.sha (loadEventPrefix db event.chainId event.sequence)) := by
  unfold verifyHandler at h
  split at h
  · exact absurd h (by simp)
  · rename_i event haccess
    refine ⟨event, haccess, ?_⟩
    split at h
    · exact absurd h (by simp)
    · dsimp only at h
      split at h
      · exact absurd h (by simp)
      · exact absurd h (by simp)
      · unfold verifyResponse at h
        split at h
        · exact absurd h (by simp)
        · rw [← Except.ok.inj h, resolveProofState_root]
          rfl

/-- A token that is checked, and fails. -/
def TsaFails (state : ReadState) (db : Db) (cache : TsaCache) (c : Uuid) (root : String) : Prop :=
  ∃ row, db.tsaToken? c root = some row ∧
    (resolveAndCacheTsaVerification state cache c root row.tsaToken).1.status.isFailure = true

/-- **Without a failing token** the state of a proof is that of its context. -/
theorem resolveProofState_status {c : Uuid} {snapshot : ProofSnapshot}
    (htsa : ¬ TsaFails state db cache c snapshot.merkleRoot) :
    (resolveProofState state db cache c snapshot).1.status = deriveProofStatus snapshot.context := by
  unfold resolveProofState
  cases hrow : db.tsaToken? c snapshot.merkleRoot with
  | none =>
    simp [proofContextWithTsa, tsaValidationFailureSignal]
  | some row =>
    have hok : (resolveAndCacheTsaVerification state cache c snapshot.merkleRoot
        row.tsaToken).1.status.isFailure = false := by
      rw [← Bool.not_eq_true]
      exact fun hf => htsa ⟨row, hrow, hf⟩
    have hverified : (TsaStatus.verified == TsaStatus.failed) = false := rfl
    simp [proofContextWithTsa, tsaValidationFailureSignal, hok, hverified]

/-! ## Committed events -/

/-- The snapshot of a committed event. -/
theorem readSnapshot_committed (hi : LedgerInv state.toAppState db) {before : List EventRecord}
    {e : EventRecord} (hp : before ++ [e] <+: db.eventsOf e.chainId) :
    readSnapshot state db e = buildProofSnapshotRead state.sha state.ed e.chainId e.eventId
      (rows (before ++ [e])) e.signature (state.signer.publicKeyHex state.ed) := by
  rw [readSnapshot, loadEventPrefix_eq hi hp]

/-- The signature of a committed event verifies for its prefix. -/
theorem verifyRoot_committed (hed : state.ed.Correct) (hi : LedgerInv state.toAppState db)
    {before : List EventRecord} {e : EventRecord} (hp : before ++ [e] <+: db.eventsOf e.chainId) :
    e.signature ≠ "" ∧ verifyRoot state.ed e.chainId.toString
      (recomputeRootFromEvents state.sha (rows (before ++ [e]))) e.eventId.toString e.signature
      (state.signer.publicKeyHex state.ed) = true := by
  rw [(hi.chains e.chainId).signed before e hp, signatureOf]
  exact ⟨signRoot_ne_empty _ _ _ _, verifyRoot_signRoot hed _ _ _ _⟩

/-- **A committed event is anchored.** -/
theorem anchored_committed (hed : state.ed.Correct) (hi : LedgerInv state.toAppState db)
    {e : EventRecord} (he : e ∈ db.events) :
    deriveProofStatus (readSnapshot state db e).context = .anchored := by
  obtain ⟨before, hp⟩ := exists_prefix he
  obtain ⟨hne, hverify⟩ := verifyRoot_committed hed hi hp
  rw [readSnapshot_committed hi hp]
  exact buildProofSnapshotRead_anchored.mpr ⟨by simp [rows], hne, hverify⟩

/-- The owner of a chain reads its events. -/
theorem verifyEventAccess_owner (hids : (db.events.map EventRecord.eventId).Nodup) {e : EventRecord}
    (he : e ∈ db.events) {account : Uuid} (howner : db.owner? e.chainId = some account) :
    verifyEventAccess db account e.eventId = .ok e := by
  obtain ⟨row, hrow, hrowner⟩ := Option.bind_eq_some_iff.mp howner
  have hfound : (db.events.find? fun a =>
      a.eventId == e.eventId && (db.chain? a.chainId).isSome) = some e := by
    cases hf : db.events.find? fun a => a.eventId == e.eventId && (db.chain? a.chainId).isSome with
    | none =>
      have hnone := List.find?_eq_none.mp hf e he
      simp [hrow] at hnone
    | some a =>
      have ha := List.find?_some hf
      simp only [Bool.and_eq_true, beq_iff_eq] at ha
      rw [List.inj_on_of_nodup_map hids (List.mem_of_find?_eq_some hf) he ha.1]
  unfold verifyEventAccess
  rw [hfound]
  simp [howner]

/-- **A committed event is answered as valid**, unless its token fails. -/
theorem verifyHandler_valid (hed : state.ed.Correct) (hi : LedgerInv state.toAppState db)
    {e : EventRecord} (he : e ∈ db.events) {account requestId : Uuid}
    (howner : db.owner? e.chainId = some account) {fileHash provided : Option String}
    (hquery : normalizeQueryFileHash fileHash = .ok provided)
    (htsa : ¬ TsaFails state db cache e.chainId (readSnapshot state db e).merkleRoot) :
    ∃ response, (verifyHandler state db cache account e.eventId fileHash requestId).1 = .ok response ∧
      response.chain.valid = true := by
  have hstatus := (resolveProofState_status htsa).trans (anchored_committed hed hi he)
  obtain ⟨identity, hidentity⟩ := exists_verifyIdentity state db e
  obtain ⟨response, hok⟩ : ∃ response,
      (verifyHandler state db cache account e.eventId fileHash requestId).1 = .ok response := by
    unfold verifyHandler
    rw [verifyEventAccess_owner hi.ids he howner, hquery]
    simp only [hstatus, verifyResponse, hidentity]
    exact ⟨_, rfl⟩
  refine ⟨response, hok, ?_⟩
  obtain ⟨event, haccess, hchain⟩ := verifyHandler_ok hok
  obtain rfl := Except.ok.inj ((verifyEventAccess_owner hi.ids he howner).symm.trans haccess)
  obtain ⟨before, hp⟩ := exists_prefix he
  obtain ⟨hne, hverify⟩ := verifyRoot_committed hed hi hp
  rw [hchain, verifyChainPrefix_valid, loadEventPrefix_eq hi hp]
  have hl := (hi.chains e.chainId).linked
  obtain ⟨rest, hrest⟩ := hp
  rw [← hrest, rows_append, linked_append] at hl
  exact ⟨by simp [rows], hl.1, hne, hverify⟩

/-! ## Edited rows -/

/-- **What an unforged signature verifies for** was committed. -/
theorem committed_of_verifyRoot (hi : LedgerInv state.toAppState db) {c id : Uuid} {root signature key :
    String} (hu : Unforged state.ed key (committedMessages state.sha db) signature)
    (hv : verifyRoot state.ed c.toString root id.toString signature key = true) :
    ∃ before r, before ++ [r] <+: db.eventsOf c ∧ r.eventId = id ∧
      Linked none (rows (before ++ [r])) ∧
      root = recomputeRootFromEvents state.sha (rows (before ++ [r])) := by
  obtain ⟨d, before, r, hp, hm⟩ := hu _ _ _ hv
  have hl := (hi.chains d).linked
  have hp' := hp
  obtain ⟨rest, hrest⟩ := hp'
  rw [← hrest, rows_append, linked_append] at hl
  have hmessage : signMessage c.toString root id.toString =
      (signedRows state.toAppState d hl.1).message := by
    rw [hm, SignedList.message, SignedList.head, SignedList.root, signedRows, lastEventId_append]
  obtain ⟨hc, hroot, hid⟩ := SignedList.message_eq hmessage
  obtain rfl := Uuid.toString_inj hc
  refine ⟨before, r, hp, ?_, hl.1, hroot⟩
  rw [SignedList.head, signedRows, lastEventId_append] at hid
  exact (Uuid.toString_inj hid).symm

/-- **Tamper evidence of `GET /v1/verify`.** -/
theorem verify_tamper_evident (state : ReadState) (hed : state.ed.Correct) (requests : Nat → Request)
    (capabilities : Uuid → Option AccountCapabilities) (identityKeys : List IdentityKeyRow)
    (y : LedgerConfig) (hy : Reach (system schema) (fun _ _ _ => True)
      (start state.toAppState requests (Db.empty capabilities identityKeys)) y) :
    (∀ edited : List EventRecord, (∀ e ∈ edited, Unforged state.ed (state.signer.publicKeyHex state.ed)
        (committedMessages state.sha y.shared.db) e.signature) →
      ∀ cache account eventId fileHash requestId response,
        (verifyHandler state { y.shared.db with events := edited } cache account eventId fileHash
          requestId).1 = .ok response → response.chain.valid = true →
        ∃ event before r, verifyEventAccess { y.shared.db with events := edited } account eventId =
            .ok event ∧ before ++ [r] <+: y.shared.db.eventsOf event.chainId ∧ r.eventId = event.eventId ∧
          ((loadEventPrefix { y.shared.db with events := edited } event.chainId event.sequence).map
              EventRow.content = (rows (before ++ [r])).map EventRow.content ∨
            Collision state.sha (recomputeInputs state.sha
              (loadEventPrefix { y.shared.db with events := edited } event.chainId event.sequence) ++
                recomputeInputs state.sha (rows (before ++ [r]))))) ∧
    ∀ e ∈ y.shared.db.events, ∀ cache account fileHash provided requestId,
      y.shared.db.owner? e.chainId = some account → normalizeQueryFileHash fileHash = .ok provided →
      ¬ TsaFails state y.shared.db cache e.chainId (readSnapshot state y.shared.db e).merkleRoot →
      ∃ response, (verifyHandler state y.shared.db cache account e.eventId fileHash requestId).1 =
        .ok response ∧ response.chain.valid = true := by
  have hx : (Setting.all state.toAppState requests (Db.empty capabilities identityKeys)).Reach
      (start state.toAppState requests (Db.empty capabilities identityKeys)) y := hy
  have hi := (ledger_reach hx).1.ledgerInv (ledgerInv_empty capabilities identityKeys)
  constructor
  · intro edited hu cache account eventId fileHash requestId response hok hvalid
    obtain ⟨event, haccess, hchain⟩ := verifyHandler_ok hok
    rw [hchain, verifyChainPrefix_valid] at hvalid
    obtain ⟨hne, hl, -, hverify⟩ := hvalid
    obtain ⟨before, r, hp, hid, hl', hroot⟩ :=
      committed_of_verifyRoot hi (hu event (mem_of_verifyEventAccess haccess).1) hverify
    refine ⟨event, before, r, haccess, hp, hid, ?_⟩
    by_cases hc : Collision state.sha (recomputeInputs state.sha
        (loadEventPrefix { y.shared.db with events := edited } event.chainId event.sequence) ++
          recomputeInputs state.sha (rows (before ++ [r])))
    · exact Or.inr hc
    · exact Or.inl (root_binding (injOn_of_not_collision hc) hne (by simp [rows]) hl hl'
        (fun b hb => List.mem_append_left _ hb) (fun b hb => List.mem_append_right _ hb) hroot)
  · intro e he cache account fileHash provided requestId howner hquery htsa
    exact verifyHandler_valid hed hi he howner hquery htsa

/-! ## One event, read back -/

/-- The event that the first request of `sampleRequests` commits, before it is signed. -/
def sampleRow : EventRow := ⟨Uuid.small 20, Uuid.nil, "aa", 0, 1⟩

/-- What is signed for it. -/
def sampleMessage : String :=
  signMessage (Uuid.small 9).toString (recomputeRootFromEvents sampleSha [sampleRow])
    (Uuid.small 20).toString

/-- A server whose signature of this message is for nothing else. -/
def sampleVerifier : ReadState :=
  ⟨⟨sampleSha, sampleEd [sampleMessage], sampleState.signer⟩, fun _ _ => ⟨.verified, none⟩⟩

def sampleCommitted : EventRecord where
  eventId := Uuid.small 20
  chainId := Uuid.small 9
  parentEventId := Uuid.nil
  fileHash := "aa"
  idempotencyKey := "first"
  signature := hexEncode ((sampleEd [sampleMessage]).sign sampleState.signer.signingKey
    (asBytes sampleMessage)).1
  createdAt := 0
  sequence := 1
  identityKeyId := none
  identitySignature := none
  identityFingerprint := none

/-- Its signature verifies for nothing that was not signed at its commit. -/
theorem unforged_sampleCommitted {db : Db} (hevents : db.events = [sampleCommitted]) :
    ∀ e ∈ db.events, Unforged sampleVerifier.ed (sampleVerifier.signer.publicKeyHex sampleVerifier.ed)
      (committedMessages sampleVerifier.sha db) e.signature := by
  have hcommitted : sampleMessage ∈ committedMessages sampleVerifier.sha db := by
    refine ⟨Uuid.small 9, [], sampleCommitted, ?_, rfl⟩
    rw [Db.eventsOf, hevents]
    exact ⟨[], by decide +kernel⟩
  intro e he c root head hv
  rw [hevents] at he
  obtain rfl := List.mem_singleton.mp he
  have hm := sampleEd_unforged (by decide) List.mem_cons_self _ _ c root head hv
  rwa [List.mem_singleton.mp hm]

theorem verify_tamper_evident_sampleRun : ∃ (y : LedgerConfig) (event : EventRecord)
    (before : List EventRecord) (r : EventRecord), y.shared.db.events = [sampleCommitted] ∧
      before ++ [r] <+: y.shared.db.eventsOf event.chainId ∧ r.eventId = event.eventId ∧
      ∃ response, (verifyHandler sampleVerifier y.shared.db (fun _ _ => ⟨none, none⟩) (Uuid.small 1)
        (Uuid.small 20) none Uuid.nil).1 = .ok response ∧ response.chain.valid = true := by
  have hrun : ((start sampleVerifier.toAppState sampleRequests (Db.empty sampleCapabilities [])).run
      (system schema) (fun _ _ _ => True) (sampleSteps 0 15 20 none)).map
        (fun y => (y.shared.db.events, y.shared.db.owner? (Uuid.small 9), y.shared.db.tsaTokens)) =
      some ([sampleCommitted], some (Uuid.small 1), []) := by decide +kernel
  obtain ⟨y, hy, hout⟩ := Reach.exists_of_run hrun
  obtain ⟨hevents, hout⟩ := Prod.mk.inj hout
  obtain ⟨howner, htokens⟩ := Prod.mk.inj hout
  obtain ⟨hedited, hread⟩ := verify_tamper_evident sampleVerifier (sampleEd_correct _) sampleRequests
    sampleCapabilities [] y hy
  have hmem : sampleCommitted ∈ y.shared.db.events := by rw [hevents]; exact List.mem_cons_self
  have htsa : ¬ TsaFails sampleVerifier y.shared.db (fun _ _ => ⟨none, none⟩) sampleCommitted.chainId
      (readSnapshot sampleVerifier y.shared.db sampleCommitted).merkleRoot := by
    rintro ⟨row, hrow, -⟩
    unfold Db.tsaToken? at hrow
    rw [htokens] at hrow
    exact absurd hrow (by simp)
  obtain ⟨response, hok, hvalid⟩ := hread _ hmem _ _ none none Uuid.nil howner rfl htsa
  obtain ⟨event, before, r, -, hp, hid, -⟩ :=
    hedited y.shared.db.events (unforged_sampleCommitted hevents) _ _ _ _ _ response hok hvalid
  exact ⟨y, event, before, r, hevents, hp, hid, response, hok, hvalid⟩

end EvidentLedger.Ledger
