import EvidentLedger.Ledger.Canonical
import EvidentLedger.Ledger.ClientProof
import EvidentLedger.Ledger.Disclosure
import EvidentLedger.Ledger.Refinement

/-!
# What was served stays true

The answers of `GET /v1/proof` and `GET /v1/verify` at two moments of a run, and the proofs that
`POST /events` and `GET /v1/proof` hand out of one chain.

* What is read of an event that is there (`readSnapshot`, `load_event_prefix`) does not depend on what
  is added later. Only its timestamp may come later, and the check of the timestamp may fail.
* `Attests`: at a moment a proof of a chain is there for a client, with this root for this event.

## Results

* **`reads_permanent`**: who may read an event may always read it; a verification that has succeeded is
  answered the same, and a proof that was handed out is handed out again, with the report on its
  timestamp made anew, unless the token of the event fails its check.
* **`one_history`**: of any two proofs of a chain, handed out at any two moments, one is of a prefix of
  the events of the other.
-/

namespace EvidentLedger.Ledger

open Lib.Interleave Lib.Transaction Lib.AppendLog

/-! ## Reads of an event that is there -/

section Reads

variable {state : ReadState} {requests : Nat → Request}
  {ok : Nat → Call schema → Shared schema → Prop} {db₀ db db' : Db} {h later : History schema}
  {c account eventId : Uuid} {e : EventRecord}

/-- **What a later state keeps** of an earlier one. -/
structure Keeps (state : AppState) (db db' : Db) : Prop where
  inv : LedgerInv state db
  inv' : LedgerInv state db'
  events : db.events <+: db'.events
  tokens : db.tsaTokens <+: db'.tsaTokens
  owner : ∀ c account, db.owner? c = some account → db'.owner? c = some account
  keys : db'.identityKeys = db.identityKeys

/-- No request writes an identity key. -/
theorem identityKeys_replay (log : List Write) (db : Db) :
    (replay (S := schema) log db).identityKeys = db.identityKeys := by
  induction log generalizing db with
  | nil => rfl
  | cons w log ih => exact (ih (w.apply db)).trans (by cases w <;> rfl)

/-- **A history keeps what was there.** -/
theorem Recorded.keeps (hi : LedgerInv state.toAppState db₀)
    (hr : Recorded state.toAppState requests ok db₀ db (h ++ later)) :
    Keeps state.toAppState (tables db₀ h) db where
  inv := (hr.of_prefix (List.prefix_append h later)).ledgerInv hi
  inv' := hr.ledgerInv hi
  events := hr.events (List.prefix_append h later)
  tokens := by
    have hwrites : committed (h ++ later) = committed h ++ committed later := List.flatMap_append
    rw [hr.replayed, tables, tables, tokens_replay, tokens_replay, hwrites, effects_append,
      List.filterMap_append, ← List.append_assoc]
    exact List.prefix_append _ _
  owner c account howner := by
    rw [← logOf_owner] at howner ⊢
    rw [hr.replayed]
    exact ((hr.run hi later).owner howner).1
  keys := by
    rw [hr.replayed, tables, tables, identityKeys_replay, identityKeys_replay]

theorem Keeps.eventsOf (hk : Keeps state.toAppState db db') (c : Uuid) :
    db.eventsOf c <+: db'.eventsOf c := by
  rw [Db.eventsOf, Db.eventsOf]
  exact hk.events.filter _

/-- **Who may read an event may always read it.** -/
theorem Keeps.access (hk : Keeps state.toAppState db db')
    (hread : verifyEventAccess db account eventId = .ok e) :
    verifyEventAccess db' account eventId = .ok e := by
  obtain ⟨hmem, hid, howner⟩ := (verifyEventAccess_iff hk.inv.ids).mp hread
  exact (verifyEventAccess_iff hk.inv'.ids).mpr
    ⟨hk.events.subset hmem, hid, hk.owner _ _ howner⟩

/-- The rows up to an event are those that end with it. -/
theorem loadEventPrefix_mem (hi : LedgerInv state.toAppState db) (he : e ∈ db.eventsOf c) :
    ∃ before, before ++ [e] <+: db.eventsOf c ∧
      loadEventPrefix db c e.sequence = rows (before ++ [e]) := by
  obtain ⟨before, after, hsplit⟩ := List.append_of_mem he
  have hp : before ++ [e] <+: db.eventsOf c := ⟨after, by rw [hsplit]; simp⟩
  exact ⟨before, hp, loadEventPrefix_eq hi hp⟩

/-- **The rows up to an event stay.** -/
theorem Keeps.loadEventPrefix (hk : Keeps state.toAppState db db') (he : e ∈ db.eventsOf c) :
    loadEventPrefix db' c e.sequence = loadEventPrefix db c e.sequence := by
  obtain ⟨before, hp, hload⟩ := loadEventPrefix_mem hk.inv he
  rw [hload]
  exact loadEventPrefix_eq hk.inv' (hp.trans (hk.eventsOf c))

theorem Keeps.readSnapshot (hk : Keeps state.toAppState db db') (he : e ∈ db.events) :
    readSnapshot state db' e = readSnapshot state db e := by
  have hmem : e ∈ db.eventsOf e.chainId := List.mem_filter.mpr ⟨he, by simp⟩
  rw [Ledger.readSnapshot, Ledger.readSnapshot, hk.loadEventPrefix hmem]

/-- A token stays. -/
theorem Keeps.tsaToken? (hk : Keeps state.toAppState db db') {root : String} {row : TsaTokenRow}
    (hrow : db.tsaToken? c root = some row) : db'.tsaToken? c root = some row := by
  obtain ⟨rest, hrest⟩ := hk.tokens
  rw [Db.tsaToken?, ← hrest, List.find?_append]
  rw [Db.tsaToken?] at hrow
  rw [hrow]
  rfl

/-! ## Answers -/

variable {cache cache' cache₁ : TsaCache} {requestId requestId' : Uuid} {fileHash : Option String}

/-- With a failing token a proof has failed. -/
theorem resolveProofState_failed {snapshot : ProofSnapshot}
    (htsa : TsaFails state db cache c snapshot.merkleRoot) :
    (resolveProofState state db cache c snapshot).1.status = .failed := by
  obtain ⟨row, hrow, hfails⟩ := htsa
  simp [resolveProofState, hrow, hfails, proofContextWithTsa, tsaValidationFailureSignal,
    deriveProofStatus]

/-- A proof is anchored if it was committed so, and its token does not fail. -/
theorem resolveProofState_anchored {snapshot : ProofSnapshot} :
    (resolveProofState state db cache c snapshot).1.status = .anchored ↔
      deriveProofStatus snapshot.context = .anchored ∧
        ¬ TsaFails state db cache c snapshot.merkleRoot := by
  by_cases htsa : TsaFails state db cache c snapshot.merkleRoot
  · rw [resolveProofState_failed htsa]
    exact iff_of_false (by simp) fun h => h.2 htsa
  · rw [resolveProofState_status htsa]
    exact ⟨fun h => ⟨h, htsa⟩, And.left⟩

/-- The timestamp of a proof is that of the token. -/
theorem resolveProofState_tsa {snapshot : ProofSnapshot} {t : TsaReport} :
    (resolveProofState state db cache c snapshot).1.tsa = some t ↔
      ∃ row, db.tsaToken? c snapshot.merkleRoot = some row ∧
        tsaReport row (resolveAndCacheTsaVerification state cache c snapshot.merkleRoot
          row.tsaToken).1 = t := by
  unfold resolveProofState
  cases hrow : db.tsaToken? c snapshot.merkleRoot with
  | none => simp
  | some row => simp

/-- The token of an event fails its check. -/
def TokenFails (state : ReadState) (db : Db) (cache : TsaCache) (account eventId : Uuid) : Prop :=
  ∃ e, verifyEventAccess db account eventId = .ok e ∧
    TsaFails state db cache e.chainId (Ledger.readSnapshot state db e).merkleRoot

/-- The rows of a response are those up to the event. -/
theorem Keeps.verifyResponse (hk : Keeps state.toAppState db db') (he : e ∈ db.events)
    {provided : Option String} {root : String} {response : VerifyResponse}
    (h : verifyResponse state db e provided root requestId = .ok response) :
    verifyResponse state db' e provided root requestId' = .ok { response with requestId := requestId' } := by
  have hmem : e ∈ db.eventsOf e.chainId := List.mem_filter.mpr ⟨he, by simp⟩
  unfold Ledger.verifyResponse at h ⊢
  rw [verifyIdentity, hk.keys, ← verifyIdentity, hk.loadEventPrefix hmem]
  split at h
  · exact absurd h (by simp)
  · rw [← Except.ok.inj h]

/-- A verification that succeeds is of the event alone. -/
theorem verifyHandler_response {response : VerifyResponse}
    (h : (verifyHandler state db cache account eventId fileHash requestId).1 = .ok response) :
    ∃ e provided, verifyEventAccess db account eventId = .ok e ∧
      normalizeQueryFileHash fileHash = .ok provided ∧
      deriveProofStatus (readSnapshot state db e).context = .anchored ∧
      verifyResponse state db e provided (readSnapshot state db e).merkleRoot requestId =
        .ok response := by
  unfold verifyHandler at h
  split at h
  · exact absurd h (by simp)
  · rename_i e haccess
    split at h
    · exact absurd h (by simp)
    · rename_i provided hhash
      dsimp only at h
      split at h
      · exact absurd h (by simp)
      · exact absurd h (by simp)
      · rename_i hstatus
        rw [resolveProofState_root] at h
        exact ⟨e, provided, haccess, hhash, (resolveProofState_anchored.mp hstatus).1, h⟩

/-- **A verification that has succeeded** succeeds with the same answer, unless the token fails. -/
theorem Keeps.verified (hk : Keeps state.toAppState db db') {response : VerifyResponse}
    (h : (verifyHandler state db cache account eventId fileHash requestId).1 = .ok response) :
    (verifyHandler state db' cache' account eventId fileHash requestId').1 =
        .ok { response with requestId := requestId' } ∨
      TokenFails state db' cache' account eventId ∧
        (verifyHandler state db' cache' account eventId fileHash requestId').1 =
          .error .proofGenerationFailed := by
  obtain ⟨e, provided, haccess, hhash, hanchored, hresponse⟩ := verifyHandler_response h
  obtain ⟨hmem, -⟩ := mem_of_verifyEventAccess haccess
  have haccess' := hk.access haccess
  unfold verifyHandler
  rw [haccess', hhash]
  dsimp only
  by_cases htsa : TsaFails state db' cache' e.chainId (Ledger.readSnapshot state db' e).merkleRoot
  · right
    rw [resolveProofState_failed htsa]
    exact ⟨⟨e, haccess', htsa⟩, rfl⟩
  · left
    rw [resolveProofState_status htsa, resolveProofState_root, hk.readSnapshot hmem, hanchored]
    exact hk.verifyResponse hmem hresponse

/-- **The same proof**: the report on the token is of this token, and nothing else differs. -/
def SameProof (proof proof' : AnchoredProof) : Prop :=
  { proof' with tsa := proof.tsa, requestId := proof.requestId } = proof ∧
    ∀ t, proof.tsa = some t → ∃ status reason,
      proof'.tsa = some { t with verificationStatus := status, verificationReason := reason }

/-- A proof that is anchored, with its event. -/
def anchoredProof (state : ReadState) (db : Db) (cache : TsaCache) (e : EventRecord) (requestId : Uuid) :
    AnchoredProof where
  proofVersion := PROOF_VERSION
  proofType := PROOF_TYPE
  leafVersion := LEAF_VERSION
  eventId := e.eventId
  chainId := e.chainId
  sequence := e.sequence
  parentEventId := e.parentEventId
  fileHash := e.fileHash
  merkleRoot := (readSnapshot state db e).merkleRoot
  signature := (readSnapshot state db e).signature
  publicKey := (readSnapshot state db e).publicKey
  tsa := (resolveProofState state db cache e.chainId (readSnapshot state db e)).1.tsa
  createdAt := e.createdAt
  proofStatus := ProofStatus.anchored.asStr
  requestId := requestId

/-- A proof that is anchored is of the event and its snapshot. -/
theorem proofHandler_anchored {proof : AnchoredProof}
    (h : proofHandler state db cache account eventId requestId = .ok (.inr proof, cache₁)) :
    ∃ e, verifyEventAccess db account eventId = .ok e ∧
      deriveProofStatus (readSnapshot state db e).context = .anchored ∧
        proof = anchoredProof state db cache e requestId := by
  unfold proofHandler at h
  cases haccess : verifyEventAccess db account eventId with
  | error err =>
    rw [haccess] at h
    exact absurd h (by simp [bind, Except.bind])
  | ok e =>
    rw [haccess] at h
    have hbuild : buildProofResponse state db cache e requestId = (.inr proof, cache₁) :=
      Except.ok.inj h
    unfold buildProofResponse at hbuild
    dsimp only at hbuild
    split at hbuild
    · exact absurd (congrArg Prod.fst hbuild) (by simp)
    · exact absurd (congrArg Prod.fst hbuild) (by simp)
    · rename_i hstatus
      exact ⟨e, rfl, (resolveProofState_anchored.mp hstatus).1,
        (Sum.inr.inj (congrArg Prod.fst hbuild)).symm⟩

/-- **A proof that was handed out** is handed out again, unless the token fails. -/
theorem Keeps.proof (hk : Keeps state.toAppState db db') {proof : AnchoredProof}
    (h : proofHandler state db cache account eventId requestId = .ok (.inr proof, cache₁)) :
    (∃ proof' cache₂, proofHandler state db' cache' account eventId requestId' =
        .ok (.inr proof', cache₂) ∧ SameProof proof proof') ∨
      TokenFails state db' cache' account eventId ∧ ∃ envelope cache₂,
        proofHandler state db' cache' account eventId requestId' = .ok (.inl envelope, cache₂) ∧
          envelope.proofStatus = ProofStatus.failed.asStr := by
  obtain ⟨e, haccess, hanchored, rfl⟩ := proofHandler_anchored h
  obtain ⟨hmem, -⟩ := mem_of_verifyEventAccess haccess
  have haccess' := hk.access haccess
  have hhandler : proofHandler state db' cache' account eventId requestId' =
      .ok (buildProofResponse state db' cache' e requestId') := by
    unfold proofHandler
    rw [haccess']
    rfl
  rw [hhandler]
  by_cases htsa : TsaFails state db' cache' e.chainId (Ledger.readSnapshot state db' e).merkleRoot
  · right
    refine ⟨⟨e, haccess', htsa⟩, ?_⟩
    unfold buildProofResponse
    dsimp only
    rw [resolveProofState_failed htsa]
    exact ⟨_, _, rfl, rfl⟩
  · left
    have hstatus := resolveProofState_anchored.mpr
      ⟨(congrArg (fun s => deriveProofStatus s.context) (hk.readSnapshot hmem)).trans hanchored, htsa⟩
    refine ⟨anchoredProof state db' cache' e requestId', (resolveProofState state db' cache' e.chainId
      (Ledger.readSnapshot state db' e)).2, ?_, ?_, fun t ht => ?_⟩
    · unfold buildProofResponse
      dsimp only
      rw [hstatus]
      rfl
    · rw [anchoredProof, anchoredProof, hk.readSnapshot hmem]
    · obtain ⟨row, hrow, rfl⟩ := resolveProofState_tsa.mp ht
      refine ⟨_, _, resolveProofState_tsa.mpr ⟨row, ?_, rfl⟩⟩
      rw [hk.readSnapshot hmem]
      exact hk.tsaToken? hrow

end Reads

/-! ## Two moments of a run -/

/-- **What holds of the answers at two moments.** -/
structure Permanent (state : ReadState) (y z : LedgerConfig) : Prop where
  access : ∀ account eventId e, verifyEventAccess y.shared.db account eventId = .ok e →
    verifyEventAccess z.shared.db account eventId = .ok e
  verified : ∀ cache account eventId fileHash requestId response,
    (verifyHandler state y.shared.db cache account eventId fileHash requestId).1 = .ok response →
      ∀ cache' requestId',
        (verifyHandler state z.shared.db cache' account eventId fileHash requestId').1 =
            .ok { response with requestId := requestId' } ∨
          TokenFails state z.shared.db cache' account eventId ∧
            (verifyHandler state z.shared.db cache' account eventId fileHash requestId').1 =
              .error .proofGenerationFailed
  proof : ∀ cache account eventId requestId proof cache₁,
    proofHandler state y.shared.db cache account eventId requestId = .ok (.inr proof, cache₁) →
      ∀ cache' requestId',
        (∃ proof' cache₂, proofHandler state z.shared.db cache' account eventId requestId' =
            .ok (.inr proof', cache₂) ∧ SameProof proof proof') ∨
          TokenFails state z.shared.db cache' account eventId ∧ ∃ envelope cache₂,
            proofHandler state z.shared.db cache' account eventId requestId' =
              .ok (.inl envelope, cache₂) ∧ envelope.proofStatus = ProofStatus.failed.asStr

section Runs

variable {state : ReadState} {requests : Nat → Request} {db₀ : Db} {y z : LedgerConfig}

theorem keeps_of_reach (hi : LedgerInv state.toAppState db₀)
    (hy : Reach (system schema) (fun _ _ _ => True) (start state.toAppState requests db₀) y)
    (hz : Reach (system schema) (fun _ _ _ => True) y z) :
    Keeps state.toAppState y.shared.db z.shared.db := by
  have hx : (Setting.all state.toAppState requests db₀).Reach
    (start state.toAppState requests db₀) y := hy
  obtain ⟨hinv, -⟩ := ledger_reach hx
  obtain ⟨hinv', -⟩ := ledger_reach (hx.trans hz)
  obtain ⟨later, hlater⟩ := ledger_history hx hz
  rw [← hlater] at hinv'
  rw [hinv.replayed]
  exact hinv'.keeps hi

end Runs

/-- **What was served stays true**, from any tables that satisfy the invariant. -/
theorem reads_permanent (state : ReadState) (requests : Nat → Request) (db₀ : Db)
    (hi : LedgerInv state.toAppState db₀) (y z : LedgerConfig)
    (hy : Reach (system schema) (fun _ _ _ => True) (start state.toAppState requests db₀) y)
    (hz : Reach (system schema) (fun _ _ _ => True) y z) : Permanent state y z := by
  have hk := keeps_of_reach hi hy hz
  exact ⟨fun _ _ _ h => hk.access h, fun _ _ _ _ _ _ h _ _ => hk.verified h,
    fun _ _ _ _ _ _ h _ _ => hk.proof h⟩

/-! ## One history -/

/-- **A proof of a chain is handed out**: by a read, or with the reply to a legacy submission. -/
inductive Attests (state : ReadState) (y : LedgerConfig) : Uuid → String → Uuid → Prop
  | read {cache cache₁ : TsaCache} {account eventId requestId : Uuid} {proof : AnchoredProof}
      (h : proofHandler state y.shared.db cache account eventId requestId =
        .ok (.inr proof, cache₁)) :
      Attests state y proof.chainId proof.merkleRoot proof.eventId
  | reply {p : Nat} {response : CommitResponse}
      (h : (y.procs p).1.result = some (.event (.ok (.committed response)))) :
      Attests state y response.chainId response.proof.root response.eventId

section History

variable {state : ReadState} {requests : Nat → Request} {db₀ : Db} {y z : LedgerConfig} {c : Uuid}

/-- Rows that end with an event, at the beginning of a chain. -/
def EndsAt (events : List EventRecord) (eventId : Uuid) (chain : List EventRecord) : Prop :=
  events <+: chain ∧ headId events = some eventId

/-- Such rows are determined by their event. -/
theorem EndsAt.unique {events events' chain : List EventRecord} {eventId : Uuid}
    (hids : (chain.map EventRecord.eventId).Nodup) (h : EndsAt events eventId chain)
    (h' : EndsAt events' eventId chain) : events = events' := by
  have hlast : ∀ {l : List EventRecord}, headId l = some eventId →
      eventId ∈ l.map EventRecord.eventId := by
    intro l hl
    obtain ⟨e, he, rfl⟩ := Option.map_eq_some_iff.mp hl
    exact List.mem_map_of_mem (List.mem_of_getLast? he)
  have hcase : ∀ {l m : List EventRecord}, EndsAt l eventId chain → EndsAt m eventId chain →
      l <+: m → l = m := by
    rintro l m ⟨-, hl⟩ ⟨hm, hm'⟩ ⟨rest, rfl⟩
    by_cases hrest : rest = []
    · rw [hrest, List.append_nil]
    · have hid : headId rest = some eventId := by
        rw [headId, List.getLast?_append_of_ne_nil _ hrest] at hm'
        exact hm'
      have hnodup := hids.sublist (hm.sublist.map EventRecord.eventId)
      rw [List.map_append, List.nodup_append] at hnodup
      exact absurd rfl (hnodup.2.2 eventId (hlast hl) eventId (hlast hid))
  rcases List.prefix_or_prefix_of_prefix h.1 h'.1 with hp | hp
  · exact hcase h h' hp
  · exact (hcase h' h hp).symm

/-- **A proof is of the events up to its own.** -/
theorem Attests.events {root : String} {eventId : Uuid} (hi : LedgerInv state.toAppState db₀)
    (hy : Reach (system schema) (fun _ _ _ => True) (start state.toAppState requests db₀) y)
    (h : Attests state y c root eventId) :
    ∃ events, EndsAt events eventId (y.shared.db.eventsOf c) ∧
      root = recomputeRootFromEvents state.sha (rows events) := by
  have hx : (Setting.all state.toAppState requests db₀).Reach
    (start state.toAppState requests db₀) y := hy
  obtain ⟨hinv, hreplies⟩ := ledger_reach hx
  have hinv' := hinv.ledgerInv hi
  cases h with
  | read h =>
    obtain ⟨e, haccess, -, rfl⟩ := proofHandler_anchored h
    obtain ⟨hmem, -⟩ := mem_of_verifyEventAccess haccess
    obtain ⟨before, hp, hload⟩ := loadEventPrefix_mem hinv'
      (List.mem_filter.mpr ⟨hmem, by simp⟩ : e ∈ y.shared.db.eventsOf e.chainId)
    refine ⟨before ++ [e], ⟨hp, ?_⟩, ?_⟩
    · rw [headId, List.getLast?_concat]
      rfl
    · rw [← hload]
      rfl
  | reply h =>
    obtain ⟨account, req, -, hresult⟩ := hreplies _ _ h
    obtain ⟨eventId, snapshot, after, sequence, events, tsa, rfl, g, -, -, hg, hlanded, -⟩ := hresult
    obtain ⟨before, e, hp, -, hid, hsnapshot⟩ := Landed.prefix hinv hi (hlanded.mono hg)
    refine ⟨before ++ [e], ⟨hp, ?_⟩, ?_⟩
    · rw [headId, List.getLast?_concat]
      exact congrArg some hid
    · rw [hsnapshot]
      rfl

end History

/-- **One history**: of two proofs of a chain, handed out at two moments, one is of a prefix of the
events of the other, and both of the chain as it is in the end. -/
theorem one_history (state : ReadState) (requests : Nat → Request) (db₀ : Db)
    (hi : LedgerInv state.toAppState db₀) (y z : LedgerConfig)
    (hy : Reach (system schema) (fun _ _ _ => True) (start state.toAppState requests db₀) y)
    (hz : Reach (system schema) (fun _ _ _ => True) y z) (c eventId eventId' : Uuid)
    (root root' : String) (h : Attests state y c root eventId)
    (h' : Attests state z c root' eventId') :
    ∃ events events', EndsAt events eventId (z.shared.db.eventsOf c) ∧
      EndsAt events' eventId' (z.shared.db.eventsOf c) ∧
      root = recomputeRootFromEvents state.sha (rows events) ∧
      root' = recomputeRootFromEvents state.sha (rows events') ∧
      (events <+: events' ∨ events' <+: events) ∧ (eventId = eventId' → root = root') := by
  obtain ⟨events, ⟨hp, hlast⟩, hroot⟩ := h.events hi hy
  obtain ⟨events', ⟨hp', hlast'⟩, hroot'⟩ := h'.events hi (hy.trans hz)
  have hk := keeps_of_reach hi hy hz
  have hpz := hp.trans (hk.eventsOf c)
  have hids : ((z.shared.db.eventsOf c).map EventRecord.eventId).Nodup :=
    hk.inv'.ids.sublist (List.filter_sublist.map _)
  refine ⟨events, events', ⟨hpz, hlast⟩, ⟨hp', hlast'⟩, hroot, hroot',
    List.prefix_or_prefix_of_prefix hpz hp', ?_⟩
  rintro rfl
  rw [hroot, hroot', EndsAt.unique hids ⟨hpz, hlast⟩ ⟨hp', hlast'⟩]

/-- Two moments: the first of two events is answered, and then the second. -/
theorem sampleMoments : ∃ (y z : LedgerConfig) (first second : CommitResponse),
    Reach (system schema) (fun _ _ _ => True) sampleStart y ∧
      Reach (system schema) (fun _ _ _ => True) y z ∧
      (y.procs 0).1.result = some (.event (.ok (.committed first))) ∧
      (z.procs 1).1.result = some (.event (.ok (.committed second))) ∧
      first.chainId = second.chainId ∧ first.proof.root ≠ second.proof.root := by
  have hrun : (((sampleStart.run (system schema) (fun _ _ _ => True)
      (sampleSteps 0 21 20 none)).bind fun y =>
        (y.run (system schema) (fun _ _ _ => True) (sampleSteps 1 22 21 none)).map fun z =>
          (committedReply y 0).any fun first => (committedReply z 1).any fun second =>
            first.chainId == second.chainId && first.proof.root != second.proof.root)) =
              some true := by decide +kernel
  obtain ⟨y, hy, hrest⟩ := Option.bind_eq_some_iff.mp hrun
  obtain ⟨z, hz, hfacts⟩ := Reach.exists_of_run hrest
  obtain ⟨first, hfirst, hfacts⟩ := (Option.any_eq_true _ _).mp hfacts
  obtain ⟨second, hsecond, hfacts⟩ := (Option.any_eq_true _ _).mp hfacts
  rw [Bool.and_eq_true, beq_iff_eq, bne_iff_ne] at hfacts
  obtain ⟨hchain, hroot⟩ := hfacts
  exact ⟨y, z, first, second, .of_run hy, hz, result_of_committedReply hfirst,
    result_of_committedReply hsecond, hchain, hroot⟩

theorem reads_permanent_sampleRun : ∃ y z : LedgerConfig, Permanent sampleReader y z := by
  obtain ⟨y, z, -, -, hy, hz, -⟩ := sampleMoments
  exact ⟨y, z, reads_permanent sampleReader sampleRequests (Db.empty sampleCapabilities [])
    (ledgerInv_empty _ _) y z hy hz⟩

theorem one_history_sampleRun : ∃ (z : LedgerConfig) (c : Uuid) (root root' : String),
    root ≠ root' ∧ ∃ events events', events <+: z.shared.db.eventsOf c ∧
      events' <+: z.shared.db.eventsOf c ∧
      root = recomputeRootFromEvents sampleState.sha (rows events) ∧
      root' = recomputeRootFromEvents sampleState.sha (rows events') := by
  obtain ⟨y, z, first, second, hy, hz, hfirst, hsecond, hchain, hroot⟩ := sampleMoments
  have hsecond' : Attests sampleReader z first.chainId second.proof.root second.eventId := by
    rw [hchain]
    exact .reply hsecond
  obtain ⟨events, events', h, h', hr, hr', -⟩ := one_history sampleReader sampleRequests
    (Db.empty sampleCapabilities []) (ledgerInv_empty _ _) y z hy hz first.chainId first.eventId
    second.eventId first.proof.root second.proof.root (.reply hfirst) hsecond'
  exact ⟨z, first.chainId, _, _, hroot, events, events', h.1, h'.1, hr, hr'⟩

end EvidentLedger.Ledger
