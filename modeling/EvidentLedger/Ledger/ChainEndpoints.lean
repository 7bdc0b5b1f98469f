import EvidentLedger.Ledger.Tamper

/-!
# The endpoints of a whole chain

`verify_chain` and `export_proof` (`src/service/verification.rs:53-180`), `verify_chain_hardened`
(`service/verifier.rs:19-93`) and `build_attestation` (`service/attestation.rs:8-99`), behind
`GET /verify`, `/attestation` and `/proof`. None of them reads the signatures that are stored with the
events: they sign the root of the rows as they find them.

* A `SELECT` does not fail here, and times are numbers; the warnings of a report, which nothing reads, and
  the exclusions, which are always the same, are left out.
* `Certified`: what an endpoint certifies is anchored event by event, as the read path sees it.
* `CommittedPrefix`: the rows of the chain, as edited, are the first ones that were committed, and each has
  a signature of its event.
* **`chain_endpoints_iff`**: for such edits the endpoints certify anchored events only and sign nothing that
  was not signed before; for all others they certify an event that is not anchored, unless a signature is
  forged or the roots are ambiguous. `edited_chain_certified` is a chain with another hash.
* `anchored_of_exported`: a signature that `export_proof` gave away anchors the rows it was made for.
-/

namespace EvidentLedger.Ledger

open Lib.Interleave Lib.Transaction

/-! ## `verify_chain` and `export_proof` -/

/-- The answer of `verify_chain`. -/
structure ChainReport where
  chainId : Uuid
  valid : Bool
  blocks : Nat
  message : Option String
  errors : Option (List String)
  headEventId : Option Uuid
  proof : Option ProofPayload
  deriving DecidableEq

/-- The answer of `export_proof`. -/
structure ExportedProof where
  leafVersion : Option String
  chainId : Uuid
  headEventId : Option Uuid
  events : List EventLeaf
  proof : Option ProofPayload
  tsa : Option TsaData
  deriving DecidableEq

/-- The rows of a chain, `ORDER BY sequence ASC`. -/
def selectChainRows (db : Db) (chainId : Uuid) : List EventRow :=
  rows (orderBySequence (db.eventsOf chainId))

/-- `Structural check failed`, if it did. -/
def structuralErrors (sha : Sha256) (events : List EventRow) : List String :=
  match checkEventStructure sha events with
  | .ok _ => []
  | .error failure => ["Structural check failed: " ++ debugFailure failure]

variable (state : AppState)

/-- The JSON object `proof`, signed now. -/
def chainProof (chainId : Uuid) (events : List EventRow) : ProofPayload :=
  let merkleRoot := recomputeRootFromEvents state.sha events
  let chainHead := (lastEventId events.getLast?).toString
  { root := merkleRoot
    chainHead
    signature := state.signer.signRoot state.ed chainId.toString merkleRoot chainHead
    publicKey := state.signer.publicKeyHex state.ed
    leavesCount := events.length
    version := some "proof_v1"
    proofType := some "merkle-root-v1" }

/-- `verify_chain`. -/
def verifyChain (db : Db) (chainId : Uuid) : ChainReport :=
  let events := selectChainRows db chainId
  if events = [] then ⟨chainId, true, 0, some "Chain is empty", none, none, none⟩
  else
    let errors := structuralErrors state.sha events
    ⟨chainId, errors.isEmpty, events.length, none, some errors, some (lastEventId events.getLast?),
      some (chainProof state chainId events)⟩

/-- `export_proof`. -/
def exportProof (db : Db) (chainId : Uuid) : ExportedProof :=
  let events := selectChainRows db chainId
  if events = [] then ⟨none, chainId, none, [], none, none⟩
  else
    let proof := chainProof state chainId events
    let tsa := (db.tsaToken? chainId proof.root).map fun row : TsaTokenRow =>
      (⟨some row.tsaTimestamp, some row.tsaSerial, some (Int64.ofNat row.tsaToken.length)⟩ : TsaData)
    ⟨some LEAF_VERSION, chainId, some (lastEventId events.getLast?), events.map EventRow.toLeaf,
      some proof, tsa⟩

/-! ## `build_attestation` -/

/-- `VerificationReport`. -/
structure VerificationReport where
  chainId : Uuid
  valid : Bool
  blocks : Nat
  errors : List String
  headEventId : Option Uuid
  merkleRecomputed : String
  lastEventCreatedAt : Option Int
  deriving DecidableEq

/-- `verify_chain_hardened`. -/
def verifyChainHardened (db : Db) (chainId : Uuid) : VerificationReport :=
  let events := selectChainRows db chainId
  if events = [] then ⟨chainId, false, 0, ["Chain is empty"], none, "", none⟩
  else
    let errors := structuralErrors state.sha events
    let recomputedRoot :=
      match checkEventStructure state.sha events with
      | .ok root => root
      | .error _ => recomputeRootFromEvents state.sha events
    ⟨chainId, errors.isEmpty, events.length, errors, events.getLast?.map (·.eventId), recomputedRoot,
      events.getLast?.map (·.createdAt)⟩

/-- `SacChainState`. -/
structure SacChainState where
  chainId : String
  merkleRoot : String
  headEventId : String
  lastEventTimestamp : Int
  deriving DecidableEq

/-- `SacTsaSnapshot`; `Missing` has none of the three. -/
structure SacTsaSnapshot where
  present : Bool
  provider : Option String
  timestamp : Option Int64
  serial : Option String
  deriving DecidableEq

/-- `SacVerificationStatus`. -/
inductive SacVerificationStatus where
  | verified
  | notFound
  | failed
  deriving Repr, DecidableEq

/-- `SacVerification`. -/
structure SacVerification where
  status : SacVerificationStatus
  signature : Option String
  publicKeyFingerprint : Option String
  errors : List String
  deriving DecidableEq

/-- `SacDocument`, for a chain. -/
structure SacDocument where
  version : String
  issuedAt : Int
  target : String
  state : Option SacChainState
  tsa : Option SacTsaSnapshot
  verification : SacVerification
  deriving DecidableEq

/-- `build_attestation`. -/
def buildAttestation (now : Int) (db : Db) (chainId : Uuid) : SacDocument :=
  let report := verifyChainHardened state db chainId
  if report.blocks = 0 then
    ⟨"1.0", now, chainId.toString, none, none, ⟨.notFound, none, none, report.errors⟩⟩
  else
    -- a chain with rows has a head
    let headEventId := report.headEventId.getD Uuid.nil
    let signature := state.signer.signRoot state.ed chainId.toString report.merkleRecomputed
      headEventId.toString
    let tsa :=
      match db.tsaToken? chainId report.merkleRecomputed with
      | some row => ⟨true, some "freetsa.org/tsr", some row.tsaTimestamp, some row.tsaSerial⟩
      | none => ⟨false, none, none, none⟩
    { version := "1.0"
      issuedAt := now
      target := chainId.toString
      state := some ⟨chainId.toString, report.merkleRecomputed, headEventId.toString,
        report.lastEventCreatedAt.getD 0⟩
      tsa := some tsa
      verification :=
        { status := if report.valid then .verified else .failed
          signature := if report.valid then some signature else none
          publicKeyFingerprint :=
            if report.valid then some (state.signer.publicKeyHex state.ed) else none
          errors := report.errors } }

/-! ## What is certified -/

/-- Every event of the chain is anchored for the read path. -/
def AllAnchored (state : ReadState) (db : Db) (c : Uuid) : Prop :=
  ∀ e ∈ db.eventsOf c, deriveProofStatus (readSnapshot state db e).context = .anchored

/-- **The endpoints certify anchored events only.** -/
structure Certified (state : ReadState) (db : Db) (c : Uuid) : Prop where
  verify : (verifyChain state.toAppState db c).valid = true → AllAnchored state db c
  attestation : ∀ now signature, (buildAttestation state.toAppState now db c).verification.status =
    .verified → (buildAttestation state.toAppState now db c).verification.signature = some signature →
      AllAnchored state db c
  proof : ∀ proof, (exportProof state.toAppState db c).proof = some proof → AllAnchored state db c

/-- The stored signature of every event verifies for the rows up to it. -/
def OwnSignatures (state : ReadState) (db : Db) (c : Uuid) : Prop :=
  ∀ e ∈ db.eventsOf c, e.signature ≠ "" ∧ verifyRoot state.ed c.toString
    (recomputeRootFromEvents state.sha (loadEventPrefix db c e.sequence)) e.eventId.toString e.signature
      (state.signer.publicKeyHex state.ed) = true

/-- A signature of the committed event `r`: the one that is stored with it, or another one for what was
signed then. -/
def EventSignature (state : ReadState) (c : Uuid) (before : List EventRecord) (r : EventRecord)
    (signature : String) : Prop :=
  signature = r.signature ∨ signature ≠ "" ∧ verifyRoot state.ed c.toString
    (recomputeRootFromEvents state.sha (rows (before ++ [r]))) r.eventId.toString signature
      (state.signer.publicKeyHex state.ed) = true

/-- **The rows of a chain, as edited, are a prefix of its committed events**, column by column, and each of
them has a signature of its event. -/
def CommittedPrefix (state : ReadState) (db : Db) (edited : List EventRecord) (c : Uuid) : Prop :=
  ∃ events, events <+: db.eventsOf c ∧
    (selectChainRows { db with events := edited } c).map EventRow.content =
      (rows events).map EventRow.content ∧
    ∀ e ∈ Db.eventsOf { db with events := edited } c, ∃ before r, before ++ [r] <+: events ∧
      r.eventId = e.eventId ∧ EventSignature state c before r e.signature

/-- **What the endpoints sign** was signed when its head was committed. -/
structure SignsCommitted (state : ReadState) (db : Db) (edited : List EventRecord) (c : Uuid) : Prop where
  verify : ∀ proof, (verifyChain state.toAppState { db with events := edited } c).proof = some proof →
    signMessage c.toString proof.root proof.chainHead ∈ committedMessages state.sha db
  attestation : ∀ now signature chain,
    (buildAttestation state.toAppState now { db with events := edited } c).verification.signature =
      some signature →
    (buildAttestation state.toAppState now { db with events := edited } c).state = some chain →
      signMessage chain.chainId chain.merkleRoot chain.headEventId ∈ committedMessages state.sha db
  proof : ∀ proof, (exportProof state.toAppState { db with events := edited } c).proof = some proof →
    signMessage c.toString proof.root proof.chainHead ∈ committedMessages state.sha db

variable {state} {reader : ReadState} {db : Db} {c : Uuid}

theorem mem_orderBySequence {events : List EventRecord} {e : EventRecord} :
    e ∈ orderBySequence events ↔ e ∈ events := (List.perm_insertionSort _ _).mem_iff

theorem selectChainRows_eq_nil : selectChainRows db c = [] ↔ db.eventsOf c = [] := by
  unfold selectChainRows rows
  rw [List.map_eq_nil_iff, List.eq_nil_iff_forall_not_mem, List.eq_nil_iff_forall_not_mem]
  exact forall_congr' fun e => mem_orderBySequence.not

/-- An event is a row of its own prefix. -/
theorem loadEventPrefix_ne_nil {e : EventRecord} (he : e ∈ db.eventsOf c) :
    loadEventPrefix db c e.sequence ≠ [] := by
  have hself : e ∈ orderBySequence ((db.eventsOf c).filter (·.sequence ≤ e.sequence)) :=
    mem_orderBySequence.mpr (List.mem_filter.mpr ⟨he, by simp⟩)
  unfold loadEventPrefix
  intro h
  rw [List.map_eq_nil_iff] at h
  exact List.ne_nil_of_mem hself h

theorem allAnchored_iff : AllAnchored reader db c ↔ OwnSignatures reader db c := by
  refine forall_congr' fun e => forall_congr' fun he => ?_
  have hchain : e.chainId = c := by simpa using (List.mem_filter.mp he).2
  rw [readSnapshot, hchain, buildProofSnapshotRead_anchored]
  exact and_iff_right (loadEventPrefix_ne_nil he)

/-- A proof is given away for every chain with rows. -/
theorem exportProof_proof (h : db.eventsOf c ≠ []) :
    (exportProof state db c).proof = some (chainProof state c (selectChainRows db c)) := by
  unfold exportProof
  rw [if_neg (selectChainRows_eq_nil.not.mpr h)]

/-- **The endpoints certify what is anchored** exactly for chains without rows, and for chains whose own
signatures verify. -/
theorem certified_iff : Certified reader db c ↔ db.eventsOf c = [] ∨ OwnSignatures reader db c := by
  rw [← allAnchored_iff]
  constructor
  · intro h
    by_cases hrows : db.eventsOf c = []
    · exact Or.inl hrows
    · exact Or.inr (h.proof _ (exportProof_proof hrows))
  · rintro (hrows | hall)
    · have hall : AllAnchored reader db c := by
        intro e he
        rw [hrows] at he
        exact absurd he (by simp)
      exact ⟨fun _ => hall, fun _ _ _ _ => hall, fun _ _ => hall⟩
    · exact ⟨fun _ => hall, fun _ _ _ _ => hall, fun _ _ => hall⟩

/-! ## Edits that change nothing -/

section Edited

variable {edited : List EventRecord}

/-- Rows that are linked in some order are sorted into it. -/
theorem orderBySequence_perm {l m : List EventRecord} (h : l.Perm m) (hm : Linked none (rows m)) :
    orderBySequence l = m := by
  have hsorted : m.Pairwise (·.sequence ≤ ·.sequence) := by
    rw [← orderBySequence_linked hm]
    exact List.pairwise_insertionSort _ _
  refine List.Perm.eq_of_pairwise (fun a b ha hb hab hba => ?_) (List.pairwise_insertionSort _ _) hsorted
    ((List.perm_insertionSort _ _).trans h)
  have ha' : a ∈ m := h.mem_iff.mp (mem_orderBySequence.mp ha)
  obtain ⟨i, hi, rfl⟩ := List.getElem_of_mem ha'
  obtain ⟨j, hj, rfl⟩ := List.getElem_of_mem hb
  have hsequence := Int64.le_antisymm hab hba
  have hi' := toInt_sequence hm i hi
  rw [hsequence, toInt_sequence hm j hj] at hi'
  obtain rfl : j = i := by omega
  rfl

/-- **The rows up to one of linked rows** are those before it and itself. -/
theorem loadEventPrefix_split (hl : Linked none (selectChainRows db c)) {before after : List EventRecord}
    {e : EventRecord} (hsplit : orderBySequence (db.eventsOf c) = before ++ e :: after) :
    loadEventPrefix db c e.sequence = rows (before ++ [e]) := by
  have hp : before ++ [e] <+: orderBySequence (db.eventsOf c) := ⟨after, by rw [hsplit]; simp⟩
  have hperm : ((db.eventsOf c).filter (·.sequence ≤ e.sequence)).Perm (before ++ [e]) := by
    rw [← filter_prefix hl hp]
    exact (List.perm_insertionSort _ _).symm.filter _
  have hl' : Linked none (rows (before ++ [e])) := by
    obtain ⟨rest, hrest⟩ := hp
    rw [selectChainRows, ← hrest, rows_append, linked_append] at hl
    exact hl.1
  rw [loadEventPrefix, orderBySequence_perm hperm hl']
  rfl

/-- The rows up to the last one are all of them. -/
theorem loadEventPrefix_last (hne : db.eventsOf c ≠ []) :
    ∃ before, ∃ e ∈ db.eventsOf c, orderBySequence (db.eventsOf c) = before ++ [e] ∧
      loadEventPrefix db c e.sequence = selectChainRows db c := by
  have hne' : orderBySequence (db.eventsOf c) ≠ [] := fun h =>
    selectChainRows_eq_nil.not.mpr hne (List.map_eq_nil_iff.mpr h)
  obtain ⟨before, e, hsplit⟩ := (List.eq_nil_or_concat' _).resolve_left hne'
  refine ⟨before, e, mem_orderBySequence.mp (by rw [hsplit]; simp), hsplit, ?_⟩
  have hall : (db.eventsOf c).filter (·.sequence ≤ e.sequence) = db.eventsOf c := by
    refine List.filter_eq_self.mpr fun a ha => decide_eq_true ?_
    have hmem : a ∈ before ++ [e] := hsplit ▸ mem_orderBySequence.mpr ha
    have hsorted : (before ++ [e]).Pairwise (·.sequence ≤ ·.sequence) :=
      hsplit ▸ List.pairwise_insertionSort _ _
    rcases List.mem_append.mp hmem with hmem | hmem
    · exact (List.pairwise_append.mp hsorted).2.2 a hmem e List.mem_cons_self
    · rw [List.mem_singleton.mp hmem]
      exact Int64.le_refl _
  rw [loadEventPrefix, hall]
  rfl

/-- Two lists of rows with equal columns, split at one row of the first. -/
theorem exists_split {before after events : List EventRecord} {e : EventRecord}
    (h : (rows (before ++ e :: after)).map EventRow.content = (rows events).map EventRow.content) :
    ∃ before' r, before' ++ [r] <+: events ∧ r.eventId = e.eventId ∧
      (rows (before ++ [e])).map EventRow.content = (rows (before' ++ [r])).map EventRow.content := by
  have hlen : (before ++ e :: after).length = events.length := by
    simpa [rows] using congrArg List.length h
  have hlt : before.length < events.length := by
    rw [← hlen]
    simp
  have htake := congrArg (List.take (before.length + 1)) h
  simp only [rows, List.map_map, ← List.map_take] at htake
  rw [List.take_succ_eq_append_getElem hlt, List.take_append, List.take_of_length_le (by omega)] at htake
  have hself : (e :: after).take (before.length + 1 - before.length) = [e] := by simp
  rw [hself] at htake
  refine ⟨events.take before.length, events[before.length], ?_, ?_, ?_⟩
  · rw [← List.take_succ_eq_append_getElem hlt]
    exact List.take_prefix _ _
  · simp only [List.map_append, List.map_singleton] at htake
    have hlast := (List.append_inj' htake rfl).2
    simp only [Function.comp, EventRow.content, EventRecord.toRow, List.cons.injEq, Prod.mk.injEq] at hlast
    exact hlast.1.2.1.symm
  · simpa only [rows, List.map_map] using htake

end Edited

/-! ## What the signatures say -/

section Edited

variable {edited : List EventRecord}

/-- An edit that changes nothing. -/
theorem committedPrefix_self (hi : LedgerInv reader.toAppState db) (c : Uuid) :
    CommittedPrefix reader db db.events c := by
  have hl := (hi.chains c).linked
  refine ⟨db.eventsOf c, List.prefix_rfl, ?_, fun e he => ?_⟩
  · rw [selectChainRows, orderBySequence_linked hl]
  · obtain ⟨before, after, hsplit⟩ := List.append_of_mem he
    exact ⟨before, e, ⟨after, by rw [hsplit]; simp⟩, rfl, Or.inl rfl⟩

/-- Event ids are unique: two prefixes that end with one id are one. -/
theorem eq_of_prefix {events before before' : List EventRecord} {r r' : EventRecord}
    (hids : (events.map EventRecord.eventId).Nodup) (h : before ++ [r] <+: events)
    (h' : before' ++ [r'] <+: events) (hid : r.eventId = r'.eventId) : before ++ [r] = before' ++ [r'] := by
  have shorter : ∀ {b b' : List EventRecord} {a a' : EventRecord}, b ++ [a] <+: events →
      b' ++ [a'] <+: events → a.eventId = a'.eventId → b'.length ≤ b.length := by
    intro b b' a a' hb hb' haa
    by_contra hlt
    have hp : b ++ [a] <+: b' := List.prefix_of_prefix_length_le hb
      ((List.prefix_append b' [a']).trans hb') (by simp; omega)
    have hnodup := hids.sublist (hb'.sublist.map _)
    rw [List.map_append, List.map_singleton, ← haa] at hnodup
    exact (List.nodup_append.mp hnodup).2.2 _ (List.mem_map_of_mem (hp.subset (by simp))) _
      List.mem_cons_self rfl
  have hlen := Nat.le_antisymm (shorter h' h hid.symm) (shorter h h' hid)
  exact (List.prefix_of_prefix_length_le h h' (by simp [hlen])).eq_of_length (by simp [hlen])

/-- **The rows up to one** of the rows of a committed prefix are those up to the event with its id. -/
theorem rows_of_committedPrefix (hi : LedgerInv reader.toAppState db) {events : List EventRecord}
    (hp : events <+: db.eventsOf c)
    (hcontent : (selectChainRows { db with events := edited } c).map EventRow.content =
      (rows events).map EventRow.content)
    {e : EventRecord} (he : e ∈ Db.eventsOf { db with events := edited } c) {before : List EventRecord}
    {r : EventRecord} (hr : before ++ [r] <+: events) (hid : r.eventId = e.eventId) :
    (loadEventPrefix { db with events := edited } c e.sequence).map EventRow.content =
      (rows (before ++ [r])).map EventRow.content := by
  have hlinked : Linked none (rows events) := by
    obtain ⟨rest, hrest⟩ := hp
    have hl := (hi.chains c).linked
    rw [← hrest, rows_append, linked_append] at hl
    exact hl.1
  obtain ⟨before', after, hsplit⟩ := List.append_of_mem (mem_orderBySequence.mpr he)
  rw [loadEventPrefix_split (linked_congr rfl hcontent.symm hlinked) hsplit]
  rw [selectChainRows, hsplit] at hcontent
  obtain ⟨before'', r', hr', hid', heq⟩ := exists_split hcontent
  have hids : (events.map EventRecord.eventId).Nodup :=
    hi.ids.sublist ((hp.sublist.trans List.filter_sublist).map _)
  rw [heq, eq_of_prefix hids hr hr' (hid.trans hid'.symm)]

/-- A signature of an event verifies for the rows up to it. -/
theorem EventSignature.verifies (hed : reader.ed.Correct) (hi : LedgerInv reader.toAppState db)
    {before : List EventRecord} {r : EventRecord} (hr : before ++ [r] <+: db.eventsOf c)
    {signature : String} (h : EventSignature reader c before r signature) :
    signature ≠ "" ∧ verifyRoot reader.ed c.toString
      (recomputeRootFromEvents reader.sha (rows (before ++ [r]))) r.eventId.toString signature
        (reader.signer.publicKeyHex reader.ed) = true := by
  rcases h with rfl | h
  · have hchain : r.chainId = c := by simpa using (List.mem_filter.mp (hr.subset (by simp))).2
    subst hchain
    exact verifyRoot_committed hed hi hr
  · exact h

/-- **A committed prefix verifies**, row by row. -/
theorem ownSignatures_of_committedPrefix (hed : reader.ed.Correct) (hi : LedgerInv reader.toAppState db)
    (h : CommittedPrefix reader db edited c) : OwnSignatures reader { db with events := edited } c := by
  obtain ⟨events, hp, hcontent, hsigned⟩ := h
  intro e he
  obtain ⟨before, r, hr, hid, hsignature⟩ := hsigned e he
  rw [recompute_congr (rows_of_committedPrefix hi hp hcontent he hr hid), ← hid]
  exact hsignature.verifies hed hi (hr.trans hp)

/-- **What is signed for a committed prefix** was signed when it was committed. -/
theorem message_of_committedPrefix (hne : Db.eventsOf { db with events := edited } c ≠ [])
    (h : CommittedPrefix reader db edited c) :
    signMessage c.toString
      (recomputeRootFromEvents reader.sha (selectChainRows { db with events := edited } c))
      (lastEventId (selectChainRows { db with events := edited } c).getLast?).toString ∈
        committedMessages reader.sha db := by
  obtain ⟨events, hp, hcontent, -⟩ := h
  obtain ⟨before, e, -, hsplit, -⟩ := loadEventPrefix_last hne
  have hsplit' : selectChainRows { db with events := edited } c = rows (before ++ [e]) :=
    congrArg rows hsplit
  rw [hsplit'] at hcontent ⊢
  have hcontent' : (rows (before ++ e :: [])).map EventRow.content =
      (rows events).map EventRow.content := hcontent
  obtain ⟨before', r, hr, hid, heq⟩ := exists_split hcontent'
  rw [lastEventId_append, recompute_congr heq, ← hid]
  exact ⟨c, before', r, hr.trans hp, rfl⟩

/-- An attestation names the root and the last row of the chain. -/
theorem attestation_state {db : Db} {now : Int} {chain : SacChainState} (hne : db.eventsOf c ≠ [])
    (h : (buildAttestation state now db c).state = some chain) :
    chain.chainId = c.toString ∧
      chain.merkleRoot = recomputeRootFromEvents state.sha (selectChainRows db c) ∧
      chain.headEventId = (lastEventId (selectChainRows db c).getLast?).toString := by
  have hrows := selectChainRows_eq_nil.not.mpr hne
  have hroot : (match checkEventStructure state.sha (selectChainRows db c) with
      | .ok root => root
      | .error _ => recomputeRootFromEvents state.sha (selectChainRows db c)) =
      recomputeRootFromEvents state.sha (selectChainRows db c) := by
    cases hcheck : checkEventStructure state.sha (selectChainRows db c) with
    | ok root => exact ((checkEventStructure_ok hrows).mp hcheck).2.symm
    | error failure => rfl
  obtain ⟨last, hlast⟩ : ∃ last, (selectChainRows db c).getLast? = some last :=
    Option.isSome_iff_exists.mp (by simpa using hrows)
  simp only [buildAttestation, verifyChainHardened, if_neg hrows, List.length_eq_zero_iff,
    Option.some.injEq, hroot, hlast] at h
  subst h
  exact ⟨rfl, rfl, by rw [hlast]; rfl⟩

theorem signsCommitted_of_committedPrefix (h : CommittedPrefix reader db edited c) :
    SignsCommitted reader db edited c := by
  by_cases hne : Db.eventsOf { db with events := edited } c = []
  · have hrows := selectChainRows_eq_nil.mpr hne
    refine ⟨fun proof hproof => ?_, fun now signature chain hsignature _ => ?_, fun proof hproof => ?_⟩
    · simp [verifyChain, hrows] at hproof
    · simp [buildAttestation, verifyChainHardened, hrows] at hsignature
    · simp [exportProof, hrows] at hproof
  · have hmessage := message_of_committedPrefix hne h
    have hrows := selectChainRows_eq_nil.not.mpr hne
    refine ⟨fun proof hproof => ?_, fun now signature chain hsignature hchain => ?_, fun proof hproof => ?_⟩
    · simp only [verifyChain, if_neg hrows, Option.some.injEq] at hproof
      subst hproof
      exact hmessage
    · obtain ⟨hchainId, hroot, hhead⟩ := attestation_state hne hchain
      rw [hchainId, hroot, hhead]
      exact hmessage
    · rw [exportProof_proof hne, Option.some.injEq] at hproof
      subst hproof
      exact hmessage

/-- The root of the edited rows does not tell them from a committed prefix: the two computations collide,
or the only row reads as a node of the tree (leaves and nodes are hashed alike). -/
def Ambiguous (reader : ReadState) (db : Db) (edited : List EventRecord) (c : Uuid) : Prop :=
  ∃ before r, before ++ [r] <+: db.eventsOf c ∧
    (Collision reader.sha (recomputeInputs reader.sha (selectChainRows { db with events := edited } c) ++
        recomputeInputs reader.sha (rows (before ++ [r]))) ∨
      ∃ row, selectChainRows { db with events := edited } c = [row] ∧ ReadsAsNode reader.sha row)

/-- **Rows whose own signatures verify** are committed ones. -/
theorem committedPrefix_of_ownSignatures (hi : LedgerInv reader.toAppState db)
    (hu : ∀ e ∈ edited, Unforged reader.ed (reader.signer.publicKeyHex reader.ed)
      (committedMessages reader.sha db) e.signature)
    (hunique : ((Db.eventsOf { db with events := edited } c).map (·.sequence)).Nodup)
    (hown : OwnSignatures reader { db with events := edited } c) :
    CommittedPrefix reader db edited c ∨ Ambiguous reader db edited c := by
  by_cases hne : Db.eventsOf { db with events := edited } c = []
  · refine Or.inl ⟨[], List.nil_prefix, by rw [selectChainRows_eq_nil.mpr hne]; rfl, fun e he => ?_⟩
    rw [hne] at he
    exact absurd he (by simp)
  obtain ⟨front, e, he, hsplit, hload⟩ := loadEventPrefix_last hne
  obtain ⟨-, hverify⟩ := hown e he
  rw [hload] at hverify
  obtain ⟨before, r, hp, -, hl, hroot⟩ :=
    committed_of_verifyRoot hi (hu e (List.mem_filter.mp he).1) hverify
  by_cases hambiguous : Ambiguous reader db edited c
  · exact Or.inr hambiguous
  left
  have hcontent : (selectChainRows { db with events := edited } c).map EventRow.content =
      (rows (before ++ [r])).map EventRow.content := by
    have hc : ¬ Collision reader.sha (recomputeInputs reader.sha
        (selectChainRows { db with events := edited } c) ++
          recomputeInputs reader.sha (rows (before ++ [r]))) :=
      fun hc => hambiguous ⟨before, r, hp, Or.inl hc⟩
    refine root_binding_nodup (injOn_of_not_collision hc) (selectChainRows_eq_nil.not.mpr hne)
      (by simp [rows]) ?_ hl.nodup_content (fun row hrow hnode =>
        hambiguous ⟨before, r, hp, Or.inr ⟨row, hrow, hnode⟩⟩) (fun row hrow => ?_)
      (fun b hb => List.mem_append_left _ hb) (fun b hb => List.mem_append_right _ hb) hroot
    · -- one sequence, one row
      have hsequences : ((selectChainRows { db with events := edited } c).map (·.sequence)).Nodup := by
        rw [selectChainRows, rows, List.map_map]
        exact ((List.perm_insertionSort _ _).map _).nodup_iff.mpr hunique
      rw [show (·.sequence) = Prod.fst ∘ EventRow.content from rfl, ← List.map_map] at hsequences
      exact hsequences.of_map
    · rw [hrow] at hl
      exact not_readsAsNode (toInt_eq_one.mp (by simpa [lastSequence] using hl.1))
  refine ⟨before ++ [r], hp, hcontent, fun e' he' => ?_⟩
  obtain ⟨front', after, hsplit'⟩ := List.append_of_mem (mem_orderBySequence.mpr he')
  obtain ⟨hsignature, hverify'⟩ := hown e' he'
  have hload' := loadEventPrefix_split (linked_congr rfl hcontent.symm hl) hsplit'
  rw [selectChainRows, hsplit'] at hcontent
  obtain ⟨before', r', hr', hid', heq⟩ := exists_split hcontent
  rw [hload', recompute_congr heq, ← hid'] at hverify'
  exact ⟨before', r', hr', hid', Or.inr ⟨hsignature, hverify'⟩⟩

end Edited

/-- **A signing oracle**: the signature that `export_proof` makes for edited rows anchors them, once it is
stored with the last of them. -/
theorem anchored_of_exported (hed : reader.ed.Correct) {e : EventRecord} (he : e ∈ db.eventsOf c)
    (hload : loadEventPrefix db c e.sequence = selectChainRows db c)
    (hlast : lastEventId (selectChainRows db c).getLast? = e.eventId) {proof : ProofPayload}
    (hproof : (exportProof reader.toAppState db c).proof = some proof)
    (hstored : e.signature = proof.signature) :
    deriveProofStatus (readSnapshot reader db e).context = .anchored := by
  have hchain : e.chainId = c := by simpa using (List.mem_filter.mp he).2
  rw [exportProof_proof (List.ne_nil_of_mem he)] at hproof
  obtain rfl := Option.some.inj hproof
  rw [readSnapshot, hchain, hload, buildProofSnapshotRead_anchored, hstored]
  refine ⟨selectChainRows_eq_nil.not.mpr (List.ne_nil_of_mem he), signRoot_ne_empty _ _ _ _, ?_⟩
  rw [← hlast]
  exact verifyRoot_signRoot hed _ _ _ _

/-- **When the endpoints certify committed history**: for every edit of the events of a reachable state, if
the rows of the chain are still a committed prefix, and only then, unless a signature is forged or the
roots are ambiguous. The edited table keeps `events_chain_sequence_unique`. -/
theorem chain_endpoints_iff (state : ReadState) (hed : state.ed.Correct) (requests : Nat → Request)
    (capabilities : Uuid → Option AccountCapabilities) (identityKeys : List IdentityKeyRow)
    (y : LedgerConfig) (hy : Reach (system schema) (fun _ _ _ => True)
      (start state.toAppState requests (Db.empty capabilities identityKeys)) y)
    (edited : List EventRecord) (c : Uuid) :
    (CommittedPrefix state y.shared.db edited c →
      Certified state { y.shared.db with events := edited } c ∧
        SignsCommitted state y.shared.db edited c) ∧
    ((∀ e ∈ edited, Unforged state.ed (state.signer.publicKeyHex state.ed)
        (committedMessages state.sha y.shared.db) e.signature) →
      ((Db.eventsOf { y.shared.db with events := edited } c).map (·.sequence)).Nodup →
      Certified state { y.shared.db with events := edited } c →
        CommittedPrefix state y.shared.db edited c ∨ Ambiguous state y.shared.db edited c) := by
  have hx : (Setting.all state.toAppState requests (Db.empty capabilities identityKeys)).Reach
      (start state.toAppState requests (Db.empty capabilities identityKeys)) y := hy
  have hi := (ledger_reach hx).1.ledgerInv (ledgerInv_empty capabilities identityKeys)
  refine ⟨fun hprefix => ⟨?_, signsCommitted_of_committedPrefix hprefix⟩, fun hu hunique hcertified => ?_⟩
  · exact certified_iff.mpr (Or.inr (ownSignatures_of_committedPrefix hed hi hprefix))
  · refine committedPrefix_of_ownSignatures hi hu hunique ((certified_iff.mp hcertified).elim ?_ fun h => h)
    intro hnone e he
    rw [hnone] at he
    exact absurd he (by simp)

/-! ## Another hash -/

/-- The committed event with another hash. -/
def sampleEdited : EventRecord := { sampleCommitted with fileHash := "bb" }

theorem exists_sampleCommitted : ∃ y : LedgerConfig,
    Reach (system schema) (fun _ _ _ => True)
      (start sampleVerifier.toAppState sampleRequests (Db.empty sampleCapabilities [])) y ∧
      y.shared.db.events = [sampleCommitted] := by
  have hrun : ((start sampleVerifier.toAppState sampleRequests (Db.empty sampleCapabilities [])).run
      (system schema) (fun _ _ _ => True) (sampleSteps 0 15 20 none)).map (·.shared.db.events) =
        some [sampleCommitted] := by decide +kernel
  exact Reach.exists_of_run hrun

/-- **An edited chain is certified**: the chain is valid for `verify_chain`, and its event is not
anchored. -/
theorem edited_chain_certified : ∃ y : LedgerConfig,
    Reach (system schema) (fun _ _ _ => True)
      (start sampleVerifier.toAppState sampleRequests (Db.empty sampleCapabilities [])) y ∧
    (verifyChain sampleVerifier.toAppState { y.shared.db with events := [sampleEdited] }
      (Uuid.small 9)).valid = true ∧
    ¬ Certified sampleVerifier { y.shared.db with events := [sampleEdited] } (Uuid.small 9) := by
  obtain ⟨y, hy, -⟩ := exists_sampleCommitted
  have hrows : selectChainRows { y.shared.db with events := [sampleEdited] } (Uuid.small 9) =
      [sampleEdited.toRow] := rfl
  have hload : loadEventPrefix { y.shared.db with events := [sampleEdited] } sampleEdited.chainId
      sampleEdited.sequence = [sampleEdited.toRow] := rfl
  have hvalid : (verifyChain sampleVerifier.toAppState { y.shared.db with events := [sampleEdited] }
      (Uuid.small 9)).valid = true := by
    unfold verifyChain
    rw [hrows]
    decide +kernel
  refine ⟨y, hy, hvalid, fun h => ?_⟩
  have hanchored := h.verify hvalid sampleEdited List.mem_cons_self
  rw [readSnapshot, hload] at hanchored
  exact absurd hanchored (by decide +kernel)

theorem chain_endpoints_iff_sampleRun : ∃ y : LedgerConfig, y.shared.db.events = [sampleCommitted] ∧
    Certified sampleVerifier y.shared.db (Uuid.small 9) ∧
    (CommittedPrefix sampleVerifier y.shared.db y.shared.db.events (Uuid.small 9) ∨
      Ambiguous sampleVerifier y.shared.db y.shared.db.events (Uuid.small 9)) := by
  obtain ⟨y, hy, hevents⟩ := exists_sampleCommitted
  have hi := (ledger_reach (x := Setting.all sampleVerifier.toAppState sampleRequests
    (Db.empty sampleCapabilities [])) hy).1.ledgerInv (ledgerInv_empty sampleCapabilities [])
  obtain ⟨hkept, hcertified⟩ := chain_endpoints_iff sampleVerifier (sampleEd_correct _) sampleRequests
    sampleCapabilities [] y hy y.shared.db.events (Uuid.small 9)
  obtain ⟨hcertifies, -⟩ := hkept (committedPrefix_self hi _)
  refine ⟨y, hevents, hcertifies, hcertified (unforged_sampleCommitted hevents) ?_ hcertifies⟩
  rw [Db.eventsOf, hevents]
  decide +kernel

end EvidentLedger.Ledger
