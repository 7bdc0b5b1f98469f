import EvidentLedger.Ledger.Expiry
import EvidentLedger.Ledger.Tamper

/-!
# What an account sees of the chains of others

Two states of the tables that differ only in the chains of other accounts, and what an account is
answered in each: by `GET /v1/proof`, `GET /v1/verify` (`ReadPath`), and `POST /v1/events` with the
tables to itself (`Decision`).

* `Foreign`: the chain is not there, or it is another's. In the two states a chain is the same, or
  foreign in both (`SameFor`).
* The reads find only events of the account (`verifyEventAccess_iff`).
* A submission writes to a chain that is not there and not to one of another account. An event id is a
  key of the whole table.

## Results

* **`foreign_chains_hidden`**: the reads answer the same, and so does a submission to a chain that the
  account may write to in both states or in neither, whose event id is taken in both or in neither.
* `foreign_chain_told`: a submission to the chain of another account is refused, and to one that is not
  there it is not.
-/

namespace EvidentLedger.Ledger

open Lib.Interleave Lib.Transaction

/-! ## Two states -/

/-- The chain is not there, or it is another's. -/
def Foreign (account c : Uuid) (db : Db) : Prop :=
  (db.chain? c = none ∧ db.eventsOf c = []) ∨
    ∃ other, db.owner? c = some other ∧ other ≠ account

/-- The same chain, with its events and tokens. -/
structure SameChain (c : Uuid) (db db' : Db) : Prop where
  chain : db'.chain? c = db.chain? c
  events : db'.eventsOf c = db.eventsOf c
  tokens : ∀ root, db'.tsaToken? c root = db.tsaToken? c root

/-- **Only chains of others differ**, with their events and tokens. Event ids are unique in both. -/
structure SameFor (account : Uuid) (db db' : Db) : Prop where
  chains : ∀ c, SameChain c db db' ∨ Foreign account c db ∧ Foreign account c db'
  capabilities : db'.capabilities account = db.capabilities account
  usage : ∀ month, db'.usage? account month = db.usage? account month
  records : ∀ key, db'.record? account key = db.record? account key
  keys : db'.identityKeys = db.identityKeys
  ids : (db.events.map EventRecord.eventId).Nodup
  ids' : (db'.events.map EventRecord.eventId).Nodup

section States

variable {account c eventId : Uuid} {db db' : Db} {e : EventRecord}

theorem SameChain.symm (h : SameChain c db db') : SameChain c db' db :=
  ⟨h.chain.symm, h.events.symm, fun root => (h.tokens root).symm⟩

theorem SameFor.symm (h : SameFor account db db') : SameFor account db' db where
  chains c := (h.chains c).imp SameChain.symm And.symm
  capabilities := h.capabilities.symm
  usage month := (h.usage month).symm
  records key := (h.records key).symm
  keys := h.keys.symm
  ids := h.ids'
  ids' := h.ids

theorem SameChain.owner? (h : SameChain c db db') : db'.owner? c = db.owner? c := by
  rw [Db.owner?, Db.owner?, h.chain]

/-- A chain of the account is not foreign. -/
theorem not_foreign (howner : db.owner? c = some account) : ¬ Foreign account c db := by
  rintro (⟨hnone, -⟩ | ⟨other, hother, hne⟩)
  · rw [Db.owner?, hnone] at howner
    exact absurd howner (by simp)
  · exact hne (Option.some.inj (hother.symm.trans howner))

theorem SameFor.own (h : SameFor account db db') (howner : db.owner? c = some account) :
    SameChain c db db' :=
  (h.chains c).resolve_right fun hf => not_foreign howner hf.1

/-! ## Reads -/

/-- **The reader of an event** is the owner of its chain. -/
theorem verifyEventAccess_iff (hids : (db.events.map EventRecord.eventId).Nodup) :
    verifyEventAccess db account eventId = .ok e ↔
      e ∈ db.events ∧ e.eventId = eventId ∧ db.owner? e.chainId = some account := by
  constructor
  · intro h
    obtain ⟨hmem, hid⟩ := mem_of_verifyEventAccess h
    refine ⟨hmem, hid, ?_⟩
    unfold verifyEventAccess at h
    split at h
    · exact absurd h (by simp)
    · split at h
      · exact absurd h (by simp)
      · rename_i howner
        split_ifs at h with hother
        obtain rfl := Except.ok.inj h
        rw [howner, not_not.mp hother]
  · rintro ⟨hmem, rfl, howner⟩
    exact verifyEventAccess_owner hids hmem howner

/-- Whoever is not is answered as if there were no event. -/
theorem verifyEventAccess_error {err : ReadError}
    (h : verifyEventAccess db account eventId = .error err) : err = .notFound := by
  unfold verifyEventAccess at h
  split at h
  · exact (Except.error.inj h).symm
  · split at h
    · exact (Except.error.inj h).symm
    · split_ifs at h
      exact (Except.error.inj h).symm

theorem SameFor.reads (h : SameFor account db db')
    (hread : verifyEventAccess db account eventId = .ok e) :
    verifyEventAccess db' account eventId = .ok e := by
  obtain ⟨hmem, hid, howner⟩ := (verifyEventAccess_iff h.ids).mp hread
  have hsame := h.own howner
  refine (verifyEventAccess_iff h.ids').mpr ⟨?_, hid, hsame.owner?.trans howner⟩
  have hchain : e ∈ db.eventsOf e.chainId := List.mem_filter.mpr ⟨hmem, by simp⟩
  rw [← hsame.events] at hchain
  exact (List.mem_filter.mp hchain).1

theorem SameFor.verifyEventAccess (h : SameFor account db db') :
    verifyEventAccess db' account eventId = verifyEventAccess db account eventId := by
  cases hread : Ledger.verifyEventAccess db account eventId with
  | ok e => exact h.reads hread
  | error err =>
    cases hread' : Ledger.verifyEventAccess db' account eventId with
    | ok e => exact absurd ((h.symm.reads hread').symm.trans hread) (by simp)
    | error err' => rw [verifyEventAccess_error hread, verifyEventAccess_error hread']

variable {state : ReadState} {cache cache' : TsaCache} {requestId : Uuid}

theorem SameChain.readSnapshot (h : SameChain e.chainId db db') :
    readSnapshot state db' e = readSnapshot state db e := by
  rw [Ledger.readSnapshot, Ledger.readSnapshot, loadEventPrefix, loadEventPrefix, h.events]

/-- The outcome for a token depends on its own cache columns. -/
theorem resolveAndCache_congr {root : String} {token : List UInt8}
    (hcache : cache' c root = cache c root) :
    (resolveAndCacheTsaVerification state cache' c root token).1 =
      (resolveAndCacheTsaVerification state cache c root token).1 := by
  unfold resolveAndCacheTsaVerification
  rw [hcache]
  dsimp only
  cases cachedStatusIfFresh (cache c root) (sha256Hex state.sha token) with
  | none | some => rfl

theorem SameChain.resolveProofState (state : ReadState) (snapshot : ProofSnapshot)
    (h : SameChain c db db') (hcache : ∀ root, cache' c root = cache c root) :
    (resolveProofState state db' cache' c snapshot).1 =
      (resolveProofState state db cache c snapshot).1 := by
  unfold Ledger.resolveProofState
  rw [h.tokens]
  cases db.tsaToken? c snapshot.merkleRoot with
  | none => rfl
  | some row =>
    simp only [resolveAndCache_congr (hcache snapshot.merkleRoot)]

/-- The response depends on the resolved state alone. -/
theorem buildProofResponse_congr (h : SameChain e.chainId db db')
    (hcache : ∀ root, cache' e.chainId root = cache e.chainId root) :
    (buildProofResponse state db' cache' e requestId).1 =
      (buildProofResponse state db cache e requestId).1 := by
  have hresolved := h.resolveProofState state (readSnapshot state db e) hcache
  simp only [buildProofResponse, h.readSnapshot, hresolved]
  cases (Ledger.resolveProofState state db cache e.chainId (readSnapshot state db e)).1.status with
  | pending | failed | anchored => rfl

/-- **`GET /v1/proof`** answers the same. -/
theorem SameFor.proofHandler (h : SameFor account db db')
    (hcache : ∀ c root, db.owner? c = some account → cache' c root = cache c root) :
    (proofHandler state db' cache' account eventId requestId).map Prod.fst =
      (proofHandler state db cache account eventId requestId).map Prod.fst := by
  unfold Ledger.proofHandler
  rw [h.verifyEventAccess]
  cases hread : Ledger.verifyEventAccess db account eventId with
  | error err => rfl
  | ok e =>
    obtain ⟨-, -, howner⟩ := (verifyEventAccess_iff h.ids).mp hread
    exact congrArg Except.ok (buildProofResponse_congr (h.own howner) fun root =>
      hcache e.chainId root howner)

theorem SameChain.verifyResponse {provided : Option String} {root : String}
    (h : SameChain e.chainId db db') (hkeys : db'.identityKeys = db.identityKeys) :
    verifyResponse state db' e provided root requestId =
      verifyResponse state db e provided root requestId := by
  simp only [Ledger.verifyResponse, verifyIdentity, loadEventPrefix, h.events, hkeys]

/-- **`GET /v1/verify`** answers the same. -/
theorem SameFor.verifyHandler {fileHash : Option String} (h : SameFor account db db')
    (hcache : ∀ c root, db.owner? c = some account → cache' c root = cache c root) :
    (verifyHandler state db' cache' account eventId fileHash requestId).1 =
      (verifyHandler state db cache account eventId fileHash requestId).1 := by
  unfold Ledger.verifyHandler
  rw [h.verifyEventAccess]
  cases hread : Ledger.verifyEventAccess db account eventId with
  | error err => rfl
  | ok e =>
    obtain ⟨-, -, howner⟩ := (verifyEventAccess_iff h.ids).mp hread
    have hsame := h.own howner
    cases normalizeQueryFileHash fileHash with
    | error err => rfl
    | ok provided =>
      have hresolved := hsame.resolveProofState state (readSnapshot state db e) fun root =>
        hcache e.chainId root howner
      simp only [hsame.readSnapshot, hresolved, hsame.verifyResponse h.keys]
      cases (Ledger.resolveProofState state db cache e.chainId (readSnapshot state db e)).1.status with
      | pending | failed | anchored => rfl

end States

/-! ## Submissions -/

section Submissions

variable {account : Uuid} {db db' : Db} {state : AppState} {key : String} {now : Int}
  {body : V1SubmitEventRequest} {c : Uuid}

/-- A foreign chain that the account may write to is not there. -/
theorem Foreign.absent (h : Foreign account c db) (hwrite : db.mayWrite account c = true) :
    db.chain? c = none ∧ db.eventsOf c = [] := by
  refine h.resolve_right ?_
  rintro ⟨other, hother, hne⟩
  rw [Db.mayWrite, hother] at hwrite
  exact hne (by simpa using hwrite)

/-- **What the account may write to** has the same row and events. -/
theorem SameFor.writable (h : SameFor account db db') (hwrite : db.mayWrite account c = true)
    (hwrite' : db'.mayWrite account c = true) :
    db'.chain? c = db.chain? c ∧ db'.eventsOf c = db.eventsOf c := by
  rcases h.chains c with hsame | ⟨hf, hf'⟩
  · exact ⟨hsame.chain, hsame.events⟩
  · obtain ⟨hchain, hevents⟩ := hf.absent hwrite
    obtain ⟨hchain', hevents'⟩ := hf'.absent hwrite'
    exact ⟨hchain'.trans hchain.symm, hevents'.trans hevents.symm⟩

theorem SameFor.usageOf (h : SameFor account db db') (month : Int) :
    db'.usageOf account month = db.usageOf account month := by
  rw [Db.usageOf, Db.usageOf, h.usage]

theorem SameFor.activeRecord? (h : SameFor account db db') :
    db'.activeRecord? account key now = db.activeRecord? account key now := by
  rw [Db.activeRecord?, Db.activeRecord?, h.records]

theorem SameFor.identityVerdict {capabilities : AccountCapabilities}
    {identity : Option V1IdentitySignature} {hash : String} (h : SameFor account db db') :
    identityVerdict state db' account capabilities identity hash =
      identityVerdict state db account capabilities identity hash := by
  unfold Ledger.identityVerdict keyVerdict Db.identityKey?
  rw [h.keys]

/-- **The verdict on a submission** is the same. -/
theorem SameFor.submitVerdict (h : SameFor account db db')
    (hwrite : db'.mayWrite account body.chainId = db.mayWrite account body.chainId)
    (hid : db'.idTaken body.eventId = db.idTaken body.eventId) :
    submitVerdict state db' now account key body = submitVerdict state db now account key body := by
  have hentry : ∀ capabilities, entryVerdict state db' now account capabilities key body =
      entryVerdict state db now account capabilities key body := by
    intro capabilities
    unfold entryVerdict accessVerdict
    rw [hwrite]
    cases hmay : db.mayWrite account body.chainId with
    | false => rfl
    | true =>
      obtain ⟨hchain, hevents⟩ := h.writable hmay (hwrite.trans hmay)
      have hhead : db'.head? body.chainId = db.head? body.chainId := by
        rw [Db.head?, Db.head?, hchain]
      unfold planVerdict plannedHash recordVerdict Db.sequenceLeft Db.nextSequence Db.hasKey
      rw [hevents, hhead, h.identityVerdict, hid, h.usageOf, h.records]
  unfold Ledger.submitVerdict bodyVerdict
  rw [h.capabilities, h.activeRecord?]
  simp only [hentry]

/-- A submission that is granted is to a chain that the account may write to. -/
theorem mayWrite_of_verdict (hv : Ledger.submitVerdict state db now account key body = .ok none) :
    db.mayWrite account body.chainId = true := by
  by_contra hmay
  have hrefused : ∀ capabilities, ∃ e, entryVerdict state db now account capabilities key body =
      .error e := fun capabilities => ⟨mapLedgerError .chainAccessDenied, by
    simp [entryVerdict, accessVerdict, hmay, Except.mapError]⟩
  unfold Ledger.submitVerdict bodyVerdict at hv
  cases hvalid : validateSubmitRequest body with
  | false => simp [hvalid] at hv
  | true =>
    rw [hvalid, demand_true, ok_bind] at hv
    cases hcap : db.capabilities account with
    | none => simp [hcap] at hv
    | some capabilities =>
      obtain ⟨e, he⟩ := hrefused capabilities
      rw [hcap] at hv
      cases hrecord : db.activeRecord? account key now with
      | none => simp [hrecord, he] at hv
      | some record =>
        simp only [hrecord] at hv
        cases hhash : record.requestHash == requestHash state body.hashed with
        | true => simp [hhash] at hv
        | false => simp [hhash] at hv

/-- The same answer up to what is made for it: the id of an event that is not named, and the id of the
request. -/
def SameAnswer (body : V1SubmitEventRequest) :
    Except ApiError V1Response → Except ApiError V1Response → Prop
  | .error e, .error e' => e' = e
  | .ok response, .ok response' =>
    response' = { response with eventId := response'.eventId, requestId := response'.requestId } ∧
      (body.eventId.isSome = true → response'.eventId = response.eventId)
  | _, _ => False

theorem sameAnswer_refl (result : Except ApiError V1Response) : SameAnswer body result result := by
  cases result with
  | error e => exact rfl
  | ok response => exact ⟨rfl, fun _ => rfl⟩

/-- **What a submission is answered** is the same. -/
theorem sameAnswer_of_concluded (h : SameFor account db db') (hed : state.ed.Correct)
    (hverdict : submitVerdict state db' now account key body =
      submitVerdict state db now account key body)
    (hwrite : db'.mayWrite account body.chainId = db.mayWrite account body.chainId)
    {hist hist' : History schema} {g g' : Shared schema} {result result' : Except ApiError V1Response}
    (hc : Concluded state db hist now account key body result g)
    (hc' : Concluded state db' hist' now account key body result' g') :
    SameAnswer body result result' := by
  unfold Concluded at hc hc'
  rw [hverdict] at hc'
  cases hv : submitVerdict state db now account key body with
  | error e =>
    rw [hv] at hc hc'
    obtain ⟨rfl, -⟩ := hc
    obtain ⟨rfl, -⟩ := hc'
    exact rfl
  | ok answer =>
    rw [hv] at hc hc'
    cases answer with
    | some stored =>
      obtain ⟨rfl, -⟩ := hc
      obtain ⟨rfl, -⟩ := hc'
      exact sameAnswer_refl _
    | none =>
      obtain ⟨response, capabilities, rfl, hcap, hg⟩ := hc
      obtain ⟨response', capabilities', rfl, hcap', hg'⟩ := hc'
      have hmay := mayWrite_of_verdict hv
      obtain ⟨-, hevents⟩ := h.writable hmay (hwrite.trans hmay)
      have hnext : db'.nextSequence body.chainId = db.nextSequence body.chainId := by
        rw [Db.nextSequence, Db.nextSequence, hevents]
      obtain rfl : capabilities' = capabilities :=
        Option.some.inj (hcap'.symm.trans (h.capabilities.trans hcap))
      obtain ⟨eventId, chainId, sequence, proofStatus, trustLevel, requestId⟩ := response
      obtain ⟨eventId', chainId', sequence', proofStatus', trustLevel', requestId'⟩ := response'
      refine ⟨?_, fun hnamed => ?_⟩
      · have hchain := hg.chainId.trans hg'.chainId.symm
        have hsequence := hg.sequence.trans (hnext.symm.trans hg'.sequence.symm)
        have hstatus := (hg.proofStatus hed).trans (hg'.proofStatus hed).symm
        have htrust := hg.trustLevel.trans hg'.trustLevel.symm
        simp only at hchain hsequence hstatus htrust
        rw [hchain, hsequence, hstatus, htrust]
      · obtain ⟨id, hid⟩ := Option.isSome_iff_exists.mp hnamed
        have hn := hg.named
        have hn' := hg'.named
        rw [hid] at hn hn'
        exact hn'.trans hn.symm

end Submissions

/-! ## Chains of others -/

/-- **What an account is answered does not depend on the chains of others**: by a read never, and by a
submission as long as it may write to the chain in both states or in neither, and the event id is taken
in both or in neither. A submission is answered unless others hold locks. -/
theorem foreign_chains_hidden (state : ReadState) (hed : state.ed.Correct) (account : Uuid)
    (db db' : Db) (h : SameFor account db db') :
    (∀ (cache cache' : TsaCache) (eventId requestId : Uuid) (fileHash : Option String),
      (∀ c root, db.owner? c = some account → cache' c root = cache c root) →
        (proofHandler state db' cache' account eventId requestId).map Prod.fst =
            (proofHandler state db cache account eventId requestId).map Prod.fst ∧
          (verifyHandler state db' cache' account eventId fileHash requestId).1 =
            (verifyHandler state db cache account eventId fileHash requestId).1) ∧
    ∀ (p : Nat) (now : Int) (key : String) (body : V1SubmitEventRequest) (y y' : LedgerConfig),
      y.shared.db = db → y'.shared.db = db' →
      y.procs p = ((Request.submitV1Event account key body).run state.toAppState, none) →
      y'.procs p = ((Request.submitV1Event account key body).run state.toAppState, none) →
      db'.mayWrite account body.chainId = db.mayWrite account body.chainId →
      db'.idTaken body.eventId = db.idTaken body.eventId →
      (∀ z z' result result', ReachAlone p now y z → ReachAlone p now y' z' →
        (z.procs p).1.result = some (.v1 result) → (z'.procs p).1.result = some (.v1 result') →
          SameAnswer body result result') ∧
      (Quiet p y.shared → (∃ id, db.isNewId id = true) →
        ∃ z result, ReachAlone p now y z ∧ (z.procs p).1.result = some (.v1 result)) := by
  constructor
  · exact fun cache cache' eventId requestId fileHash hcache =>
      ⟨h.proofHandler hcache, h.verifyHandler hcache⟩
  · rintro p now key body y y' rfl rfl hy hy' hwrite hid
    refine ⟨fun z z' result result' hz hz' hresult hresult' => ?_, fun hquiet ⟨id, hnew⟩ =>
      answered_alone now hy hquiet hnew⟩
    exact sameAnswer_of_concluded h hed (h.submitVerdict hwrite hid) hwrite
      (submit_alone hy hz hresult) (submit_alone hy' hz' hresult')

/-- One chain, of this account. -/
def sampleOwned (owner : Uuid) : Db :=
  { Db.empty sampleCapabilities [] with chains := [⟨Uuid.small 9, none, some owner⟩] }

/-- A submission to it. -/
def sampleSubmission (db : Db) : LedgerConfig :=
  start sampleState (fun _ => .submitV1Event (Uuid.small 1) "key" sampleBody) db

theorem sampleOwned_other {c owner : Uuid} (hc : c ≠ Uuid.small 9) :
    SameChain c (sampleOwned owner) (Db.empty sampleCapabilities []) := by
  refine ⟨?_, rfl, fun _ => rfl⟩
  simp [sampleOwned, Db.chain?, Db.empty, Ne.symm hc]

theorem sampleOwned_foreign {owner : Uuid} (howner : owner ≠ Uuid.small 1) :
    Foreign (Uuid.small 1) (Uuid.small 9) (sampleOwned owner) :=
  .inr ⟨owner, by simp [sampleOwned, Db.owner?, Db.chain?], howner⟩

/-- Whoever else owns the chain, it is no other state to the account. -/
theorem sameFor_sampleOwned {owner : Uuid} {db' : Db} (howner : owner ≠ Uuid.small 1)
    (h9 : Foreign (Uuid.small 1) (Uuid.small 9) db') (hevents : db'.events = [])
    (hother : ∀ c, c ≠ Uuid.small 9 → SameChain c (sampleOwned owner) db')
    (hrest : db' = { Db.empty sampleCapabilities [] with chains := db'.chains }) :
    SameFor (Uuid.small 1) (sampleOwned owner) db' where
  chains c := by
    by_cases hc : c = Uuid.small 9
    · subst hc
      exact .inr ⟨sampleOwned_foreign howner, h9⟩
    · exact .inl (hother c hc)
  capabilities := by rw [hrest]; rfl
  usage _ := by rw [hrest]; rfl
  records _ := by rw [hrest]; rfl
  keys := by rw [hrest]; rfl
  ids := List.nodup_nil
  ids' := by rw [hevents]; exact List.nodup_nil

/-- How a submission ends after so many statements. -/
theorem exists_sampleSubmission (db : Db) (count status : Nat)
    (hrun : ((sampleSubmission db).run ((system schema).restrict (calmly 0 0 db)) (Solo 0)
      (sampleSteps 0 count 20 none)).map (fun z => (z.procs 0).1.result.bind Reply.status) =
        some (some status)) :
    ∃ z result, ReachAlone 0 0 (sampleSubmission db) z ∧
      (z.procs 0).1.result = some (.v1 result) ∧
      statusOf result = status := by
  obtain ⟨z, hz, hstatus⟩ := Reach.exists_of_run hrun
  obtain ⟨result, hresult, hstatus⟩ := Reply.exists_of_status hstatus
  exact ⟨z, result, hz, hresult, hstatus⟩

/-- Chains of two other accounts: both submissions are refused. -/
theorem foreign_chains_hidden_sample : ∃ z z' result result',
    ReachAlone 0 0 (sampleSubmission (sampleOwned (Uuid.small 2))) z ∧
      ReachAlone 0 0 (sampleSubmission (sampleOwned (Uuid.small 3))) z' ∧
        (z.procs 0).1.result = some (.v1 result) ∧ (z'.procs 0).1.result = some (.v1 result') ∧
          statusOf result = 404 ∧ SameAnswer sampleBody result result' := by
  have hsame : SameFor (Uuid.small 1) (sampleOwned (Uuid.small 2)) (sampleOwned (Uuid.small 3)) :=
    sameFor_sampleOwned (by decide) (sampleOwned_foreign (by decide)) rfl
      (fun c hc => by
        refine ⟨?_, rfl, fun _ => rfl⟩
        rw [← (sampleOwned_other hc).chain, ← (sampleOwned_other hc).chain]) rfl
  obtain ⟨z, result, hz, hresult, hstatus⟩ := exists_sampleSubmission
    (sampleOwned (Uuid.small 2)) 6 404 (by decide +kernel)
  obtain ⟨z', result', hz', hresult', -⟩ := exists_sampleSubmission
    (sampleOwned (Uuid.small 3)) 6 404 (by decide +kernel)
  exact ⟨z, z', result, result', hz, hz', hresult, hresult', hstatus,
    ((foreign_chains_hidden ⟨sampleState, fun _ _ => ⟨.verified, none⟩⟩ (sampleEd_correct [])
      (Uuid.small 1) _ _ hsame).2 0 0 "key" sampleBody (sampleSubmission (sampleOwned (Uuid.small 2)))
      (sampleSubmission (sampleOwned (Uuid.small 3))) rfl rfl rfl rfl (by decide) rfl).1 z z' result
      result' hz hz' hresult hresult'⟩

/-- **A submission tells a foreign chain from one that is not there**: the one is refused, the other is
claimed. -/
theorem foreign_chain_told : ∃ z z' result result',
    SameFor (Uuid.small 1) (sampleOwned (Uuid.small 2)) (Db.empty sampleCapabilities []) ∧
      ReachAlone 0 0 (sampleSubmission (sampleOwned (Uuid.small 2))) z ∧
        ReachAlone 0 0 (sampleSubmission (Db.empty sampleCapabilities [])) z' ∧
          (z.procs 0).1.result = some (.v1 result) ∧ (z'.procs 0).1.result = some (.v1 result') ∧
            statusOf result = 404 ∧ statusOf result' = 200 := by
  have hsame : SameFor (Uuid.small 1) (sampleOwned (Uuid.small 2)) (Db.empty sampleCapabilities []) :=
    sameFor_sampleOwned (by decide) (.inl ⟨rfl, rfl⟩) rfl (fun c hc => sampleOwned_other hc) rfl
  obtain ⟨z, result, hz, hresult, hstatus⟩ := exists_sampleSubmission
    (sampleOwned (Uuid.small 2)) 6 404 (by decide +kernel)
  obtain ⟨z', result', hz', hresult', hstatus'⟩ := exists_sampleSubmission
    (Db.empty sampleCapabilities []) 25 200 (by decide +kernel)
  exact ⟨z, z', result, result', hsame, hz, hz', hresult, hresult', hstatus, hstatus'⟩

end EvidentLedger.Ledger
