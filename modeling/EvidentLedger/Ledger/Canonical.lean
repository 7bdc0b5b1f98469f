import EvidentLedger.FirstFailure
import EvidentLedger.Ledger.Legacy
import EvidentLedger.Ledger.ReadPath
import EvidentLedger.Ledger.RequestHash
import EvidentLedger.Registry.Tables

/-!
# The hash of a file, stored and asked for

Four places fold the case of a `file_hash` and trim it: `submit_v1_event` before it stores it
(`normalized_file_hash`), `GET /v1/verify` before it compares (`normalize_query_file_hash`),
`on_proof_anchored` before it publishes (`normalize_stored_file_hash`) and the public lookup
(`validate_public_file_hash`). `POST /events` does not: `submit_event` stores what it is given and
publishes it under the folded hash.

## Results

* `Recorded.source`: where the hash of an event in the tables comes from.
* `verifyHandler_agrees`: a canonical hash is recognised in any letter case.
* **`canonical_hashes_iff`**: the stored hashes are canonical, and the two views agree, exactly in the
  states whose legacy submissions carried canonical hashes.
* `upper_case_hash_stored`: a legacy submission of an upper-case hash is published, and denied by
  `GET /v1/verify`.
-/

namespace EvidentLedger.Ledger

open Lib.Interleave Lib.Transaction Lib.Text
open Registry (PublicRegistryEntry Materialization)

/-! ## Canonical text -/

instance (s : String) : Decidable (LowerHex64 s) :=
  inferInstanceAs (Decidable (s.toList.length = 64 ∧
    ∀ c ∈ s.toList, ('0' ≤ c ∧ c ≤ '9') ∨ ('a' ≤ c ∧ c ≤ 'f')))

/-- A lower-case digit is a digit. -/
theorem hexVal_of_range {c : Char} (h : ('0' ≤ c ∧ c ≤ '9') ∨ ('a' ≤ c ∧ c ≤ 'f')) :
    ∃ n, hexVal c = some n := by
  have key : ∀ n < 128, ('0' ≤ Char.ofNat n ∧ Char.ofNat n ≤ '9') ∨
      ('a' ≤ Char.ofNat n ∧ Char.ofNat n ≤ 'f') → (hexVal (Char.ofNat n)).isSome := by decide
  have hle : c.toNat < 128 := by
    rcases h with ⟨-, h⟩ | ⟨-, h⟩
    · have h : c.toNat ≤ 57 := h
      omega
    · have h : c.toNat ≤ 102 := h
      omega
  have hsome := key c.toNat hle
  rw [Char.ofNat_toNat] at hsome
  exact Option.isSome_iff_exists.mp (hsome h)

/-- A digit is in lower case once it is folded. -/
theorem range_toLower {c : Char} (h : (hexVal c).isSome) :
    ('0' ≤ c.toLower ∧ c.toLower ≤ '9') ∨ ('a' ≤ c.toLower ∧ c.toLower ≤ 'f') := by
  have key : ∀ n < 128, (hexVal (Char.ofNat n)).isSome →
      ('0' ≤ (Char.ofNat n).toLower ∧ (Char.ofNat n).toLower ≤ '9') ∨
        ('a' ≤ (Char.ofNat n).toLower ∧ (Char.ofNat n).toLower ≤ 'f') := by decide
  have hle : c.toNat < 128 := by
    unfold hexVal at h
    split_ifs at h <;> first | omega | exact absurd h (by simp)
  have hrange := key c.toNat hle
  rw [Char.ofNat_toNat] at hrange
  exact hrange h

theorem toLower_of_range {c : Char} (h : ('0' ≤ c ∧ c ≤ '9') ∨ ('a' ≤ c ∧ c ≤ 'f')) :
    c.toLower = c := by
  unfold Char.toLower
  split
  · rename_i hc
    obtain ⟨hlow, hhigh⟩ := hc
    rcases h with ⟨-, h⟩ | ⟨h, -⟩
    · exact absurd (UInt32.le_trans hlow h) (by decide)
    · exact absurd (UInt32.le_trans h hhigh) (by decide)
  · rfl

/-- **What `validate_submit_request` accepts is canonical** once it is normalised. -/
theorem lowerHex64_normalized {fileHash : String} (h : isValidFileHash fileHash = true) :
    LowerHex64 (normalizedFileHash fileHash) := by
  obtain ⟨hlen, hhex⟩ := isValidFileHash_iff.mp h
  unfold LowerHex64 normalizedFileHash lower
  rw [String.toList_ofList, List.length_map]
  refine ⟨hlen, fun c hc => ?_⟩
  obtain ⟨d, hd, rfl⟩ := List.mem_map.mp hc
  exact range_toLower (hhex d hd)

/-- **A query in any letter case is normalised to the canonical hash.** -/
theorem normalized_of_lower {raw hash : String} (hhash : LowerHex64 hash)
    (hcase : lower raw = lower hash) : lower (trim raw) = hash := by
  have hmap : raw.toList.map Char.toLower = hash.toList.map Char.toLower := by
    have := congrArg String.toList hcase
    simpa [lower] using this
  have hfixed : lower hash = hash := by
    have hchars : hash.toList.map Char.toLower = hash.toList := by
      refine (List.map_congr_left fun c hc => ?_).trans (List.map_id _)
      exact toLower_of_range (hhash.2 c hc)
    rw [lower, hchars, String.ofList_toList]
  have htrim : trim raw = raw := by
    refine trim_of_not_blank fun c hc => ?_
    have hc' : c.toLower ∈ hash.toList.map Char.toLower := by
      rw [← hmap]
      exact List.mem_map_of_mem hc
    obtain ⟨d, hd, hdc⟩ := List.mem_map.mp hc'
    obtain ⟨n, hn⟩ := hexVal_of_range (hhash.2 d hd)
    refine not_isBlank_of_hexVal (n := n) ?_
    rw [← hexVal_toLower, ← hdc, hexVal_toLower, hn]
  rw [htrim, hcase, hfixed]

/-! ## The public view -/

/-- `normalize_stored_file_hash`. -/
def normalizeStoredFileHash (fileHash : String) : String := lower (trim fileHash)

/-- `validate_public_file_hash`. -/
def validatePublicFileHash (raw : Option String) : Option String :=
  match normalizeQueryFileHash raw with
  | .ok hash => hash
  | .error _ => none

/-- `verify_by_hash`: the entry that `lookup_public_registry_entry` finds for a query. -/
def verifyByHash (registry : Registry.Tables) (raw : Option String) : Option PublicRegistryEntry :=
  (validatePublicFileHash raw).bind registry.active?

/-- The entry was materialised from the event: `on_proof_anchored` bound the event's row to it. -/
structure MaterialisedFrom (registry : Registry.Tables) (e : EventRecord)
    (entry : PublicRegistryEntry) : Prop where
  fileHash : entry.fileHash = normalizeStoredFileHash e.fileHash
  row : (registry.proof? e.eventId).bind Materialization.publicProofId = some entry.publicProofId

instance (registry : Registry.Tables) (e : EventRecord) (entry : PublicRegistryEntry) :
    Decidable (MaterialisedFrom registry e entry) :=
  decidable_of_iff (entry.fileHash = normalizeStoredFileHash e.fileHash ∧
      (registry.proof? e.eventId).bind Materialization.publicProofId = some entry.publicProofId)
    ⟨fun h => ⟨h.1, h.2⟩, fun h => ⟨h.1, h.2⟩⟩

/-- Every stored hash is canonical. -/
def AllCanonical (db : Db) : Prop := ∀ e ∈ db.events, LowerHex64 e.fileHash

/-- **The two views agree**: asked for the hash of an event in any letter case, `GET /v1/verify`
recognises it whenever the public lookup finds the entry of the event. -/
def ViewsAgree (db : Db) : Prop :=
  ∀ e ∈ db.events, ∀ raw, lower raw = lower e.fileHash → ∀ registry entry,
    verifyByHash registry (some raw) = some entry → MaterialisedFrom registry e entry →
    ∀ (state : ReadState) (cache : TsaCache) (accountId requestId : Uuid) response,
      (verifyHandler state db cache accountId e.eventId (some raw) requestId).1 = .ok response →
        response.file.isValidFileHash = some true

/-- The answer compares the normalised query with the stored hash. -/
theorem verifyHandler_file {state : ReadState} {db : Db} {cache : TsaCache}
    {accountId eventId requestId : Uuid} {raw : String} {response : VerifyResponse}
    (h : (verifyHandler state db cache accountId eventId (some raw) requestId).1 = .ok response) :
    ∃ e ∈ db.events, e.eventId = eventId ∧
      response.file = verifyFileHash (some (lower (trim raw))) e.fileHash := by
  unfold verifyHandler at h
  split at h
  · exact absurd h (by simp)
  · rename_i e haccess
    obtain ⟨he, hid⟩ := mem_of_verifyEventAccess haccess
    refine ⟨e, he, hid, ?_⟩
    split at h
    · exact absurd h (by simp)
    · rename_i provided hquery
      have hprovided : provided = some (lower (trim raw)) := by
        unfold normalizeQueryFileHash at hquery
        dsimp only at hquery
        split_ifs at hquery
        exact (Except.ok.inj hquery).symm
      subst hprovided
      dsimp only at h
      split at h
      · exact absurd h (by simp)
      · exact absurd h (by simp)
      · unfold verifyResponse at h
        split at h
        · exact absurd h (by simp)
        · rw [← Except.ok.inj h]

/-- **A canonical hash is recognised in any letter case.** -/
theorem verifyHandler_agrees {db : Db} (hids : (db.events.map EventRecord.eventId).Nodup)
    (hcanonical : AllCanonical db) : ViewsAgree db := by
  intro e he raw hcase _ _ _ _ state cache accountId requestId response h
  obtain ⟨e', he', hid, hfile⟩ := verifyHandler_file h
  obtain rfl := List.inj_on_of_nodup_map hids he' he hid
  rw [hfile, normalized_of_lower (hcanonical e' he') hcase]
  simp [verifyFileHash]

/-! ## Where a hash comes from -/

section Runs

variable {state : AppState} {requests : Nat → Request}
  {ok : Nat → Call schema → Shared schema → Prop} {db₀ db : Db} {h : History schema}

/-- The hash that a request brings into the tables. -/
def Request.Brings : Request → String → Prop
  | .createChain _, _ => False
  | .submitEvent _ req, fileHash => fileHash = req.fileHash
  | .submitV1Event _ _ body, fileHash =>
    isValidFileHash body.fileHash = true ∧ fileHash = normalizedFileHash body.fileHash

/-- **Every event was there or was brought by a request that has committed.** -/
theorem Recorded.source (hr : Recorded state requests ok db₀ db h) :
    ∀ e ∈ db.events, e ∈ db₀.events ∨
      ∃ p, writesOf p h ≠ [] ∧ (requests p).Brings e.fileHash := by
  rw [hr.replayed]
  refine hr.induction (motive := fun h => ∀ e ∈ (tables db₀ h).events, e ∈ db₀.events ∨
    ∃ p, writesOf p h ≠ [] ∧ (requests p).Brings e.fileHash) (fun e he => Or.inl he) ?_
  intro h q log _ hc ih e he
  have hpast : e ∈ (tables db₀ h).events → e ∈ db₀.events ∨
      ∃ p, writesOf p (h ++ [(q, log)]) ≠ [] ∧ (requests p).Brings e.fileHash := by
    intro he
    refine (ih e he).imp_right fun ⟨p, hne, hb⟩ => ⟨p, ?_, hb⟩
    rw [writesOf_concat]
    exact fun hnil => hne (List.append_eq_nil_iff.mp hnil).1
  have hnow : log ≠ [] → writesOf q (h ++ [(q, log)]) ≠ [] := by
    intro hlog hnil
    rw [writesOf_concat, if_pos rfl] at hnil
    exact hlog (List.append_eq_nil_iff.mp hnil).2
  rw [tables_concat] at he
  cases hc with
  | chain | token => exact hpast he
  | @legacy _ _ a hreq _ hadds =>
    rw [hadds.valid.events_log] at he
    rcases List.mem_append.mp he with he | he
    · exact hpast he
    · obtain rfl := List.mem_singleton.mp he
      refine Or.inr ⟨q, hnow (by simp [Addition.log, Addition.unsigned]), ?_⟩
      rw [hreq]
      exact hadds.fileHash
  | @v1 _ _ _ _ a _ hreq _ hbody hadds hrecord hnew =>
    rw [hadds.valid.events_all (Or.inr ⟨_, rfl, by
      rw [hrecord.accountId, hrecord.idempotencyKey]
      exact hnew⟩)] at he
    rcases List.mem_append.mp he with he | he
    · exact hpast he
    · obtain rfl := List.mem_singleton.mp he
      refine Or.inr ⟨q, hnow (by simp), ?_⟩
      rw [hreq]
      refine ⟨?_, hadds.fileHash.trans hbody.fileHash⟩
      have hvalid := hbody.valid
      simp only [validateSubmitRequest, Bool.and_eq_true] at hvalid
      exact hvalid.1.2

/-- **A legacy request that has committed has its hash in the tables.** -/
theorem Recorded.legacy_hash (hr : Recorded state requests ok db₀ db h) {p : Nat} {account : Uuid}
    {req : SubmitEventRequest} (hreq : requests p = .submitEvent account req)
    (hne : writesOf p h ≠ []) : ∃ e ∈ db.events, e.fileHash = req.fileHash := by
  rw [hr.replayed]
  refine hr.induction (motive := fun h => writesOf p h ≠ [] →
    ∃ e ∈ (tables db₀ h).events, e.fileHash = req.fileHash) (fun h0 => absurd rfl h0) ?_ hne
  intro h q log hr' hc ih hne
  have hgrows : (tables db₀ h).events ⊆ (tables db₀ (h ++ [(q, log)])).events := by
    rw [tables_concat]
    exact hc.kind.events.subset
  by_cases hpast : writesOf p h = []
  swap
  · obtain ⟨e, he, hhash⟩ := ih hpast
    exact ⟨e, hgrows he, hhash⟩
  have hq : q = p := by
    by_contra hq
    rw [writesOf_concat, hpast, if_neg hq] at hne
    exact hne rfl
  subst hq
  cases hc with
  | chain hreq' | v1 hreq' => exact absurd (hreq.symm.trans hreq') (by simp)
  | token _ hlanded => exact absurd hpast hlanded.writes_ne
  | @legacy _ _ a hreq' _ hadds =>
    obtain ⟨rfl, rfl⟩ := Request.submitEvent.inj (hreq.symm.trans hreq')
    refine ⟨a.signed state (tables db₀ h), ?_, hadds.fileHash⟩
    rw [tables_concat, hadds.valid.events_log]
    exact List.mem_append_right _ List.mem_cons_self

end Runs

/-- **Stored hashes are canonical and the two views agree** exactly where every legacy submission
that has committed carried a canonical hash; a v1 submission never breaks it. -/
theorem canonical_hashes_iff (state : AppState) (requests : Nat → Request)
    (capabilities : Uuid → Option AccountCapabilities) (identityKeys : List IdentityKeyRow)
    (y : LedgerConfig) (hy : Reach (system schema) (fun _ _ _ => True)
      (start state requests (Db.empty capabilities identityKeys)) y) :
    (AllCanonical y.shared.db ∧ ViewsAgree y.shared.db) ↔
      ∀ p account req, requests p = .submitEvent account req →
        writesOf p y.shared.history ≠ [] → LowerHex64 req.fileHash := by
  have hx : (Setting.all state requests (Db.empty capabilities identityKeys)).Reach
    (start state requests (Db.empty capabilities identityKeys)) y := hy
  obtain ⟨hr, -⟩ := ledger_reach hx
  constructor
  · rintro ⟨hcanonical, -⟩ p account req hreq hne
    obtain ⟨e, he, hhash⟩ := hr.legacy_hash hreq hne
    rw [← hhash]
    exact hcanonical e he
  · intro hlegacy
    have hcanonical : AllCanonical y.shared.db := by
      intro e he
      obtain h0 | ⟨p, hne, hbrings⟩ := hr.source e he
      · exact absurd h0 List.not_mem_nil
      · have hbrings : (requests p).Brings e.fileHash := hbrings
        cases hreq : requests p with
        | createChain account =>
          rw [hreq] at hbrings
          exact hbrings.elim
        | submitEvent account req =>
          rw [hreq] at hbrings
          have hhash : e.fileHash = req.fileHash := hbrings
          rw [hhash]
          exact hlegacy p account req hreq hne
        | submitV1Event account key body =>
          rw [hreq] at hbrings
          obtain ⟨hvalid, hhash⟩ := hbrings
          rw [hhash]
          exact lowerHex64_normalized hvalid
    exact ⟨hcanonical, verifyHandler_agrees (hr.ledgerInv (ledgerInv_empty _ _)).ids hcanonical⟩

/-- A server that takes every token, and the tables of the public view once the event with this id
is published under this hash. -/
def sampleReader : ReadState := { sampleState with verifyTokenFresh := fun _ _ => ⟨.verified, none⟩ }

def samplePublished (eventId : Uuid) (fileHash : String) : Registry.Tables where
  registry := [Registry.newEntry "pv_1" fileHash "basic" 0]
  materialization := [⟨eventId, fileHash, some "pv_1", 0, false⟩]

/-- A legacy submission of this hash. -/
def sampleHashed (fileHash : String) (_ : Nat) : Request :=
  .submitEvent (Uuid.small 1) { sampleRequest "key" with fileHash }

def upperHash : String := String.ofList (List.replicate 64 'A')

def lowerHash : String := String.ofList (List.replicate 64 'a')

theorem not_lowerHex64_upperHash : ¬ LowerHex64 upperHash := by
  rintro ⟨-, h⟩
  have hmem : 'A' ∈ upperHash.toList := by
    unfold upperHash
    rw [String.toList_ofList]
    exact List.mem_replicate.mpr ⟨by decide, rfl⟩
  exact absurd (h 'A' hmem) (by decide)

/-- **An upper-case hash is published and denied**: after a legacy submission of it the public lookup
finds the entry of the event, and `GET /v1/verify` says that the hash is not the event's. -/
theorem upper_case_hash_stored : ∃ y : LedgerConfig,
    Reach (system schema) (fun _ _ _ => True)
      (start sampleState (sampleHashed upperHash) (Db.empty sampleCapabilities [])) y ∧
    ¬ AllCanonical y.shared.db ∧ ¬ ViewsAgree y.shared.db := by
  have hrun : ((start sampleState (sampleHashed upperHash) (Db.empty sampleCapabilities [])).run
      (system schema) (fun _ _ _ => True) (sampleSteps 0 15 20 none)).map
        (fun y => y.shared.db.events.map fun e => decide (e.fileHash = upperHash) &&
          decide (verifyByHash (samplePublished e.eventId lowerHash) (some upperHash) =
            some (Registry.newEntry "pv_1" lowerHash "basic" 0)) &&
          decide (MaterialisedFrom (samplePublished e.eventId lowerHash) e
            (Registry.newEntry "pv_1" lowerHash "basic" 0)) &&
          ((verifyHandler sampleReader y.shared.db (fun _ _ => ⟨none, none⟩) (Uuid.small 1) e.eventId
            (some upperHash) (Uuid.small 0)).1.toOption.map (·.file.isValidFileHash) ==
              some (some false))) = some [true] := by decide +kernel
  obtain ⟨y, hy, hfacts⟩ := Reach.exists_of_run hrun
  obtain ⟨e, hevents, hfact⟩ := List.map_eq_singleton_iff.mp hfacts
  simp only [Bool.and_eq_true, decide_eq_true_eq, beq_iff_eq] at hfact
  obtain ⟨⟨⟨hhash, hfound⟩, hentry⟩, hdenied⟩ := hfact
  have he : e ∈ y.shared.db.events := by rw [hevents]; exact List.mem_cons_self
  refine ⟨y, hy, fun hcanonical => ?_, fun hagree => ?_⟩
  · have hlower := hcanonical e he
    rw [hhash] at hlower
    exact not_lowerHex64_upperHash hlower
  · obtain ⟨response, hresponse, hfile⟩ := Option.map_eq_some_iff.mp hdenied
    have hok : (verifyHandler sampleReader y.shared.db (fun _ _ => ⟨none, none⟩) (Uuid.small 1)
        e.eventId (some upperHash) (Uuid.small 0)).1 = .ok response := by
      generalize (verifyHandler sampleReader y.shared.db (fun _ _ => ⟨none, none⟩) (Uuid.small 1)
        e.eventId (some upperHash) (Uuid.small 0)).1 = answer at hresponse
      cases answer with
      | error => exact absurd hresponse (by simp [Except.toOption])
      | ok found => exact congrArg Except.ok (Option.some.inj hresponse)
    have htrue := hagree e he upperHash (by rw [hhash]) _ _ hfound hentry _ _ _ _ _ hok
    rw [hfile] at htrue
    exact absurd htrue (by decide)

/-- A canonical hash is stored as it is. -/
theorem canonical_hashes_iff_sampleRun : ∃ y : LedgerConfig, y.shared.db.events ≠ [] ∧
    ((AllCanonical y.shared.db ∧ ViewsAgree y.shared.db) ↔
      ∀ p account req, sampleHashed lowerHash p = .submitEvent account req →
        writesOf p y.shared.history ≠ [] → LowerHex64 req.fileHash) := by
  have hrun : ((start sampleState (sampleHashed lowerHash) (Db.empty sampleCapabilities [])).run
      (system schema) (fun _ _ _ => True) (sampleSteps 0 15 20 none)).map
        (fun y => y.shared.db.events.isEmpty) = some false := by decide +kernel
  obtain ⟨y, hy, hevents⟩ := Reach.exists_of_run hrun
  refine ⟨y, fun hnil => ?_, canonical_hashes_iff _ _ _ _ y hy⟩
  rw [hnil] at hevents
  exact absurd hevents (by simp)

end EvidentLedger.Ledger
