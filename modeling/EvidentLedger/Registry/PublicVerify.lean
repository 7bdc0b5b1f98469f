import EvidentLedger.Ledger.Canonical
import EvidentLedger.Registry.Indexes

/-!
# Public verification

Model of `public_verify_handler` and `public_certificate_pdf_handler` (`src/api/public_verify.rs`) with
the audit events of `src/public_verification_audit.rs`: what anybody is told about a hash or a public id,
at any moment of a run of the publications of `PublicProof`.

* A handler reads the registry once. It answers from the committed tables of that moment, or the read
  fails.
* The text of a time is a parameter; the certificate is the entry it is drawn from.

## Results

* **`public_views_agree`**: who is told a public id for a hash gets the certificate of that hash under the
  id, and who gets a certificate is told its id for every spelling of its hash.
* **`public_answer_lasts`**: what is told for a hash is told later for every spelling of it, or its id is
  gone for good.
-/

namespace EvidentLedger.Registry

open Lib.Interleave Lib.Text Lib.Transaction
open Ledger (validatePublicFileHash)

/-! ## Handlers -/

/-- `PublicVerifyResponse`. -/
structure PublicVerifyResponse where
  exists_ : Bool
  publicProofId : Option String
  timestamp : Option String
  tsaClass : Option String
  integrity : Option String
  deriving DecidableEq

inductive PublicVerificationRequestType where
  | verify
  | certificatePdf
  deriving DecidableEq

inductive PublicVerificationOutcome where
  | success
  | notFound
  | invalidRequest
  | rateLimited
  deriving DecidableEq

inductive PublicVerificationRateLimitAction where
  | allowed
  | blocked
  deriving DecidableEq

/-- What the rate limiter leaves with a request. -/
structure PublicRequestMetadata where
  clientIpHash : Option String
  rateLimitAction : PublicVerificationRateLimitAction
  deriving DecidableEq

structure PublicVerificationAuditEvent where
  timestamp : Int
  requestType : PublicVerificationRequestType
  outcome : PublicVerificationOutcome
  rateLimitAction : PublicVerificationRateLimitAction
  requestId : Uuid
  clientIpHash : Option String
  deriving DecidableEq

/-- What a handler has besides its query. -/
structure PublicContext where
  requestId : Uuid
  now : Int
  metadata : Option PublicRequestMetadata
  /-- The read fails. -/
  fails : Bool

inductive PublicReply where
  | verified (body : PublicVerifyResponse)
  /-- 400, `invalid_request`. -/
  | invalidRequest (requestId : Uuid)
  /-- 404, `not_found`. -/
  | notFound
  | certificate (entry : PublicRegistryEntry) (fileName : String)
  /-- 500. -/
  | internal
  deriving DecidableEq

/-- `audit_verify` and `audit_certificate`. -/
def audit (ctx : PublicContext) (requestType : PublicVerificationRequestType)
    (outcome : PublicVerificationOutcome) : List PublicVerificationAuditEvent :=
  match ctx.metadata with
  | none => []
  | some metadata =>
    [⟨ctx.now, requestType, outcome, metadata.rateLimitAction, ctx.requestId, metadata.clientIpHash⟩]

def responseFromEntry (toRfc3339 : Int → String) : Option PublicRegistryEntry → PublicVerifyResponse
  | some row => ⟨true, some row.publicProofId, some (toRfc3339 row.registeredAt), some row.tsaClass,
      some row.integrityState⟩
  | none => ⟨false, none, none, none, none⟩

/-- `lookup_public_registry_entry`: `WHERE file_hash = $1 AND enabled = true`. -/
def lookupPublicRegistryEntry (db : Tables) (fileHash : String) : Option PublicRegistryEntry :=
  db.active? fileHash

/-- `lookup_public_registry_by_id`: `WHERE public_proof_id = $1 AND enabled = true`. -/
def lookupPublicRegistryById (db : Tables) (publicProofId : String) : Option PublicRegistryEntry :=
  db.registry.find? fun entry => entry.publicProofId == publicProofId && entry.enabled

/-- `verify_by_hash` behind `public_verify_handler`, with what it logs. -/
def publicVerifyHandler (toRfc3339 : Int → String) (db : Tables) (ctx : PublicContext)
    (raw : Option String) : PublicReply × List PublicVerificationAuditEvent :=
  match validatePublicFileHash raw with
  | none => (.invalidRequest ctx.requestId, audit ctx .verify .invalidRequest)
  | some normalized =>
    if ctx.fails then (.internal, [])
    else
      let entry := lookupPublicRegistryEntry db normalized
      (.verified (responseFromEntry toRfc3339 entry),
        audit ctx .verify (if entry.isSome then .success else .notFound))

/-- The characters 3 to 11 of an id, which has only ASCII characters here and at least three. -/
def certificateFileName (publicProofId : String) : String :=
  "public-certificate-" ++ String.ofList ((publicProofId.toList.drop 3).take 8) ++ ".pdf"

/-- `public_certificate_pdf_handler`. -/
def publicCertificatePdfHandler (db : Tables) (ctx : PublicContext)
    (publicProofId : String) : PublicReply × List PublicVerificationAuditEvent :=
  if !validatePublicProofId publicProofId then
    (.invalidRequest ctx.requestId, audit ctx .certificatePdf .invalidRequest)
  else if ctx.fails then (.internal, [])
  else
    match lookupPublicRegistryById db publicProofId with
    | none => (.notFound, audit ctx .certificatePdf .notFound)
    | some entry =>
      (.certificate entry (certificateFileName entry.publicProofId),
        audit ctx .certificatePdf .success)

/-! ## Answers -/

section Answers

variable {toRfc3339 : Int → String} {ctx : PublicContext} {db : Tables} {raw : Option String}
  {id fileHash name : String} {e : PublicRegistryEntry} {body : PublicVerifyResponse}

/-- The only row of its kind is the one that is found. -/
theorem find?_of_countP {β : Type} {p : β → Bool} {l : List β} {x : β} (h : l.countP p ≤ 1)
    (hx : x ∈ l) (hp : p x = true) : l.find? p = some x := by
  have hmem : x ∈ l.filter p := List.mem_filter.mpr ⟨hx, hp⟩
  rw [List.countP_eq_length_filter] at h
  rw [← List.head?_filter]
  cases hl : l.filter p with
  | nil =>
    rw [hl] at hmem
    exact absurd hmem List.not_mem_nil
  | cons y rest =>
    rw [hl] at h hmem
    have hrest : rest = [] := by simpa using h
    rw [hrest] at hmem
    rw [List.mem_singleton.mp hmem]
    rfl

theorem lookupPublicRegistryEntry_iff (h : ∀ k, Unique k db) :
    lookupPublicRegistryEntry db fileHash = some e ↔
      e ∈ db.registry ∧ e.fileHash = fileHash ∧ e.enabled = true := by
  constructor
  · exact mem_of_active?
  · rintro ⟨hmem, rfl, hon⟩
    exact find?_of_countP (h (.activeHash e.fileHash)) hmem (by simp [hon])

theorem lookupPublicRegistryById_iff (h : ∀ k, Unique k db) :
    lookupPublicRegistryById db id = some e ↔
      e ∈ db.registry ∧ e.publicProofId = id ∧ e.enabled = true := by
  constructor
  · intro hfind
    have hfound := List.find?_some hfind
    rw [Bool.and_eq_true, beq_iff_eq] at hfound
    exact ⟨List.mem_of_find?_eq_some hfind, hfound⟩
  · rintro ⟨hmem, rfl, hon⟩
    refine find?_of_countP (le_trans (List.countP_mono_left fun e' _ he' => ?_)
      (h (.entry e.publicProofId))) hmem (by simp [hon])
    exact (Bool.and_eq_true_iff.mp he').1

theorem verified_iff : (publicVerifyHandler toRfc3339 db ctx raw).1 = .verified body ↔
    ∃ fileHash, validatePublicFileHash raw = some fileHash ∧ ctx.fails = false ∧
      body = responseFromEntry toRfc3339 (lookupPublicRegistryEntry db fileHash) := by
  unfold publicVerifyHandler
  cases validatePublicFileHash raw with
  | none => simp
  | some fileHash =>
    cases ctx.fails with
    | true => simp
    | false =>
      simp only [Bool.false_eq_true, if_false, PublicReply.verified.injEq, Option.some.injEq,
        true_and]
      constructor
      · exact fun h => ⟨fileHash, rfl, h.symm⟩
      · rintro ⟨fileHash', rfl, h⟩
        exact h.symm

theorem certificate_iff :
    (publicCertificatePdfHandler db ctx id).1 = .certificate e name ↔
      validatePublicProofId id = true ∧ ctx.fails = false ∧
        lookupPublicRegistryById db id = some e ∧ name = certificateFileName e.publicProofId := by
  unfold publicCertificatePdfHandler
  cases validatePublicProofId id with
  | false => simp
  | true =>
    cases ctx.fails with
    | true => simp
    | false =>
      cases lookupPublicRegistryById db id with
      | none => simp
      | some e' =>
        simp only [Bool.not_true, Bool.false_eq_true, if_false, PublicReply.certificate.injEq,
          Option.some.injEq, true_and]
        exact ⟨fun h => ⟨h.1, h.1 ▸ h.2.symm⟩, fun h => ⟨h.1, h.1 ▸ h.2.symm⟩⟩

/-- An answer that names an id is that of its entry. -/
theorem entry_of_response {found : Option PublicRegistryEntry}
    (hid : (responseFromEntry toRfc3339 found).publicProofId = some id) :
    ∃ e, found = some e ∧ e.publicProofId = id := by
  cases found with
  | none => exact nomatch hid
  | some e => exact ⟨e, rfl, Option.some.inj hid⟩

/-- **The two public views agree**: by the hash of a file, and by the id of its proof. -/
structure PublicViewsAgree (toRfc3339 : Int → String) (db : Tables) : Prop where
  byHash : ∀ ctx raw body id, (publicVerifyHandler toRfc3339 db ctx raw).1 = .verified body →
    body.publicProofId = some id → ∀ ctx', ctx'.fails = false → ∃ e,
      (publicCertificatePdfHandler db ctx' id).1 = .certificate e (certificateFileName id) ∧
        validatePublicFileHash raw = some e.fileHash ∧ body = responseFromEntry toRfc3339 (some e)
  byId : ∀ ctx id e name, (publicCertificatePdfHandler db ctx id).1 = .certificate e name →
    ∀ ctx' raw, ctx'.fails = false → validatePublicFileHash raw = some e.fileHash →
      (publicVerifyHandler toRfc3339 db ctx' raw).1 = .verified (responseFromEntry toRfc3339 (some e))

/-- Nobody is shown an id. -/
structure Gone (toRfc3339 : Int → String) (id : String) (db : Tables) : Prop where
  byHash : ∀ ctx raw body, (publicVerifyHandler toRfc3339 db ctx raw).1 = .verified body →
    body.publicProofId ≠ some id
  byId : ∀ ctx e name, (publicCertificatePdfHandler db ctx id).1 ≠ .certificate e name

/-- The id of a disabled entry. -/
theorem gone_of_disabled (h : ∀ k, Unique k db) (hmem : e ∈ db.registry) (hoff : e.enabled = false) :
    Gone toRfc3339 e.publicProofId db := by
  have honly : ∀ e' ∈ db.registry, e'.publicProofId = e.publicProofId → e'.enabled = false := by
    intro e' hmem' hid
    have hfind := find?_of_countP (h (.entry e.publicProofId)) hmem (by simp)
    have hfind' := find?_of_countP (h (.entry e.publicProofId)) hmem' (by simp [hid])
    rw [Option.some.inj (hfind'.symm.trans hfind)]
    exact hoff
  constructor
  · intro ctx raw body hbody hid
    obtain ⟨fileHash, -, -, rfl⟩ := verified_iff.mp hbody
    obtain ⟨e', he', hid'⟩ := entry_of_response hid
    obtain ⟨hmem', -, hon⟩ := (lookupPublicRegistryEntry_iff h).mp he'
    rw [honly e' hmem' hid'] at hon
    exact Bool.false_ne_true hon
  · intro ctx e' name hcert
    obtain ⟨-, -, he', -⟩ := certificate_iff.mp hcert
    obtain ⟨hmem', hid', hon⟩ := (lookupPublicRegistryById_iff h).mp he'
    rw [honly e' hmem' hid'] at hon
    exact Bool.false_ne_true hon

end Answers

/-! ## Runs -/

section Runs

variable {toRfc3339 : Int → String} {requests : Nat → Request} {db₀ : Tables} {y z w : RegistryConfig}

/-- **The public views agree** in every state of every run. -/
theorem public_views_agree (h : ∀ k, Unique k db₀)
    (hids : ∀ e ∈ db₀.registry, validatePublicProofId e.publicProofId = true)
    (hy : Reach (system schema) (fun _ _ _ => True) (start requests db₀) y) :
    PublicViewsAgree toRfc3339 y.shared.db := by
  obtain ⟨hunique, -, -⟩ := reach_public h hy .refl
  constructor
  · intro ctx raw body id hbody hid ctx' hctx'
    obtain ⟨fileHash, hraw, -, rfl⟩ := verified_iff.mp hbody
    obtain ⟨e, he, rfl⟩ := entry_of_response hid
    obtain ⟨hmem, rfl, hon⟩ := (lookupPublicRegistryEntry_iff hunique).mp he
    refine ⟨e, certificate_iff.mpr ⟨reach_issued hids hy e hmem, hctx', ?_, rfl⟩, hraw, by rw [he]⟩
    exact (lookupPublicRegistryById_iff hunique).mpr ⟨hmem, rfl, hon⟩
  · intro ctx id e name hcert ctx' raw hctx' hraw
    obtain ⟨-, -, he, -⟩ := certificate_iff.mp hcert
    obtain ⟨hmem, -, hon⟩ := (lookupPublicRegistryById_iff hunique).mp he
    refine verified_iff.mpr ⟨e.fileHash, hraw, hctx', ?_⟩
    rw [(lookupPublicRegistryEntry_iff hunique).mpr ⟨hmem, rfl, hon⟩]

/-- **An answer lasts**: later the hash has the same answer, in whatever spelling it is asked for, or the
id of the answer is shown to nobody from then on. -/
theorem public_answer_lasts (h : ∀ k, Unique k db₀)
    (hy : Reach (system schema) (fun _ _ _ => True) (start requests db₀) y)
    (hz : Reach (system schema) (fun _ _ _ => True) y z)
    (hw : Reach (system schema) (fun _ _ _ => True) z w) {ctx : PublicContext} {raw : Option String}
    {body : PublicVerifyResponse} {id : String}
    (hbody : (publicVerifyHandler toRfc3339 y.shared.db ctx raw).1 = .verified body)
    (hid : body.publicProofId = some id) :
    (∀ ctx' raw', ctx'.fails = false → validatePublicFileHash raw' = validatePublicFileHash raw →
      (publicVerifyHandler toRfc3339 z.shared.db ctx' raw').1 = .verified body) ∨
    Gone toRfc3339 id w.shared.db := by
  obtain ⟨hunique, hunique', hkept⟩ := reach_public h hy hz
  obtain ⟨-, hunique'', hkept'⟩ := reach_public h (Relation.ReflTransGen.trans hy hz) hw
  obtain ⟨fileHash, hraw, -, rfl⟩ := verified_iff.mp hbody
  obtain ⟨e, he, rfl⟩ := entry_of_response hid
  obtain ⟨hmem, rfl, hon⟩ := (lookupPublicRegistryEntry_iff hunique).mp he
  rcases hkept e.publicProofId e hmem rfl with hmem' | hoff
  · left
    intro ctx' raw' hctx' hsame
    refine verified_iff.mpr ⟨e.fileHash, hsame.trans hraw, hctx', ?_⟩
    rw [he, (lookupPublicRegistryEntry_iff hunique').mpr ⟨hmem', rfl, hon⟩]
  · right
    -- a disabled entry stays disabled
    have hoff' : { e with enabled := false } ∈ w.shared.db.registry :=
      (hkept' e.publicProofId _ hoff rfl).elim (fun h => h) fun h => h
    exact gone_of_disabled (e := { e with enabled := false }) hunique'' hoff' rfl

end Runs

/-! ## A run -/

section Samples

/-- A file is published and withdrawn. -/
def samplePublications : Nat → Request
  | 0 => .onProofAnchored (Uuid.small 1) (String.ofList (List.replicate 64 'A')) "legal"
  | _ => .disableCanonicalPublicProof (String.ofList (List.replicate 64 'a'))

/-- So many statements; the bytes that are drawn are zeros. -/
def samplePublishing (turns : List (Nat × Nat)) : List (Nat × Choice) :=
  turns.flatMap fun turn => List.replicate turn.2 (turn.1, ⟨false, 0, sampleBytes 0, 0⟩)

def sampleTime (_ : Int) : String := "1970-01-01T00:00:00+00:00"

def sampleQuery : Option String := some (String.ofList (List.replicate 64 'a'))

def sampleContext : PublicContext := ⟨Uuid.small 7, 0, none, false⟩

def sampleAnswer : PublicVerifyResponse :=
  ⟨true, some "pv_1111111111111111", some "1970-01-01T00:00:00+00:00", some "legal", some "VALID"⟩

theorem public_views_agree_sampleRun : ∃ (y : RegistryConfig) (e : PublicRegistryEntry),
    (publicCertificatePdfHandler y.shared.db sampleContext "pv_1111111111111111").1 =
      .certificate e (certificateFileName "pv_1111111111111111") ∧
        sampleAnswer = responseFromEntry sampleTime (some e) := by
  have hrun : ((start samplePublications .empty).run (system schema) (fun _ _ _ => True)
      (samplePublishing [(0, 8)])).map (fun y =>
        (publicVerifyHandler sampleTime y.shared.db sampleContext sampleQuery).1) =
      some (.verified sampleAnswer) := by decide +kernel
  obtain ⟨y, hy, hbody⟩ := Reach.exists_of_run hrun
  obtain ⟨e, hcert, -, hsame⟩ := (public_views_agree unique_empty
    (fun e he => absurd he List.not_mem_nil) hy).byHash sampleContext sampleQuery sampleAnswer
      "pv_1111111111111111" hbody rfl sampleContext rfl
  exact ⟨y, e, hcert, hsame⟩

theorem public_answer_lasts_sampleRun : ∃ z : RegistryConfig,
    Gone sampleTime "pv_1111111111111111" z.shared.db := by
  have hrun : ((start samplePublications .empty).run (system schema) (fun _ _ _ => True)
      (samplePublishing [(0, 8)])).bind (fun y => (y.run (system schema) (fun _ _ _ => True)
        (samplePublishing [(1, 5)])).map fun z =>
          ((publicVerifyHandler sampleTime y.shared.db sampleContext sampleQuery).1,
            (publicVerifyHandler sampleTime z.shared.db sampleContext sampleQuery).1)) =
      some (.verified sampleAnswer, .verified ⟨false, none, none, none, none⟩) := by decide +kernel
  obtain ⟨y, z, hy, hz, hfacts, -⟩ := Reach.exists_of_runs hrun
  obtain ⟨hbody, hlater⟩ := Prod.mk.inj hfacts
  have hid : sampleAnswer.publicProofId = some "pv_1111111111111111" := rfl
  rcases public_answer_lasts unique_empty hy hz .refl hbody hid with
    hsame | hgone
  · have hagain := hsame sampleContext sampleQuery rfl rfl
    rw [hlater] at hagain
    exact absurd hagain (by decide)
  · exact ⟨z, hgone⟩

end Samples

end EvidentLedger.Registry
