import EvidentLedger.Lib.Base58
import EvidentLedger.Lib.Service
import EvidentLedger.Registry.Tables

/-!
# Public proofs

Model of `src/public_proof.rs:62-258`: a proof is recorded as anchored and published under the hash of
its file, the published proof is disabled, and the publication of a hash is brought up to date, each in
a transaction of its own.

* An insert into the registry that violates a unique index is no error of the program. The transaction
  has been aborted by it all the same, so that what follows is a rollback, with the answer of a commit.
* A row is there from then on (`recorded_replay`), so what counts is whether the transaction that has
  inserted it is committed.

## Results

* `validatePublicProofId_generate`: an id that is generated is valid.
* `answers_sync`: a synchronisation that ends without an error leaves the transaction open, or it is
  aborted and the proof was recorded before.
* **`materialized`**: every proof that was recorded with `Ok` has its row, in every run whose registry
  inserts are `Unopposed`.
* `lost_materialization`: two first proofs of one file. The later insert is refused; the answer is `Ok`
  and there is no row.
-/

namespace EvidentLedger.Registry

open Lib Lib.Interleave Lib.Text Lib.Transaction

/-! ## Public ids -/

/-- `generate_public_id`, of the bytes that it draws. -/
def generatePublicId (bytes : Bytes 16) : String := "pv_" ++ Base58.encode bytes.1

def BASE58_ALPHABET : String := "123456789ABCDEFGHJKLMNPQRSTUVWXYZabcdefghijkmnopqrstuvwxyz"

def validatePublicProofId (publicProofId : String) : Bool :=
  if !"pv_".toList.isPrefixOf publicProofId.toList then false
  else
    let suffix := String.ofList (publicProofId.toList.drop 3)
    if suffix = "" then false
    else if !suffix.toList.all (BASE58_ALPHABET.toList.contains ·) then false
    else
      match Base58.decode suffix with
      | some bytes => bytes.length == 16
      | none => false

/-- **An id that is generated is valid.** -/
theorem validatePublicProofId_generate (bytes : Bytes 16) :
    validatePublicProofId (generatePublicId bytes) = true := by
  have hdecode := Base58.decode_encode bytes.1
  have htext : (generatePublicId bytes).toList = "pv_".toList ++ (Base58.encode bytes.1).toList := by
    rw [generatePublicId, String.toList_append]
  have hprefix : "pv_".toList.isPrefixOf (generatePublicId bytes).toList = true := by
    rw [htext, List.isPrefixOf_iff_prefix]
    exact List.prefix_append _ _
  have hsuffix : String.ofList ((generatePublicId bytes).toList.drop 3) = Base58.encode bytes.1 := by
    rw [htext]
    exact String.ofList_toList
  have hne : Base58.encode bytes.1 ≠ "" := by
    intro hempty
    have hnone : Base58.decode "" = some [] := by decide +kernel
    rw [hempty, hnone] at hdecode
    have hlen := bytes.2
    rw [← Option.some.inj hdecode] at hlen
    exact absurd hlen (by decide)
  have hchars : (Base58.encode bytes.1).toList.all (BASE58_ALPHABET.toList.contains ·) = true :=
    List.all_eq_true.mpr fun c hc => List.contains_iff_mem.mpr (Base58.encode_alphabet hc)
  simp only [validatePublicProofId, hprefix, hsuffix, hne, hchars, hdecode, bytes.2, Bool.not_true,
    Bool.false_eq_true, if_false, beq_self_eq_true]

/-! ## Programs -/

inductive PublicProofError where
  | database (error : DbError)
  deriving DecidableEq

abbrev Publish (α : Type) := Program schema PublicProofError α

/-- A statement whose failure is returned. -/
def query (s : Sql) : Publish s.Res := sql (S := schema) .database s

/-- `is_unique_violation`. The unique indexes of the registry are these two. -/
def isUniqueViolation : DbError → Bool
  | .database (some constraint) =>
    constraint == "public_proof_registry_pkey" ||
      constraint == "idx_public_proof_registry_active_hash"
  | _ => false

def normalizeStoredFileHash (fileHash : String) : String := lower (trim fileHash)

/-- `insert`, whose error is looked at. -/
def insertRegistered (publicProofId fileHash tsaClass : String) (candidate : Uuid) :
    Publish (Except DbError Unit) :=
  ExceptT.lift
    (Prog.call (Call.sql (S := schema) (.insertEntry publicProofId fileHash tsaClass candidate)))

/-- The publication of a candidate. -/
def publishCandidate (fileHash tsaClass : String) (candidate : Uuid) : Publish Unit := do
  let bytes : Bytes 16 ← ask (S := schema) .fillBytes
  let publicProofId := generatePublicId bytes
  match ← insertRegistered publicProofId fileHash tsaClass candidate with
  | .error err => if isUniqueViolation err then pure () else throw (.database err)
  | .ok _ => query (.bindProof publicProofId candidate)

def syncCanonicalPublicProofInTx (fileHash tsaClass : String) : Publish Unit := do
  let active ← query (.selectActiveForUpdate fileHash)
  if Option.isSome active then pure ()
  else
    match ← query (.selectCandidate fileHash) with
    | none => pure ()
    | some candidate => publishCandidate fileHash tsaClass candidate

/-- What follows `begin`, rolled back where it ends early. -/
def committed (body : Publish Unit) : Publish Unit := do
  orRollback body
  commitTx .database

def onProofAnchored (proofId : Uuid) (fileHash tsaClass : String) : Publish Unit := do
  beginTx .database
  committed do
    query (.insertProof proofId (normalizeStoredFileHash fileHash))
    syncCanonicalPublicProofInTx (normalizeStoredFileHash fileHash) tsaClass

def syncCanonicalPublicProof (fileHash tsaClass : String) : Publish Unit := do
  beginTx .database
  committed (syncCanonicalPublicProofInTx (normalizeStoredFileHash fileHash) tsaClass)

def disableCanonicalPublicProof (fileHash : String) : Publish Unit := do
  beginTx .database
  committed do
    match ← query (.selectActive (normalizeStoredFileHash fileHash)) with
    | none => pure ()
    | some publicProofId =>
      query (.disableEntry publicProofId)
      query (.stickProofs publicProofId)

inductive Request where
  | onProofAnchored (proofId : Uuid) (fileHash tsaClass : String)
  | syncCanonicalPublicProof (fileHash tsaClass : String)
  | disableCanonicalPublicProof (fileHash : String)
  deriving DecidableEq

def Request.run : Request → Publish Unit
  | onProofAnchored proofId fileHash tsaClass => Registry.onProofAnchored proofId fileHash tsaClass
  | syncCanonicalPublicProof fileHash tsaClass => Registry.syncCanonicalPublicProof fileHash tsaClass
  | disableCanonicalPublicProof fileHash => Registry.disableCanonicalPublicProof fileHash

abbrev RegistryConfig :=
  Config (Call.Answer (S := schema)) (Shared schema) (Local schema) (Except PublicProofError Unit)

/-- Any number of requests over some tables; none has begun. -/
def start (requests : Nat → Request) (db : Tables) : RegistryConfig :=
  startOn (S := schema) db fun p => (requests p).run.run

/-! ## Statements -/

section Statements

variable {waits : Key → Bool} {c : Choice} {now : Int} {db : Tables} {ks : List Key}
  {ws : List Write} {m candidate : Uuid} {id h cls : String}

theorem insertProof_ok {a : Unit}
    (he : (Sql.insertProof m h).effect waits c now db = some (.ok (a, ks, ws))) :
    (db.proof? m).isSome = true ∧ ws = [] ∨
      (db.proof? m).isSome = false ∧ ks = [.proof m] ∧
        ws = [.insertProof ⟨m, h, none, now, false⟩] := by
  obtain ⟨-, he⟩ := unlessHeld_some he
  by_cases hthere : (db.proof? m).isSome = true
  · rw [if_pos hthere] at he
    exact Or.inl ⟨hthere, (answers_ok.mp he).2.2⟩
  · rw [if_neg hthere] at he
    obtain ⟨-, -, rfl, rfl⟩ := takes_ok.mp he
    exact Or.inr ⟨by simpa using hthere, rfl, rfl⟩

theorem selectActive_ok {a : Option String}
    (he : (Sql.selectActive h).effect waits c now db = some (.ok (a, ks, ws))) :
    a = (db.active? h).map (·.publicProofId) ∧ ws = [] := by
  obtain ⟨rfl, -, rfl⟩ := answers_ok.mp he
  exact ⟨rfl, rfl⟩

theorem selectActiveForUpdate_ok {a : Option String}
    (he : (Sql.selectActiveForUpdate h).effect waits c now db = some (.ok (a, ks, ws))) :
    a = (db.active? h).map (·.publicProofId) ∧ ws = [] := by
  simp only [Sql.effect] at he
  cases hactive : db.active? h with
  | none =>
    rw [hactive] at he
    obtain ⟨rfl, -, rfl⟩ := answers_ok.mp he
    exact ⟨rfl, rfl⟩
  | some entry =>
    rw [hactive] at he
    obtain ⟨-, rfl, -, rfl⟩ := takes_ok.mp he
    exact ⟨rfl, rfl⟩

theorem selectCandidate_ok {a : Option Uuid}
    (he : (Sql.selectCandidate h).effect waits c now db = some (.ok (a, ks, ws))) :
    a = db.candidate? c.tie h ∧ ws = [] := by
  obtain ⟨rfl, -, rfl⟩ := answers_ok.mp he
  exact ⟨rfl, rfl⟩

theorem insertEntry_ok {a : Unit}
    (he : (Sql.insertEntry id h cls candidate).effect waits c now db = some (.ok (a, ks, ws))) :
    db.entry? id = none ∧ db.active? h = none ∧ ks = [.entry id, .activeHash h] ∧
      ws = [.insertEntry (newEntry id h cls now)] := by
  obtain ⟨-, he⟩ := unlessHeld_some he
  by_cases hentry : (db.entry? id).isSome = true
  · rw [if_pos hentry] at he
    exact absurd he refuses_ok
  rw [if_neg hentry] at he
  obtain ⟨-, he⟩ := unlessHeld_some he
  by_cases hactive : (db.active? h).isSome = true
  · rw [if_pos hactive] at he
    exact absurd he refuses_ok
  rw [if_neg hactive] at he
  obtain ⟨-, -, rfl, rfl⟩ := takes_ok.mp he
  exact ⟨by simpa using hentry, by simpa using hactive, rfl, rfl⟩

/-- **A refused insert** has met an entry with its id, or an enabled one with its hash. -/
theorem insertEntry_error {e : DbError}
    (he : (Sql.insertEntry id h cls candidate).effect waits c now db = some (.error e)) :
    ¬ (db.entry? id = none ∧ db.active? h = none) := by
  obtain ⟨-, he⟩ := unlessHeld_some he
  rintro ⟨hentry, hactive⟩
  rw [if_neg (by simp [hentry])] at he
  obtain ⟨-, he⟩ := unlessHeld_some he
  rw [if_neg (by simp [hactive])] at he
  exact takes_error he

theorem bindProof_ok {a : Unit}
    (he : (Sql.bindProof id m).effect waits c now db = some (.ok (a, ks, ws))) :
    db.proof? m = none ∧ ws = [] ∨ ks = [.proof m] ∧ ws = [.bind m id] := by
  simp only [Sql.effect] at he
  cases hrow : db.proof? m with
  | none =>
    rw [hrow] at he
    exact Or.inl ⟨rfl, (answers_ok.mp he).2.2⟩
  | some row =>
    rw [hrow] at he
    obtain ⟨-, he⟩ := unlessHeld_some he
    by_cases hentry : (db.entry? id).isNone = true
    · rw [if_pos hentry] at he
      exact absurd he refuses_ok
    rw [if_neg hentry] at he
    obtain ⟨-, -, rfl, rfl⟩ := takes_ok.mp he
    exact Or.inr ⟨rfl, rfl⟩

end Statements

/-! ## Rows that stay -/

/-- The proof has its row. -/
def Recorded (m : Uuid) (db : Tables) : Prop := ∃ row ∈ db.materialization, row.internalProofId = m

section Recording

variable {m : Uuid} {db : Tables} {row : Materialization} {w : Write} {log : List Write}

theorem recorded_iff : Recorded m db ↔ (db.proof? m).isSome = true := by
  simp [Recorded, Tables.proof?, List.find?_isSome]

theorem recorded_apply (hr : Recorded m db) : Recorded m (w.apply db) := by
  obtain ⟨row, hrow, hm⟩ := hr
  cases w with
  | insertProof new => exact ⟨row, List.mem_append_left _ hrow, hm⟩
  | insertEntry | disable => exact ⟨row, hrow, hm⟩
  | bind m' id => exact ⟨row.bound m' id, List.mem_map_of_mem hrow, by simpa using hm⟩
  | stick m' => exact ⟨row.stuck m', List.mem_map_of_mem hrow, by simpa using hm⟩

/-- **Nobody deletes a row.** -/
theorem recorded_replay (hr : Recorded m db) : Recorded m (replay (S := schema) log db) := by
  induction log generalizing db with
  | nil => exact hr
  | cons w log ih => exact ih (recorded_apply hr)

/-- **A committed insert** records its proof. -/
theorem recorded_of_insert (hw : .insertProof row ∈ log) :
    Recorded row.internalProofId (replay (S := schema) log db) := by
  obtain ⟨before, after, rfl⟩ := List.append_of_mem hw
  rw [replay_append]
  have hnew : Recorded row.internalProofId
      ((Write.insertProof row).apply (replay (S := schema) before db)) :=
    ⟨row, by simp [Write.apply], rfl⟩
  exact @recorded_replay _ _ after hnew

end Recording

/-! ## What an answer is worth -/

/-- **The registry inserts of a recording are unopposed**: the proof has its row already, or there is
neither an entry with the new id nor an enabled one with the hash. -/
def Unopposed (requests : Nat → Request) (p : Nat) (q : Call schema) (g : Shared schema) : Prop :=
  match requests p, q with
  | .onProofAnchored proofId _ _, .sql (.insertEntry publicProofId fileHash _ _) =>
    (g.db.proof? proofId).isSome = true ∨
      g.db.entry? publicProofId = none ∧ g.db.active? fileHash = none
  | _, _ => True

instance (requests : Nat → Request) (p : Nat) (q : Call schema) (g : Shared schema) :
    Decidable (Unopposed requests p q g) := by
  unfold Unopposed
  split <;> infer_instance

/-- What no write undoes. -/
def Lasting (Φ : Tables → Prop) : Prop :=
  ∀ db log, Φ db → Φ (replay (S := schema) log db)

theorem lasting_recorded {m : Uuid} : Lasting (Recorded m) := fun _ _ => recorded_replay

theorem lasting_true : Lasting fun _ => True := fun _ _ h => h

section Answers

variable {requests : Nat → Request} {db₀ : Tables} {p : Nat} {now : Int} {ks : List Key}
  {F Φ R : Tables → Prop} {ws : List Write} {α : Type} {m : Uuid} {fileHash tsaClass : String}

/-- The tables are the replay of whatever was committed. -/
abbrev Replayed (db₀ : Tables) : Tables → History schema → Prop :=
  Logged (S := schema) (fun _ _ _ => True) db₀

/-- A program that does not end early meets its postcondition. -/
abbrev Answers (requests : Nat → Request) (db₀ : Tables) (p : Nat)
    (Pre : Local schema → Shared schema → Prop) (prog : Publish α)
    (Post : α → Local schema → Shared schema → Prop) : Prop :=
  Tries (S := schema) (fun _ _ _ _ => true) (Unopposed requests) (Replayed db₀) p Pre prog Post
    fun _ => Outside fun _ => True

/-- The transaction goes on: the locks, the rows under them, what lasts, and these writes among
others. -/
def Going (p : Nat) (now : Int) (ks : List Key) (F Φ : Tables → Prop) (ws : List Write)
    (l : Local schema) (g : Shared schema) : Prop :=
  ∃ log, (∀ w ∈ ws, w ∈ log) ∧
    (∀ db, (replay (S := schema) log db).registry = db.registry) ∧
    Amid (S := schema) p now ks F (fun g => Φ g.db) log l g

/-- It is open, with these writes. -/
def Open (p : Nat) (now : Int) (Φ : Tables → Prop) (ws : List Write) (l : Local schema)
    (g : Shared schema) : Prop :=
  ∃ log, (∀ w ∈ ws, w ∈ log) ∧
    Amid (S := schema) p now [] (fun _ => True) (fun g => Φ g.db) log l g

/-- It has ended well: open, or aborted with `R`. -/
def Ended (p : Nat) (now : Int) (Φ R : Tables → Prop) (ws : List Write) (l : Local schema)
    (g : Shared schema) : Prop :=
  Open p now Φ ws l g ∨ Broken (S := schema) (fun g => R g.db) l g

theorem Lasting.steady (h : Lasting Φ) :
    Steady (Replayed db₀) p fun g : Shared schema => Φ g.db :=
  steady_of_commits fun _ _ _ _ _ hΦ => h _ _ hΦ

theorem stable_going (hF : Framed (S := schema) ks F) (hΦ : Lasting Φ) :
    Stable (discipline (Replayed db₀)) p (Going p now ks F Φ ws) :=
  stable_exists fun _ => stable_and (stable_and (stable_amid hF hΦ.steady))

theorem stable_open (hΦ : Lasting Φ) : Stable (discipline (Replayed db₀)) p (Open p now Φ ws) :=
  stable_exists fun _ => stable_and (stable_amid framed_const hΦ.steady)

theorem stable_ended (hΦ : Lasting Φ) (hR : Lasting R) :
    Stable (discipline (Replayed db₀)) p (Ended p now Φ R ws) :=
  stable_or (stable_open hΦ) (stable_broken hR.steady)

theorem stable_anything {ε : Type} (_ : ε) :
    Stable (discipline (S := schema) (Replayed db₀)) p (Outside fun _ => True) :=
  stable_outside steady_const

theorem Going.open {l : Local schema} {g : Shared schema} (h : Going p now ks F Φ ws l g) :
    Open p now Φ ws l g := by
  obtain ⟨log, hws, -, h⟩ := h
  exact ⟨log, hws, amid_mono (by simp) (fun _ _ => trivial) (fun _ h => h) h⟩

/-- **A read.** -/
theorem answers_read {s : Sql} (hF : Framed (S := schema) ks F) (hΦ : Lasting Φ)
    (hread : ∀ waits c now db a taken more,
      s.effect waits c now db = some (.ok (a, taken, more)) → more = []) :
    Answers requests db₀ p (Going p now ks F Φ ws) (query s) fun _ => Going p now ks F Φ ws := by
  refine tries_exists fun log => tries_and fun hws => tries_and fun hlog => ?_
  refine tries_post (tries_amid_read (S := schema) rfl hF hΦ.steady (fun _ => hΦ.steady)
    fun g c a taken more _ hg _ _ he => ⟨hread _ _ _ _ _ _ _ he, hg⟩)
    (fun _ _ _ h => ⟨log, hws, hlog, h⟩) fun _ _ _ _ => trivial

/-- A refused insert of this program backs `R`. -/
def Backs (requests : Nat → Request) (p : Nat) (F Φ R : Tables → Prop) : Prop :=
  ∀ (g : Shared schema) id h cls candidate, F g.db → Φ g.db →
    Unopposed requests p (.sql (.insertEntry id h cls candidate)) g →
    ¬ (g.db.entry? id = none ∧ g.db.active? h = none) → ∀ db, Φ db → R db

theorem entry?_congr {db db' : Tables} (h : db.registry = db'.registry) (id : String) :
    db.entry? id = db'.entry? id := by
  unfold Tables.entry?
  rw [h]

theorem active?_congr {db db' : Tables} (h : db.registry = db'.registry) (fileHash : String) :
    db.active? fileHash = db'.active? fileHash := by
  unfold Tables.active?
  rw [h]

/-- After the insert into the registry: a unique index that refuses it leaves `R`. -/
def Inserted (p : Nat) (now : Int) (Φ R : Tables → Prop) (ws : List Write) :
    Except DbError Unit → Local schema → Shared schema → Prop
  | .ok _ => Open p now Φ ws
  | .error e => fun l g => isUniqueViolation e = true → Broken (S := schema) (fun g => R g.db) l g

theorem stable_inserted (hΦ : Lasting Φ) (hR : Lasting R) (r : Except DbError Unit) :
    Stable (discipline (Replayed db₀)) p (Inserted p now Φ R ws r) := by
  cases r with
  | ok _ => exact stable_open hΦ
  | error e => exact fun l g g' h hi hr hi' hu => stable_broken hR.steady l g g' (h hu) hi hr hi'

theorem answers_insertRegistered {id : String} {candidate : Uuid} (hF : Framed (S := schema) ks F)
    (hΦ : Lasting Φ) (hR : Lasting R) (hb : Backs requests p F Φ R) :
    Answers requests db₀ p (Going p now ks F Φ ws) (insertRegistered id fileHash tsaClass candidate)
      (Inserted p now Φ R ws) := by
  refine tries_lift (stable_inserted hΦ hR)
    (triple_exists fun log => triple_and fun hws => triple_and fun hlog => ?_)
  refine triple_post (triple_amid (S := schema) (ι := List Write) (K := fun _ _ => [])
    (G := fun _ _ _ => True) (A := fun _ _ g => Φ g.db) (W := fun _ more => more)
    (X := fun e => isUniqueViolation e = true → ∀ db, Φ db → R db) rfl hF
    (fun _ _ => framed_const) hΦ.steady (fun _ _ => hΦ.steady) ?_ ?_) ?_
  · intro g c a taken more _ hg _ _ he
    exact ⟨more, rfl, trivial, hg, by simp, fun w hw k hk =>
      Or.inr (covered_effect (.insertEntry id fileHash tsaClass candidate) (g.waits p) c now
        (replay (S := schema) log g.db) a taken more he w hw k hk)⟩
  · rintro g e hf hg - hok (rfl | ⟨c, he⟩) hu
    · exact absurd hu (by simp [isUniqueViolation])
    · refine hb g id fileHash tsaClass candidate hf hg hok ?_
      rw [← entry?_congr (hlog g.db), ← active?_congr (hlog g.db)]
      exact insertEntry_error (c := c) he
  · intro r l g h
    cases r with
    | ok _ =>
      obtain ⟨more, h⟩ := h
      exact ⟨log ++ more, fun w hw => List.mem_append_left _ (hws w hw), h⟩
    | error e =>
      intro hu
      rcases h.2 with ⟨rfl, -⟩ | ⟨htx, -, hg⟩
      · exact absurd hu (by simp [isUniqueViolation])
      · exact ⟨htx, h.1 hu g.db hg⟩

/-- **Any other statement** leaves the transaction open. -/
theorem answers_open {s : Sql} (hΦ : Lasting Φ) :
    Answers requests db₀ p (Open p now Φ ws) (query s) fun _ => Open p now Φ ws := by
  refine tries_exists fun log => tries_and fun hws => ?_
  refine tries_post (tries_amid (S := schema) (ι := List Write) (K := fun _ _ => [])
    (G := fun _ _ _ => True) (A := fun _ _ g => Φ g.db) (W := fun _ more => more) rfl framed_const
    (fun _ _ => framed_const) hΦ.steady (fun _ _ => hΦ.steady) ?_) ?_ fun _ _ _ _ => trivial
  · intro g c a taken more _ hg _ _ he
    exact ⟨more, rfl, trivial, hg, by simp, fun w hw k hk =>
      Or.inr (covered_effect _ (g.waits p) c now _ _ _ _ he w hw k hk)⟩
  · rintro a l g ⟨more, h⟩
    exact ⟨log ++ more, fun w hw => List.mem_append_left _ (hws w hw), h⟩

theorem answers_publishCandidate {candidate : Uuid} (hF : Framed (S := schema) ks F)
    (hΦ : Lasting Φ) (hR : Lasting R) (hb : Backs requests p F Φ R) :
    Answers requests db₀ p (Going p now ks F Φ ws) (publishCandidate fileHash tsaClass candidate)
      fun _ => Ended p now Φ R ws := by
  unfold publishCandidate
  refine tries_bind (S := schema) stable_anything (tries_of_spec (S := schema)
    (spec_ask (S := schema) (stable_going hF hΦ) (fun _ => stable_going hF hΦ)
      fun _ _ _ h => h)) fun bytes => ?_
  refine tries_bind (S := schema) stable_anything (answers_insertRegistered hF hΦ hR hb) fun r => ?_
  cases r with
  | ok _ =>
    exact tries_post (answers_open hΦ) (fun _ _ _ h => Or.inl h) fun _ _ _ h => h
  | error e =>
    by_cases hu : isUniqueViolation e = true
    · simp only [if_pos hu]
      exact tries_pure (S := schema) (stable_inserted hΦ hR _) fun _ _ h => Or.inr (h hu)
    · simp only [if_neg hu]
      exact tries_throw (S := schema) (stable_inserted hΦ hR _) fun _ _ _ => trivial

/-- **`sync_canonical_public_proof_in_tx`.** -/
theorem answers_sync (hF : Framed (S := schema) ks F) (hΦ : Lasting Φ) (hR : Lasting R)
    (hb : Backs requests p F Φ R) :
    Answers requests db₀ p (Going p now ks F Φ ws) (syncCanonicalPublicProofInTx fileHash tsaClass)
      fun _ => Ended p now Φ R ws := by
  have hdone : Answers requests db₀ p (Going p now ks F Φ ws) (pure ())
      fun _ => Ended p now Φ R ws :=
    tries_pure (S := schema) (stable_going hF hΦ) fun _ _ h => Or.inl h.open
  unfold syncCanonicalPublicProofInTx
  refine tries_bind (S := schema) stable_anything
    (answers_read hF hΦ fun _ _ _ _ _ _ _ he => (selectActiveForUpdate_ok he).2) fun active => ?_
  by_cases hactive : Option.isSome active = true
  · simp only [hactive]
    exact hdone
  simp only [hactive]
  refine tries_bind (S := schema) stable_anything
    (answers_read hF hΦ fun _ _ _ _ _ _ _ he => (selectCandidate_ok he).2) fun candidate => ?_
  cases candidate with
  | none => exact hdone
  | some candidate => exact answers_publishCandidate hF hΦ hR hb

/-! ## Transactions -/

/-- **`commit`** of a transaction that has ended well. -/
theorem triple_ended (hΦ : Lasting Φ) (hR : Lasting R)
    (hk : ∀ db log, (∀ w ∈ ws, w ∈ log) → Φ db → R (replay (S := schema) log db)) :
    Triple ((system schema).restrict fun _ _ _ _ => true) (Unopposed requests)
      (discipline (Replayed db₀)) p (Ended p now Φ R ws) (Prog.call Call.commit)
      fun (r : Except DbError Unit) => Outside fun g : Shared schema => r = .ok () → R g.db := by
  have hst : ∀ r : Except DbError Unit, Steady (Replayed db₀) p fun g : Shared schema =>
      r = .ok () → R g.db := fun r g g' h hi hr hi' hok => hR.steady g g' (h hok) hi hr hi'
  have hbroken : Triple ((system schema).restrict fun _ _ _ _ => true) (Unopposed requests)
      (discipline (Replayed db₀)) p (Broken (S := schema) fun g => R g.db) (Prog.call Call.commit)
      fun (r : Except DbError Unit) => Outside fun g : Shared schema => r = .ok () → R g.db :=
    triple_post (triple_broken_commit (S := schema) hR.steady hR.steady fun _ hg => hg)
      fun _ _ _ h _ => h
  refine fun l g h => h.elim (fun h => ?_) (hbroken l g)
  obtain ⟨log, hws, h⟩ := h
  refine triple_amid_commit (S := schema) (Q := fun r g => r = .ok () → R g.db) framed_const
    hΦ.steady hst ?_ (fun _ _ _ h => absurd h (by simp)) l g h
  exact fun g _ _ hg hi => ⟨hi.record fun _ => trivial, fun _ => hk g.db log hws hg⟩

/-- **What a transaction leaves**, committed or aborted. -/
theorem answers_committed {ι : Type} (now : Int) (Φ : ι → Tables → Prop) (ws : ι → List Write)
    {Pre : Local schema → Shared schema → Prop} {body : Publish Unit} (hΦ : ∀ i, Lasting (Φ i))
    (hR : Lasting R)
    (hk : ∀ i db log, (∀ w ∈ ws i, w ∈ log) → Φ i db → R (replay (S := schema) log db))
    (h : Answers requests db₀ p Pre body fun _ l g => ∃ i, Ended p now (Φ i) R (ws i) l g) :
    Answers requests db₀ p Pre (committed body) fun _ => Outside fun g => R g.db := by
  unfold committed
  refine tries_bind (S := schema) stable_anything (tries_orRollback (S := schema)
    (Q := fun _ _ => True) (fun _ => stable_exists fun i => stable_ended (hΦ i) hR) stable_anything
    (fun _ => steady_const) (fun _ _ _ _ _ => trivial) h) fun _ => tries_exists fun i => ?_
  refine tries_attempt (S := schema) (fun _ => stable_outside hR.steady) stable_anything
    (triple_post (triple_ended (hΦ i) hR (hk i)) fun r l g h => ?_)
  cases r with
  | ok _ => exact h rfl
  | error _ => trivial

/-- **`begin`.** -/
theorem answers_begin :
    Answers requests db₀ p (Outside fun g => writesOf p g.history = [])
      (beginTx (S := schema) .database)
      fun _ l g => ∃ now, Amid (S := schema) p now [] (fun _ => True) (fun _ => True) [] l g :=
  tries_of_spec (S := schema) (spec_attempt (S := schema) (fun _ => stable_exists fun _ =>
    stable_amid framed_const steady_const) (fun _ => steady_const)
    (triple_pre (fun _ _ h _ => ⟨h, trivial⟩)
      (triple_amid_begin (S := schema) (E := fun _ _ => True)
        (P := fun _ => True) steady_const (fun _ => steady_const) fun _ _ _ => trivial)))

theorem Going.begun {l : Local schema} {g : Shared schema}
    (h : Amid (S := schema) p now [] (fun _ => True) (fun _ => True) [] l g) :
    Going p now [] (fun _ => True) (fun _ => True) [] l g :=
  ⟨[], by simp, fun _ => rfl, h⟩

theorem backs_true {G : Tables → Prop} : Backs requests p F G fun _ => True :=
  fun _ _ _ _ _ _ _ _ _ _ _ => trivial

/-- **`sync_canonical_public_proof`.** -/
theorem answers_syncCanonicalPublicProof :
    Answers requests db₀ p (Outside fun g => writesOf p g.history = [])
      (syncCanonicalPublicProof fileHash tsaClass) fun _ => Outside fun _ => True := by
  refine tries_bind (S := schema) stable_anything answers_begin fun _ => tries_exists fun now => ?_
  refine answers_committed now (fun (_ : Unit) _ => True) (fun _ => []) (fun _ => lasting_true)
    lasting_true (fun _ _ _ _ _ => trivial) ?_
  exact tries_post (tries_pre (fun _ _ h _ => Going.begun h)
    (answers_sync framed_const lasting_true lasting_true backs_true)) (fun _ _ _ h => ⟨(), h⟩)
    fun _ _ _ h => h

/-- **`disable_canonical_public_proof`.** -/
theorem answers_disableCanonicalPublicProof :
    Answers requests db₀ p (Outside fun g => writesOf p g.history = [])
      (disableCanonicalPublicProof fileHash) fun _ => Outside fun _ => True := by
  refine tries_bind (S := schema) stable_anything answers_begin fun _ => tries_exists fun now => ?_
  refine answers_committed now (fun (_ : Unit) _ => True) (fun _ => []) (fun _ => lasting_true)
    lasting_true (fun _ _ _ _ _ => trivial) ?_
  refine tries_pre (fun _ _ h _ => (Going.begun h).open) (tries_bind (S := schema) stable_anything
    (answers_open lasting_true) fun found => ?_)
  cases found with
  | none => exact tries_pure (S := schema) (stable_open lasting_true) fun _ _ h => ⟨(), Or.inl h⟩
  | some id =>
    refine tries_bind (S := schema) stable_anything (answers_open lasting_true) fun _ => ?_
    exact tries_post (answers_open lasting_true) (fun _ _ _ h => ⟨(), Or.inl h⟩) fun _ _ _ h => h

/-! ## Recording a proof -/

/-- What a recording goes on with: the row was there, or it is new. -/
def Found (m : Uuid) : Option Materialization → Tables → Prop
  | none => Recorded m
  | some row => fun _ => row.internalProofId = m

/-- The lock, and what is known under it. -/
def rowKeys (new : Option Materialization) : List Key :=
  new.toList.map fun row => .proof row.internalProofId

def Absent : Option Materialization → Tables → Prop
  | none => fun _ => True
  | some row => fun db => db.proof? row.internalProofId = none

def inserts (new : Option Materialization) : List Write := new.toList.map .insertProof

theorem framed_absent (new : Option Materialization) :
    Framed (S := schema) (rowKeys new) (Absent new) := by
  cases new with
  | none => exact fun _ _ _ _ => trivial
  | some row =>
    intro db db' hsame h
    have hrow : db'.materialization.filter (·.internalProofId == row.internalProofId) =
        db.materialization.filter (·.internalProofId == row.internalProofId) :=
      hsame (.proof row.internalProofId) (by simp [rowKeys])
    change db.proof? row.internalProofId = none at h
    change db'.proof? row.internalProofId = none
    unfold Tables.proof? at h ⊢
    rw [← List.head?_filter] at h ⊢
    rwa [hrow]

theorem lasting_found (new : Option Materialization) : Lasting (Found m new) := by
  cases new with
  | none => exact lasting_recorded
  | some row => exact fun _ _ h => h

/-- **The row of a proof**: it is there, or this transaction inserts it. -/
theorem answers_insertProof :
    Answers requests db₀ p
      (Amid (S := schema) p now [] (fun _ => True) (fun _ => True) []) (query (.insertProof m fileHash))
      fun _ l g => ∃ new, Going p now (rowKeys new) (Absent new) (Found m new) (inserts new) l g := by
  refine tries_post (tries_amid (S := schema) (ι := Option Materialization)
    (K := fun _ => rowKeys) (G := fun _ => Absent) (A := fun _ new g => Found m new g.db)
    (W := fun _ => inserts) rfl framed_const (fun _ => framed_absent) steady_const
    (fun _ new => (lasting_found new).steady) ?_) ?_ fun _ _ _ _ => trivial
  · intro g c a taken ws _ _ _ _ he
    rcases insertProof_ok (c := c) he with ⟨hthere, rfl⟩ | ⟨hnew, rfl, rfl⟩
    · exact ⟨none, rfl, trivial, recorded_iff.mpr hthere, by simp [rowKeys], by simp⟩
    · have hnew : (g.db.proof? m).isSome = false := hnew
      exact ⟨some ⟨m, fileHash, none, now, false⟩, rfl, by simpa [Absent] using hnew, rfl,
        by simp [rowKeys], by simp [Write.keys]⟩
  · rintro _ l g ⟨new, h⟩
    refine ⟨new, inserts new, fun w hw => hw, fun db => ?_, h⟩
    cases new with
    | none | some => rfl

/-- **`on_proof_anchored`.** -/
theorem answers_onProofAnchored {hash : String} (hreq : requests p = .onProofAnchored m hash tsaClass) :
    Answers requests db₀ p (Outside fun g => writesOf p g.history = [])
      (onProofAnchored m hash tsaClass) fun _ => Outside fun g => Recorded m g.db := by
  refine tries_bind (S := schema) stable_anything answers_begin fun _ => tries_exists fun now => ?_
  refine answers_committed now (Found m) inserts lasting_found lasting_recorded ?_ ?_
  · intro new db log hws hfound
    cases new with
    | none => exact recorded_replay hfound
    | some row =>
      rw [← show row.internalProofId = m from hfound]
      exact recorded_of_insert (hws _ (by simp [inserts]))
  · refine tries_bind (S := schema) stable_anything answers_insertProof fun _ =>
      tries_exists fun new => ?_
    refine tries_post (answers_sync (framed_absent new) (lasting_found new) lasting_recorded ?_)
      (fun _ _ _ h => ⟨new, h⟩) fun _ _ _ h => h
    -- refused with a row of its own, the insert would be opposed
    intro g id h cls candidate hf hg hok hrefused db hdb
    cases new with
    | none => exact hdb
    | some row =>
      simp only [Unopposed, hreq] at hok
      have hm : row.internalProofId = m := hg
      have habsent : g.db.proof? m = none := hm ▸ hf
      rw [habsent] at hok
      exact absurd (hok.resolve_left (by simp)) hrefused

end Answers

/-! ## Runs -/

/-- What the answer of a request says of the tables. -/
def Kept (requests : Nat → Request) (p : Nat) (answer : Except PublicProofError Unit)
    (g : Shared schema) : Prop :=
  ∀ m hash tsaClass, requests p = .onProofAnchored m hash tsaClass → answer = .ok () →
    Recorded m g.db

theorem serves (requests : Nat → Request) (db₀ : Tables) :
    Serves (S := schema) (fun _ _ _ => True) db₀ (fun p => (requests p).run.run) (Unopposed requests)
      (Kept requests) := by
  intro p
  beta_reduce
  cases hreq : requests p with
  | onProofAnchored m hash tsaClass =>
    refine triple_post (answers_onProofAnchored hreq) fun r l g h => ?_
    intro m' hash' tsaClass' hreq' hok
    obtain ⟨rfl, -⟩ := Request.onProofAnchored.inj (hreq.symm.trans hreq')
    subst hok
    exact h
  | syncCanonicalPublicProof hash tsaClass =>
    refine triple_post answers_syncCanonicalPublicProof fun r l g _ m' hash' tsaClass' hreq' => ?_
    exact absurd (hreq.symm.trans hreq') (by simp)
  | disableCanonicalPublicProof hash =>
    refine triple_post answers_disableCanonicalPublicProof fun r l g _ m' hash' tsaClass' hreq' => ?_
    exact absurd (hreq.symm.trans hreq') (by simp)

section Runs

variable {requests : Nat → Request} {db₀ : Tables} {y z : RegistryConfig} {p : Nat} {m : Uuid}
  {hash tsaClass : String}

/-- **Every proof recorded with `Ok` has its row, from then on**, in every run whose registry inserts
are `Unopposed`. -/
theorem materialized (hy : Reach (system schema) (Unopposed requests) (start requests db₀) y)
    (hz : Reach (system schema) (Unopposed requests) y z)
    (hreq : requests p = .onProofAnchored m hash tsaClass)
    (hok : (y.procs p).1.result = some (.ok ())) :
    Recorded m z.shared.db := by
  have hkept := (reach_service (serves requests db₀) hy).2 p _ hok m hash tsaClass hreq rfl
  exact reach_relates (S := schema) (fun db db' => Recorded m db → Recorded m db')
    (serves requests db₀) (fun _ h => h) (fun h h' hr => h' (h hr))
    (fun _ _ _ _ _ => recorded_replay) hy hz hkept

end Runs

/-- Two proofs of one file. -/
def sampleRecordings (p : Nat) : Request :=
  .onProofAnchored (if p = 0 then Uuid.small 1 else Uuid.small 2) "8D66" "legal"

/-- Sixteen bytes for the public id of a call. -/
def sampleBytes (p : Nat) : Bytes 16 := ⟨List.replicate 16 (UInt8.ofNat p), by simp⟩

/-- Statements in this order; each call draws bytes of its own. -/
def sampleSteps (calls : List Nat) : List (Nat × Choice) :=
  calls.map fun p => (p, ⟨false, p, sampleBytes p, 0⟩)

/-- The first is published, the second finds it. -/
theorem materialized_sampleRun : ∃ y : RegistryConfig,
    Reach (system schema) (Unopposed sampleRecordings) (start sampleRecordings .empty) y ∧
      y.shared.db.registry.length = 1 ∧ Recorded (Uuid.small 2) y.shared.db := by
  have hrun : ((start sampleRecordings .empty).run (system schema) (Unopposed sampleRecordings)
      (sampleSteps [0, 0, 0, 1, 1, 0, 0, 0, 0, 0, 1, 1])).map (fun y =>
        (y.shared.db.registry.length, (y.procs 1).1.result)) = some (1, some (.ok ())) := by
    decide +kernel
  obtain ⟨y, hy, hfacts⟩ := Reach.exists_of_run hrun
  obtain ⟨hlen, hok⟩ := Prod.mk.inj hfacts
  exact ⟨y, hy, hlen, materialized hy .refl (p := 1) rfl hok⟩

/-- **Both look for a published proof before either publishes its own.** The second is refused by the
index, answers `Ok`, and its row is gone. -/
theorem lost_materialization : ∃ y : RegistryConfig,
    Reach (system schema) (fun _ _ _ => True) (start sampleRecordings .empty) y ∧
      (y.procs 1).1.result = some (.ok ()) ∧ ¬ Recorded (Uuid.small 2) y.shared.db := by
  have hrun : ((start sampleRecordings .empty).run (system schema) (fun _ _ _ => True)
      (sampleSteps [0, 0, 0, 1, 1, 1, 0, 0, 0, 0, 0, 1, 1, 1, 1])).map (fun y =>
        ((y.procs 1).1.result, y.shared.db.proof? (Uuid.small 2))) = some (some (.ok ()), none) := by
    decide +kernel
  obtain ⟨y, hy, hfacts⟩ := Reach.exists_of_run hrun
  obtain ⟨hok, hnone⟩ := Prod.mk.inj hfacts
  refine ⟨y, hy, hok, fun h => ?_⟩
  rw [recorded_iff, hnone] at h
  exact absurd h (by simp)

end EvidentLedger.Registry
