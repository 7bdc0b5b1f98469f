import EvidentLedger.Lib.Constraint
import EvidentLedger.Lib.Shape
import EvidentLedger.Registry.Commit

/-!
# What the indexes of the registry keep

The primary keys and the unique index of the registry, the entries that it has, and their public ids, as
constraints of its tables.

* `Unique` is what the primary keys and the unique index say, `EntryKept` that an entry stays as it is
  until it is disabled. `unique_kept`: every statement of the registry keeps both, so they hold in every
  run (`reach_public`), also in those where a proof is bound again (`rebound`).
* `Issued`: the ids of the registry are valid. A request inserts generated ones only (`only_run`), so
  this holds in every run too (`reach_issued`).
-/

namespace EvidentLedger.Registry

open Lib.Interleave Lib.Transaction

/-! ## What the indexes keep -/

/-- An id has one entry, a hash one enabled entry, and a proof one row. -/
def Unique : Key → Tables → Prop
  | .proof m, db => db.materialization.countP (·.internalProofId == m) ≤ 1
  | .entry id, db => db.registry.countP (·.publicProofId == id) ≤ 1
  | .activeHash h, db => db.registry.countP (fun e => e.fileHash == h && e.enabled) ≤ 1

/-- An entry is there later, as it was or disabled. -/
def EntryKept (id : String) (db db' : Tables) : Prop :=
  ∀ e ∈ db.registry, e.publicProofId = id →
    e ∈ db'.registry ∨ { e with enabled := false } ∈ db'.registry

/-- What is kept under a key. -/
def KeyKept : Key → Tables → Tables → Prop
  | .entry id => EntryKept id
  | .proof _ | .activeHash _ => fun _ _ => True

section Keeping

variable {db db' db₁ db₁' db₂ db₂' : Tables} {k : Key} {id fileHash : String} {m : Uuid}

/-- An entry is there as it was. -/
theorem entryKept_refl : EntryKept id db db := fun _ he _ => Or.inl he

/-- An entry that was disabled on the way is disabled in the end: nothing enables one. -/
theorem entryKept_trans (h : EntryKept id db₁ db₂) (h' : EntryKept id db₂ db) :
    EntryKept id db₁ db := by
  intro e he hid
  rcases h e he hid with he' | he'
  · exact h' e he' hid
  · exact Or.inr ((h' _ he' hid).elim (fun h => h) fun h => h)

theorem keyKept_refl (k : Key) (db : Tables) : KeyKept k db db := by
  cases k with
  | entry id => exact entryKept_refl
  | proof | activeHash => trivial

theorem keyKept_trans (h : KeyKept k db₁ db₂) (h' : KeyKept k db₂ db) : KeyKept k db₁ db := by
  cases k with
  | entry id => exact entryKept_trans h h'
  | proof | activeHash => trivial

/-- The rows under an id are the same. -/
theorem mem_of_same_entry (hs : Key.same (.entry id) db db') {e : PublicRegistryEntry}
    (hid : e.publicProofId = id) : e ∈ db'.registry ↔ e ∈ db.registry := by
  have hslice : db'.registry.filter (·.publicProofId == id) =
      db.registry.filter (·.publicProofId == id) := hs
  -- a row is in the table exactly if it is among the rows under its own id
  have hmem : ∀ l : List PublicRegistryEntry, e ∈ l ↔ e ∈ l.filter (·.publicProofId == id) :=
    fun l => by simp [List.mem_filter, hid]
  rw [hmem, hslice, ← hmem]

/-- What is kept under a key depends on the rows under it only. -/
theorem keyKept_congr (hs₁ : k.same db₁ db₁') (hs₂ : k.same db₂ db₂') (h : KeyKept k db₁ db₂) :
    KeyKept k db₁' db₂' := by
  cases k with
  | entry id =>
    intro e he hid
    have hkept := h e ((mem_of_same_entry hs₁ hid).mp he) hid
    exact hkept.imp (mem_of_same_entry hs₂ hid).mpr (mem_of_same_entry (e := { e with enabled := false })
      hs₂ hid).mpr
  | proof | activeHash => trivial

/-- Whether an index holds at a key depends on the rows under it only: for the active hash that is
every row of the hash, enabled or not. -/
theorem unique_congr (hs : k.same db db') (h : Unique k db) : Unique k db' := by
  cases k with
  | proof m =>
    have hslice : db'.materialization.filter (·.internalProofId == m) =
        db.materialization.filter (·.internalProofId == m) := hs
    rw [Unique, List.countP_eq_length_filter, hslice, ← List.countP_eq_length_filter]
    exact h
  | entry id =>
    have hslice : db'.registry.filter (·.publicProofId == id) =
        db.registry.filter (·.publicProofId == id) := hs
    rw [Unique, List.countP_eq_length_filter, hslice, ← List.countP_eq_length_filter]
    exact h
  | activeHash fileHash =>
    have hslice : db'.registry.filter (·.fileHash == fileHash) =
        db.registry.filter (·.fileHash == fileHash) := hs
    -- the enabled rows of the hash, counted among all rows of the hash
    have hcount : ∀ db : Tables, db.registry.countP (fun e => e.fileHash == fileHash && e.enabled) =
        (db.registry.filter (·.fileHash == fileHash)).countP (·.enabled) := by
      intro db
      rw [List.countP_filter]
      simp only [Bool.and_comm]
    rw [Unique, hcount, hslice, ← hcount]
    exact h

/-- **Every write keeps the entries.** -/
theorem keyKept_apply (k : Key) (w : Write) (db : Tables) : KeyKept k db (w.apply db) := by
  cases k with
  | proof | activeHash => trivial
  | entry id =>
    cases w with
    | insertProof | bind | stick => exact entryKept_refl
    | insertEntry new => exact fun e he _ => Or.inl (List.mem_append_left _ he)
    | disable id' h =>
      -- the entry is switched off, or it is another one and stays
      intro e he _
      have hmem : e.disabled id' h ∈ (Write.apply (.disable id' h) db).registry :=
        List.mem_map_of_mem he
      unfold PublicRegistryEntry.disabled at hmem
      split_ifs at hmem
      · exact Or.inr hmem
      · exact Or.inl hmem

/-- So do the writes of a transaction, one after another. -/
theorem keyKept_replay (k : Key) (ws : List Write) (db : Tables) :
    KeyKept k db (replay (S := schema) ws db) := by
  induction ws generalizing db with
  | nil => exact keyKept_refl k db
  | cons w ws ih => exact keyKept_trans (keyKept_apply k w db) (ih (w.apply db))

/-- A write that inserts nothing. -/
def Write.inserts : Write → Bool
  | insertProof _ | insertEntry _ => true
  | bind .. | disable .. | stick _ => false

/-- A write that inserts nothing leaves all the indexes as they are: it changes no id, and enables
no entry. -/
theorem unique_apply {w : Write} (hw : w.inserts = false) (h : Unique k db) :
    Unique k (w.apply db) := by
  -- a change of rows that leaves their ids leaves the count under every id
  have hproofs : ∀ f : Materialization → Materialization,
      (∀ row, (f row).internalProofId = row.internalProofId) → ∀ m,
        (db.materialization.map f).countP (·.internalProofId == m) =
          db.materialization.countP (·.internalProofId == m) := by
    intro f hf m
    rw [List.countP_map]
    congr 1
    funext row
    simp [hf]
  cases w with
  | insertProof | insertEntry => exact absurd hw (by simp [Write.inserts])
  | bind m id =>
    cases k with
    | proof m' =>
      rw [Unique, Write.apply, hproofs _ bound_internalProofId]
      exact h
    | entry | activeHash => exact h
  | stick m =>
    cases k with
    | proof m' =>
      rw [Unique, Write.apply, hproofs _ stuck_internalProofId]
      exact h
    | entry | activeHash => exact h
  | disable id h' =>
    cases k with
    | proof => exact h
    | entry id' =>
      rw [Unique, Write.apply, List.countP_map]
      refine le_trans (le_of_eq ?_) h
      congr 1
      funext e
      simp
    | activeHash h'' =>
      rw [Unique, Write.apply, List.countP_map]
      -- disabling can only make fewer enabled entries of a hash
      refine le_trans (List.countP_mono_left fun e _ he => ?_) h
      rw [Function.comp_apply, Bool.and_eq_true, disabled_fileHash] at he
      rw [Bool.and_eq_true]
      refine ⟨he.1, ?_⟩
      have hon := he.2
      unfold PublicRegistryEntry.disabled at hon
      split_ifs at hon
      exact hon

/-- And so do many of them. -/
theorem unique_replay {ws : List Write} (hws : ∀ w ∈ ws, w.inserts = false) (h : Unique k db) :
    Unique k (replay (S := schema) ws db) := by
  induction ws generalizing db with
  | nil => exact h
  | cons w ws ih =>
    exact ih (fun w' hw' => hws w' (List.mem_cons_of_mem w hw'))
      (unique_apply (hws w List.mem_cons_self) h)

/-- One more row, where there was none like it. -/
theorem countP_concat {β : Type} {p : β → Bool} {l : List β} {x : β} (h : l.countP p ≤ 1)
    (hnew : p x = true → ∀ y ∈ l, p y = false) : (l ++ [x]).countP p ≤ 1 := by
  rw [List.countP_append]
  cases hx : p x with
  | false =>
    rw [List.countP_singleton, hx]
    simpa using h
  | true =>
    -- the new row counts, so that none of the others does
    have habsent : l.countP p = 0 := by
      rw [List.countP_eq_zero]
      intro y hy
      rw [hnew hx y hy]
      exact Bool.false_ne_true
    rw [habsent, List.countP_singleton, hx]
    simp

/-- `UPDATE … SET enabled = false` inserts nothing. -/
theorem inserts_disableEntry {waits : Key → Bool} {c : Choice} {now : Int} {a : Unit} {ks : List Key}
    {ws : List Write} (he : (Sql.disableEntry id).effect waits c now db = some (.ok (a, ks, ws))) :
    ∀ w ∈ ws, w.inserts = false := by
  intro w hw
  simp only [Sql.effect] at he
  split at he
  · split_ifs at he
    · obtain ⟨-, -, -, rfl⟩ := takes_ok.mp he
      rw [List.mem_singleton.mp hw]
      rfl
    · obtain ⟨-, -, -, rfl⟩ := takes_ok.mp he
      exact absurd hw List.not_mem_nil
  · obtain ⟨-, -, rfl⟩ := answers_ok.mp he
    exact absurd hw List.not_mem_nil

/-- Nor does the marking of the entry's proofs. -/
theorem inserts_stickProofs {waits : Key → Bool} {c : Choice} {now : Int} {a : Unit} {ks : List Key}
    {ws : List Write} (he : (Sql.stickProofs id).effect waits c now db = some (.ok (a, ks, ws))) :
    ∀ w ∈ ws, w.inserts = false := by
  intro w hw
  simp only [Sql.effect] at he
  obtain ⟨-, -, -, rfl⟩ := takes_ok.mp he
  obtain ⟨m, -, rfl⟩ := List.mem_map.mp hw
  rfl

/-- **Every statement keeps the indexes.** -/
theorem unique_effect {s : Sql} {waits : Key → Bool} {c : Choice} {now : Int} {a : s.Res}
    {ks : List Key} {ws : List Write} (he : s.effect waits c now db = some (.ok (a, ks, ws)))
    (h : ∀ k, Unique k db) (k : Key) : Unique k (replay (S := schema) ws db) := by
  cases s with
  | insertProof m fileHash =>
    rcases insertProof_ok he with ⟨-, rfl⟩ | ⟨hnone, -, rfl⟩
    · exact h k
    -- the row was absent, so its id is new
    · cases k with
      | entry id => exact h (.entry id)
      | activeHash fileHash => exact h (.activeHash fileHash)
      | proof m' =>
        refine countP_concat (h (.proof m')) fun hm row hrow => ?_
        obtain rfl := beq_iff_eq.mp hm
        exact beq_false_of_ne (proof?_none.mp (by simpa using hnone) row hrow)
  | selectActive fileHash =>
    obtain ⟨-, rfl⟩ := selectActive_ok he
    exact h k
  | selectActiveForUpdate fileHash =>
    obtain ⟨-, rfl⟩ := selectActiveForUpdate_ok he
    exact h k
  | selectCandidate fileHash =>
    obtain ⟨-, rfl⟩ := selectCandidate_ok he
    exact h k
  | insertEntry id fileHash tsaClass candidate =>
    obtain ⟨hentry, hactive, -, rfl⟩ := insertEntry_ok he
    cases k with
    | proof m => exact h (.proof m)
    | entry id' =>
      refine countP_concat (h (.entry id')) fun hid e he' => ?_
      obtain rfl := beq_iff_eq.mp hid
      exact beq_false_of_ne (entry?_none.mp hentry e he')
    | activeHash fileHash' =>
      -- no entry of the hash is enabled: otherwise the unique index refuses the insertion
      refine countP_concat (h (.activeHash fileHash')) fun hh e he' => ?_
      rw [Bool.and_eq_true, beq_iff_eq] at hh
      obtain rfl := hh.1
      by_cases heh : e.fileHash = (newEntry id fileHash tsaClass now).fileHash
      · rw [active?_none.mp hactive e he' heh, Bool.and_false]
      · rw [beq_false_of_ne heh, Bool.false_and]
  | bindProof id m =>
    refine unique_replay (fun w hw => ?_) (h k)
    rcases bindProof_ok he with ⟨-, rfl⟩ | ⟨-, rfl⟩
    · exact absurd hw List.not_mem_nil
    · rw [List.mem_singleton.mp hw]
      rfl
  | disableEntry id => exact unique_replay (inserts_disableEntry he) (h k)
  | stickProofs id => exact unique_replay (inserts_stickProofs he) (h k)

/-- The indexes of the registry, and its entries. -/
def registryConstraint : Constraint schema where
  Holds := Unique
  Rel := KeyKept
  rel_refl := keyKept_refl
  rel_trans := keyKept_trans
  holds_congr := unique_congr
  rel_congr := keyKept_congr

/-- **The indexes and the entries are a constraint of the registry**: every statement keeps them. -/
theorem unique_kept : registryConstraint.Kept fun _ => True where
  holds _ he h k := unique_effect he h k
  rel _ _ _ k := keyKept_replay k _ _
  covered he := covered_effect _ _ _ _ _ _ _ _ he
  pool h _ := absurd h (by simp)

end Keeping

/-! ## The ids of the registry -/

/-- An id of the registry is valid. -/
def Issued : Key → Tables → Prop
  | .entry id, db => ∀ e ∈ db.registry, e.publicProofId = id → validatePublicProofId id = true
  | .proof _, _ | .activeHash _, _ => True

/-- A statement inserts a valid id. -/
def Sql.Issues : Sql → Prop
  | insertEntry publicProofId _ _ _ => validatePublicProofId publicProofId = true
  | _ => True

/-- So does a call. -/
def Issues : Call schema → Prop
  | .sql s => s.Issues
  | _ => True

section Ids

variable {db db' : Tables} {k : Key}

/-- The validity of an id depends on the rows under it only. -/
theorem issued_congr (hs : k.same db db') (h : Issued k db) : Issued k db' := by
  cases k with
  | proof | activeHash => trivial
  | entry id => exact fun e he hid => h e ((mem_of_same_entry hs hid).mp he) hid

/-- The ids of a table are valid exactly if each of them is. -/
theorem forall_issued : (∀ k, Issued k db) ↔
    ∀ e ∈ db.registry, validatePublicProofId e.publicProofId = true := by
  constructor
  · exact fun h e he => h (.entry e.publicProofId) e he rfl
  · rintro h (m | id | fileHash)
    · trivial
    · rintro e he rfl
      exact h e he
    · trivial

/-- A write that inserts no entry leaves the ids of the registry. -/
theorem issued_apply {w : Write} (hw : ∀ new, w = .insertEntry new →
    validatePublicProofId new.publicProofId = true) (h : ∀ k, Issued k db) :
    ∀ k, Issued k (w.apply db) := by
  rw [forall_issued] at h ⊢
  cases w with
  | insertProof | bind | stick => exact h
  | insertEntry new =>
    intro e he
    rcases List.mem_append.mp he with he | he
    · exact h e he
    · rw [List.mem_singleton.mp he]
      exact hw new rfl
  | disable id fileHash =>
    intro e he
    obtain ⟨e', he', rfl⟩ := List.mem_map.mp he
    rw [disabled_publicProofId]
    exact h e' he'

/-- The ids stay valid where every entry that is inserted has a valid one. -/
theorem issued_replay {ws : List Write} (hws : ∀ new, .insertEntry new ∈ ws →
    validatePublicProofId new.publicProofId = true) (h : ∀ k, Issued k db) :
    ∀ k, Issued k (replay (S := schema) ws db) := by
  induction ws generalizing db with
  | nil => exact h
  | cons w ws ih =>
    refine ih (fun new hnew => hws new (List.mem_cons_of_mem w hnew)) (issued_apply ?_ h)
    rintro new rfl
    exact hws new List.mem_cons_self

/-- **What a statement inserts** is what it was given. -/
theorem entry_of_effect {s : Sql} {waits : Key → Bool} {c : Choice} {now : Int} {a : s.Res}
    {ks : List Key} {ws : List Write} (he : s.effect waits c now db = some (.ok (a, ks, ws)))
    (hs : s.Issues) (new : PublicRegistryEntry) (hnew : .insertEntry new ∈ ws) :
    validatePublicProofId new.publicProofId = true := by
  cases s with
  | insertProof m fileHash =>
    rcases insertProof_ok he with ⟨-, rfl⟩ | ⟨-, -, rfl⟩
    · exact absurd hnew List.not_mem_nil
    · exact absurd (List.mem_singleton.mp hnew) (by simp)
  | selectActive fileHash =>
    obtain ⟨-, rfl⟩ := selectActive_ok he
    exact absurd hnew List.not_mem_nil
  | selectActiveForUpdate fileHash =>
    obtain ⟨-, rfl⟩ := selectActiveForUpdate_ok he
    exact absurd hnew List.not_mem_nil
  | selectCandidate fileHash =>
    obtain ⟨-, rfl⟩ := selectCandidate_ok he
    exact absurd hnew List.not_mem_nil
  | insertEntry id fileHash tsaClass candidate =>
    obtain ⟨-, -, -, rfl⟩ := insertEntry_ok he
    rw [Write.insertEntry.inj (List.mem_singleton.mp hnew)]
    exact hs
  | bindProof id m =>
    rcases bindProof_ok he with ⟨-, rfl⟩ | ⟨-, rfl⟩
    · exact absurd hnew List.not_mem_nil
    · exact absurd (List.mem_singleton.mp hnew) (by simp)
  | disableEntry id => exact absurd (inserts_disableEntry he _ hnew) (by simp [Write.inserts])
  | stickProofs id => exact absurd (inserts_stickProofs he _ hnew) (by simp [Write.inserts])

/-- The ids of the registry, under the statements that insert valid ones. -/
def issuedConstraint : Constraint schema where
  Holds := Issued
  Rel _ _ _ := True
  rel_refl _ _ := trivial
  rel_trans _ _ := trivial
  holds_congr := issued_congr
  rel_congr _ _ _ := trivial

/-- **The validity of the ids is a constraint too**, of the statements that insert valid ones. -/
theorem issued_kept : issuedConstraint.Kept Sql.Issues where
  holds hs he h := issued_replay (entry_of_effect he hs) h
  rel _ _ _ _ := trivial
  covered he := covered_effect _ _ _ _ _ _ _ _ he
  pool h _ := absurd h (by simp)

end Ids

section Programs

/-- A query issues what its statement issues. -/
theorem only_query {s : Sql} (hs : s.Issues) : (query s).run.Only Issues := only_sql hs

/-- The id that is inserted is the one that was generated. -/
theorem only_publishCandidate {fileHash tsaClass : String} {candidate : Uuid} :
    (publishCandidate fileHash tsaClass candidate).run.Only Issues := by
  unfold publishCandidate
  refine only_seq (only_ask trivial) fun bytes => ?_
  refine only_seq (only_lift (only_call (validatePublicProofId_generate bytes))) fun r => ?_
  -- a unique violation is `Ok`, and whatever follows inserts no entry
  cases r with
  | ok _ => exact only_query trivial
  | error err =>
    by_cases hu : isUniqueViolation err = true
    · simp only [if_pos hu]
      exact trivial
    · simp only [if_neg hu]
      exact trivial

/-- `sync_canonical_public_proof_in_tx` inserts an entry for its candidate, or none. -/
theorem only_sync {fileHash tsaClass : String} :
    (syncCanonicalPublicProofInTx fileHash tsaClass).run.Only Issues := by
  unfold syncCanonicalPublicProofInTx
  refine only_seq (only_query trivial) fun active => ?_
  split_ifs
  · exact trivial
  · refine only_seq (only_query trivial) fun candidate => ?_
    cases candidate with
    | none => exact trivial
    | some candidate => exact only_publishCandidate

/-- A transaction issues what its body issues. -/
theorem only_transaction {body : Publish Unit} (h : body.run.Only Issues) :
    (do beginTx .database; committed body : Publish Unit).run.Only Issues := by
  refine only_seq (only_attempt (only_call trivial)) fun _ => ?_
  exact only_seq (only_orRollback h trivial) fun _ => only_attempt (only_call trivial)

/-- **A request inserts generated ids only.** -/
theorem only_run (request : Request) : request.run.run.Only Issues := by
  -- all three requests are one transaction; only a synchronisation publishes
  cases request with
  | onProofAnchored proofId fileHash tsaClass =>
    exact only_transaction (only_seq (only_query trivial) fun _ => only_sync)
  | syncCanonicalPublicProof fileHash tsaClass => exact only_transaction only_sync
  | disableCanonicalPublicProof fileHash =>
    refine only_transaction (only_seq (only_query trivial) fun active => ?_)
    cases active with
    | none => exact trivial
    | some publicProofId => exact only_seq (only_query trivial) fun _ => only_query trivial

end Programs

/-! ## Runs -/

section Runs

variable {requests : Nat → Request} {db₀ : Tables} {y z : RegistryConfig}

/-- **What holds of the registry at two moments of any run.** -/
theorem reach_public (h : ∀ k, Unique k db₀)
    (hy : Reach (system schema) (fun _ _ _ => True) (start requests db₀) y)
    (hz : Reach (system schema) (fun _ _ _ => True) y z) :
    (∀ k, Unique k y.shared.db) ∧ (∀ k, Unique k z.shared.db) ∧
      ∀ id, EntryKept id y.shared.db z.shared.db := by
  obtain ⟨hunique, hunique', hkept⟩ := reach_constraint (R := registryConstraint) unique_kept
    (fun _ _ _ _ => trivial) h hy hz
  exact ⟨hunique, hunique', fun id => hkept (.entry id)⟩

/-- **The ids of every state are valid**, where those of the start are. -/
theorem reach_issued (h : ∀ e ∈ db₀.registry, validatePublicProofId e.publicProofId = true)
    (hy : Reach (system schema) (fun _ _ _ => True) (start requests db₀) y) :
    ∀ e ∈ y.shared.db.registry, validatePublicProofId e.publicProofId = true := by
  have hissued := reach_of_only (fun p => only_run (requests p)) hy
  have hsql : ∀ (p : Nat) (s : Sql) (g : Shared schema), (True ∧ Issues (.sql s)) → s.Issues :=
    fun _ _ _ hs => hs.2
  obtain ⟨hids, -, -⟩ := reach_constraint (R := issuedConstraint) issued_kept hsql (forall_issued.mpr h)
    hissued .refl
  exact forall_issued.mp hids

theorem unique_empty (k : Key) : Unique k .empty := by
  cases k with
  | proof | entry | activeHash => exact Nat.zero_le 1

end Runs

end EvidentLedger.Registry
