import EvidentLedger.Registry.PublicProof
import Mathlib.Data.List.Nodup

/-!
# Commits of the registry

What a request leaves in the tables of the registry when it commits, and what stays true of the tables
from one commit to the next.

* `RegistryOk`: ids are unique, no hash has two enabled entries, a bound proof has an entry of its own
  hash, a sticky proof is bound, and a proof bound to a disabled entry is sticky.
* `Later`: entries stay and are never enabled again, rows stay bound and sticky, and nothing is bound to
  an entry that was there before.
* `Commits`: a row, with or without an entry that is published for a candidate, or an entry that is
  disabled with all proofs bound to it.
* **`ok_commits`**, **`later_commits`**: the tables stay well formed, and keep what they had.
-/

namespace EvidentLedger.Registry

open Lib.Transaction

/-! ## Tables -/

/-- What holds of the committed tables. -/
structure RegistryOk (db : Tables) : Prop where
  ids : (db.registry.map (·.publicProofId)).Nodup
  proofs : (db.materialization.map (·.internalProofId)).Nodup
  -- the partial unique index on `file_hash WHERE enabled`
  active : ∀ e ∈ db.registry, ∀ e' ∈ db.registry, e.enabled = true → e'.enabled = true →
    e.fileHash = e'.fileHash → e = e'
  bound : ∀ row ∈ db.materialization, ∀ id, row.publicProofId = some id →
    ∃ e ∈ db.registry, e.publicProofId = id ∧ e.fileHash = row.fileHash
  sticky : ∀ row ∈ db.materialization, row.stickyDisabled = true → row.publicProofId ≠ none
  -- a disabling marks all the proofs of its entry in its own transaction
  disabled : ∀ row ∈ db.materialization, ∀ e ∈ db.registry,
    row.publicProofId = some e.publicProofId → e.enabled = false → row.stickyDisabled = true

/-- What a later moment keeps of an earlier one. -/
structure Later (db db' : Tables) : Prop where
  entry : ∀ e ∈ db.registry, ∃ e' ∈ db'.registry, e' = e ∨ e' = { e with enabled := false }
  proof : ∀ row ∈ db.materialization, ∃ row' ∈ db'.materialization,
    row'.internalProofId = row.internalProofId ∧ row'.fileHash = row.fileHash ∧
      (row.stickyDisabled = true → row'.stickyDisabled = true) ∧
        ∀ id, row.publicProofId = some id → row'.publicProofId = some id
  binding : ∀ row' ∈ db'.materialization, ∀ e ∈ db.registry,
    row'.publicProofId = some e.publicProofId → ∃ row ∈ db.materialization,
      row.internalProofId = row'.internalProofId ∧ row.publicProofId = some e.publicProofId

/-- The tables at the first start are well formed. -/
theorem registryOk_empty : RegistryOk .empty where
  ids := List.nodup_nil
  proofs := List.nodup_nil
  active := by simp [Tables.empty]
  bound := by simp [Tables.empty]
  sticky := by simp [Tables.empty]
  disabled := by simp [Tables.empty]

section Relations

variable {db db' db'' : Tables} {e e' : PublicRegistryEntry} {row row' : Materialization}

/-- A moment is later than itself. -/
theorem Later.refl (db : Tables) : Later db db where
  entry e he := ⟨e, he, Or.inl rfl⟩
  proof row hrow := ⟨row, hrow, rfl, rfl, fun h => h, fun _ h => h⟩
  binding row hrow _ _ hid := ⟨row, hrow, rfl, hid⟩

/-- Later moments compose. An entry that has changed on the way keeps its id, so a row that is bound
to it at the end was bound to it before. -/
theorem Later.trans (h : Later db db') (h' : Later db' db'') : Later db db'' where
  entry e he := by
    obtain ⟨e₁, he₁, hsame⟩ := h.entry e he
    obtain ⟨e₂, he₂, hsame'⟩ := h'.entry e₁ he₁
    refine ⟨e₂, he₂, ?_⟩
    rcases hsame with rfl | rfl
    · exact hsame'
    · exact Or.inr (hsame'.elim id id)
  proof row hrow := by
    obtain ⟨row₁, hrow₁, hm, hh, hs, hb⟩ := h.proof row hrow
    obtain ⟨row₂, hrow₂, hm', hh', hs', hb'⟩ := h'.proof row₁ hrow₁
    exact ⟨row₂, hrow₂, hm'.trans hm, hh'.trans hh, fun h => hs' (hs h),
      fun id h => hb' id (hb id h)⟩
  binding row hrow e he hid := by
    obtain ⟨e₁, he₁, hsame⟩ := h.entry e he
    -- the entry may have been disabled in between: its id is still the same
    have hid₁ : e₁.publicProofId = e.publicProofId := by rcases hsame with rfl | rfl <;> rfl
    obtain ⟨row₁, hrow₁, hm, hb⟩ := h'.binding row hrow e₁ he₁ (hid₁ ▸ hid)
    obtain ⟨row₀, hrow₀, hm', hb'⟩ := h.binding row₁ hrow₁ e he (hid₁ ▸ hb)
    exact ⟨row₀, hrow₀, hm'.trans hm, hb'⟩

/-- A row or an entry is found by its id. -/
theorem RegistryOk.proof? (h : RegistryOk db) (hrow : row ∈ db.materialization) :
    db.proof? row.internalProofId = some row := by
  cases hfind : db.proof? row.internalProofId with
  | none => exact absurd (List.find?_eq_none.mp hfind row hrow) (by simp)
  | some row' =>
    have hid : row'.internalProofId = row.internalProofId := by simpa using List.find?_some hfind
    rw [List.inj_on_of_nodup_map h.proofs (List.mem_of_find?_eq_some hfind) hrow hid]

/-- A row that is found by its id is one of the table, with that id. -/
theorem mem_of_proof? {m : Uuid} (h : db.proof? m = some row) :
    row ∈ db.materialization ∧ row.internalProofId = m :=
  ⟨List.mem_of_find?_eq_some h, by simpa using List.find?_some h⟩

/-- An entry that is found by its id is one of the registry, with that id. -/
theorem mem_of_entry? {id : String} (h : db.entry? id = some e) :
    e ∈ db.registry ∧ e.publicProofId = id :=
  ⟨List.mem_of_find?_eq_some h, by simpa using List.find?_some h⟩

/-- The active entry of a hash is an enabled one, of that hash. -/
theorem mem_of_active? {fileHash : String} (h : db.active? fileHash = some e) :
    e ∈ db.registry ∧ e.fileHash = fileHash ∧ e.enabled = true := by
  have hfound := List.find?_some h
  rw [Bool.and_eq_true, beq_iff_eq] at hfound
  exact ⟨List.mem_of_find?_eq_some h, hfound⟩

theorem proof?_none {m : Uuid} : db.proof? m = none ↔ ∀ row ∈ db.materialization,
    row.internalProofId ≠ m := by
  simp [Tables.proof?, List.find?_eq_none]

theorem entry?_none {id : String} : db.entry? id = none ↔ ∀ e ∈ db.registry,
    e.publicProofId ≠ id := by
  simp [Tables.entry?, List.find?_eq_none]

theorem active?_none {fileHash : String} : db.active? fileHash = none ↔ ∀ e ∈ db.registry,
    e.fileHash = fileHash → e.enabled = false := by
  simp [Tables.active?, List.find?_eq_none]

end Relations

/-! ## Commits -/

/-- The row that a request inserts. -/
structure Opened (new : Option Materialization) (db : Tables) : Prop where
  absent : Absent new db
  unbound : ∀ row ∈ new, row.publicProofId = none
  unsticky : ∀ row ∈ new, row.stickyDisabled = false

/-- The candidate is the new row, or one that is neither bound nor sticky. -/
def Pending (new : Option Materialization) (m : Uuid) (fileHash : String) (db : Tables) : Prop :=
  (∃ row ∈ new, row.internalProofId = m ∧ row.fileHash = fileHash) ∨
    ∃ row ∈ db.materialization, row.internalProofId = m ∧ row.fileHash = fileHash ∧
      row.publicProofId = none ∧ row.stickyDisabled = false

/-- The entry that a request inserts for a candidate. -/
structure Publishes (new : Option Materialization) (e : PublicRegistryEntry) (m : Uuid)
    (db : Tables) : Prop where
  opened : Opened new db
  fresh : db.entry? e.publicProofId = none
  vacant : db.active? e.fileHash = none
  enabled : e.enabled = true
  pending : Pending new m e.fileHash db

/-- The entry that a request disables, if it is enabled, and the proofs bound to it. -/
structure Disables (id : String) (disabling : List Write) (rows : List Uuid) (db : Tables) :
    Prop where
  entry : ∃ e ∈ db.registry, e.publicProofId = id ∧
    (disabling = [] ∨ disabling = [.disable id e.fileHash])
  rows : ∀ m, m ∈ rows ↔ ∃ row ∈ db.materialization, row.internalProofId = m ∧
    row.publicProofId = some id

/-- The writes of a request that commits. -/
inductive Commits (db : Tables) : List Write → Prop
  | recorded {new} (h : Opened new db) : Commits db (inserts new)
  | published {new e m} (h : Publishes new e m db) :
    Commits db (inserts new ++ [.insertEntry e, .bind m e.publicProofId])
  | disabled {id disabling rows} (h : Disables id disabling rows db) :
    Commits db (disabling ++ rows.map .stick)

section Steps

variable {db : Tables} {new : Option Materialization} {e : PublicRegistryEntry} {m : Uuid}
  {id : String} {disabling : List Write} {rows : List Uuid} {log : List Write}

/-! ### A new row -/

/-- The new row stands behind those that were there. -/
theorem replay_inserts (new : Option Materialization) (db : Tables) :
    replay (S := schema) (inserts new) db =
      ⟨db.registry, db.materialization ++ new.toList⟩ := by
  cases new with
  | none => simp [inserts, replay]
  | some row => rfl

/-- **A new row** keeps the tables well formed: its id is new, and nothing is bound to it. -/
theorem ok_inserts (hi : RegistryOk db) (h : Opened new db) :
    RegistryOk (replay (S := schema) (inserts new) db) := by
  rw [replay_inserts]
  cases new with
  | none => simpa using hi
  | some row =>
    have habsent := proof?_none.mp h.absent
    have hunbound := h.unbound row rfl
    have hunsticky := h.unsticky row rfl
    constructor
    · exact hi.ids
    · change ((db.materialization ++ [row]).map (·.internalProofId)).Nodup
      rw [List.map_append, List.nodup_append]
      refine ⟨hi.proofs, by simp, ?_⟩
      -- the id is that of no row, by `absent`
      rintro _ ha _ hb rfl
      obtain ⟨row', hrow', heq⟩ := List.mem_map.mp ha
      obtain rfl := List.mem_singleton.mp hb
      exact habsent row' hrow' heq
    · exact hi.active
    · intro row' hrow' id hid
      rcases List.mem_append.mp hrow' with hrow' | hrow'
      · exact hi.bound row' hrow' id hid
      · obtain rfl := List.mem_singleton.mp hrow'
        exact absurd (hunbound.symm.trans hid) (by simp)
    · intro row' hrow' hs
      rcases List.mem_append.mp hrow' with hrow' | hrow'
      · exact hi.sticky row' hrow' hs
      · obtain rfl := List.mem_singleton.mp hrow'
        exact absurd (hunsticky.symm.trans hs) (by simp)
    · intro row' hrow' e he hid hs
      rcases List.mem_append.mp hrow' with hrow' | hrow'
      · exact hi.disabled row' hrow' e he hid hs
      · obtain rfl := List.mem_singleton.mp hrow'
        exact absurd (hunbound.symm.trans hid) (by simp)

/-- **A new row** changes none that was there. -/
theorem later_inserts (h : Opened new db) : Later db (replay (S := schema) (inserts new) db) := by
  rw [replay_inserts]
  refine ⟨fun e he => ⟨e, he, Or.inl rfl⟩,
    fun row hrow => ⟨row, List.mem_append_left _ hrow, rfl, rfl,
    fun h => h, fun _ h => h⟩, fun row hrow e _ hid => ?_⟩
  rcases List.mem_append.mp hrow with hrow | hrow
  · exact ⟨row, hrow, rfl, hid⟩
  · rw [h.unbound row (by simpa using hrow)] at hid
    exact absurd hid (by simp)

/-! ### A new entry -/

/-- The candidate is bound to the entry. -/
def published (e : PublicRegistryEntry) (m : Uuid) (db : Tables) : Tables :=
  ⟨db.registry ++ [e], db.materialization.map (·.bound m e.publicProofId)⟩

/-- A publication is a new entry on top of the new row, if there is one. -/
theorem replay_published (new : Option Materialization) (e : PublicRegistryEntry) (m : Uuid)
    (db : Tables) :
    replay (S := schema) (inserts new ++ [.insertEntry e, .bind m e.publicProofId]) db =
      published e m (replay (S := schema) (inserts new) db) :=
  replay_append _ _ _

/-- The candidate's row, once there is one. -/
theorem Publishes.candidate (hi : RegistryOk db) (h : Publishes new e m db) :
    ∀ row ∈ (replay (S := schema) (inserts new) db).materialization, row.internalProofId = m →
      row.fileHash = e.fileHash ∧ row.publicProofId = none ∧ row.stickyDisabled = false := by
  have hproofs := (ok_inserts hi h.opened).proofs
  intro row hrow hm
  rcases h.pending with ⟨row', hnew, hm', hh⟩ | ⟨row', hrow', hm', hh, hb, hs⟩
  · have hmem : row' ∈ (replay (S := schema) (inserts new) db).materialization := by
      rw [replay_inserts]
      exact List.mem_append_right _ (by simpa using hnew)
    obtain rfl := List.inj_on_of_nodup_map hproofs hrow hmem (hm.trans hm'.symm)
    exact ⟨hh, h.opened.unbound row hnew, h.opened.unsticky row hnew⟩
  · have hmem : row' ∈ (replay (S := schema) (inserts new) db).materialization := by
      rw [replay_inserts]
      exact List.mem_append_left _ hrow'
    obtain rfl := List.inj_on_of_nodup_map hproofs hrow hmem (hm.trans hm'.symm)
    exact ⟨hh, hb, hs⟩

/-- **A new entry** keeps the tables well formed: its id and its hash are free, and the candidate is
neither bound nor sticky. -/
theorem ok_published (hi : RegistryOk db) (hfresh : db.entry? e.publicProofId = none)
    (hvacant : db.active? e.fileHash = none) (henabled : e.enabled = true)
    (hcandidate : ∀ row ∈ db.materialization, row.internalProofId = m →
      row.fileHash = e.fileHash ∧ row.publicProofId = none ∧ row.stickyDisabled = false) :
    RegistryOk (published e m db) := by
  have hids := entry?_none.mp hfresh
  have hhashes := active?_none.mp hvacant
  constructor
  · change ((db.registry ++ [e]).map (·.publicProofId)).Nodup
    rw [List.map_append, List.nodup_append]
    refine ⟨hi.ids, by simp, ?_⟩
    rintro _ ha _ hb rfl
    obtain ⟨e', he', heq⟩ := List.mem_map.mp ha
    obtain rfl := List.mem_singleton.mp hb
    exact hids e' he' heq
  · change ((db.materialization.map (·.bound m e.publicProofId)).map (·.internalProofId)).Nodup
    rw [List.map_map]
    have hsame : Materialization.internalProofId ∘ Materialization.bound m e.publicProofId =
        Materialization.internalProofId := by
      funext row
      simp
    rw [hsame]
    exact hi.proofs
  · intro e₁ he₁ e₂ he₂ hon₁ hon₂ hh
    -- two enabled entries of one hash: both old, or the new one beside an old one, which `vacant`
    -- excludes
    rcases List.mem_append.mp he₁ with h₁ | h₁ <;>
      rcases List.mem_append.mp he₂ with h₂ | h₂
    · exact hi.active e₁ h₁ e₂ h₂ hon₁ hon₂ hh
    · obtain rfl := List.mem_singleton.mp h₂
      exact absurd ((hhashes e₁ h₁ hh).symm.trans hon₁) (by simp)
    · obtain rfl := List.mem_singleton.mp h₁
      exact absurd ((hhashes e₂ h₂ hh.symm).symm.trans hon₂) (by simp)
    · rw [List.mem_singleton.mp h₁, List.mem_singleton.mp h₂]
  · intro row' hrow' id hid
    obtain ⟨row, hrow, rfl⟩ := List.mem_map.mp hrow'
    by_cases hm : row.internalProofId = m
    -- the candidate: it is bound to the new entry, of its own hash
    · rw [bound_self hm] at hid
      exact ⟨e, List.mem_append_right _ (by simp), Option.some.inj hid, by
        rw [bound_fileHash, (hcandidate row hrow hm).1]⟩
    · rw [bound_of_ne hm] at hid ⊢
      obtain ⟨e', he', hid', hh⟩ := hi.bound row hrow id hid
      exact ⟨e', List.mem_append_left _ he', hid', hh⟩
  · intro row' hrow' hs
    obtain ⟨row, hrow, rfl⟩ := List.mem_map.mp hrow'
    by_cases hm : row.internalProofId = m
    · rw [bound_self hm]
      simp
    · rw [bound_of_ne hm] at hs ⊢
      exact hi.sticky row hrow hs
  · intro row' hrow' e' he' hid hoff
    obtain ⟨row, hrow, rfl⟩ := List.mem_map.mp hrow'
    rcases List.mem_append.mp he' with he' | he'
    · by_cases hm : row.internalProofId = m
      · rw [bound_self hm] at hid
        exact absurd (Option.some.inj hid).symm (hids e' he')
      · rw [bound_of_ne hm] at hid ⊢
        exact hi.disabled row hrow e' he' hid hoff
    · obtain rfl := List.mem_singleton.mp he'
      exact absurd (hoff.symm.trans henabled) (by simp)

/-- **A new entry** binds one row, which was not bound, to an id that nothing was bound to. -/
theorem later_published (hfresh : db.entry? e.publicProofId = none)
    (hcandidate : ∀ row ∈ db.materialization, row.internalProofId = m →
      row.fileHash = e.fileHash ∧ row.publicProofId = none ∧ row.stickyDisabled = false) :
    Later db (published e m db) := by
  refine ⟨fun e' he' => ⟨e', List.mem_append_left _ he', Or.inl rfl⟩, fun row hrow =>
    ⟨row.bound m e.publicProofId, List.mem_map_of_mem hrow, by simp, by simp, by simp,
      fun id hid => ?_⟩,
    fun row' hrow' e' he' hid => ?_⟩
  · by_cases hm : row.internalProofId = m
    -- the candidate had no binding that it could lose
    · exact absurd ((hcandidate row hrow hm).2.1.symm.trans hid) (by simp)
    · rwa [bound_of_ne hm]
  · obtain ⟨row, hrow, rfl⟩ := List.mem_map.mp hrow'
    by_cases hm : row.internalProofId = m
    · rw [bound_self hm] at hid
      exact absurd (Option.some.inj hid).symm (entry?_none.mp hfresh e' he')
    · rw [bound_of_ne hm] at hid
      exact ⟨row, hrow, by simp, hid⟩

/-! ### A disabled entry -/

/-- The rows of the list become sticky, one after another, and the others stay as they are. -/
theorem replay_stick (rows : List Uuid) (db : Tables) :
    replay (S := schema) (rows.map .stick) db = ⟨db.registry, db.materialization.map fun row =>
      if row.internalProofId ∈ rows then { row with stickyDisabled := true } else row⟩ := by
  induction rows generalizing db with
  | nil => simp [replay]
  | cons m rows ih =>
    have hcons : replay (S := schema) ((m :: rows).map .stick) db =
        replay (S := schema) (rows.map .stick) ((Write.stick m).apply db) := rfl
    rw [hcons, ih]
    simp only [Write.apply, List.map_map, Tables.mk.injEq, true_and]
    refine List.map_congr_left fun row _ => ?_
    -- the head of the list marks its row, and the tail what it marks besides
    by_cases hm : row.internalProofId = m
    · simp [Materialization.stuck, hm]
    · simp [Materialization.stuck, hm]

/-- A disabling switches an entry off or leaves it alone. -/
theorem disabled_or (id h : String) (e : PublicRegistryEntry) :
    e.disabled id h = e ∨ e.disabled id h = { e with enabled := false } := by
  unfold PublicRegistryEntry.disabled
  split_ifs
  · exact Or.inr rfl
  · exact Or.inl rfl

/-- **What a disabling leaves of the entries.** -/
theorem registry_disabling (h : Disables id disabling rows db) :
    ∃ f : PublicRegistryEntry → PublicRegistryEntry,
      (replay (S := schema) disabling db).registry = db.registry.map f ∧
      (replay (S := schema) disabling db).materialization = db.materialization ∧
      ∀ e, (f e = e ∨ f e = { e with enabled := false }) ∧
        (e.enabled = true → (f e).enabled = false → e.publicProofId = id) := by
  -- the entry was disabled before, and only the rows are marked, or it is disabled now
  obtain ⟨e, -, -, rfl | rfl⟩ := h.entry
  · exact ⟨fun e => e, by simp [replay], rfl, fun e => ⟨Or.inl rfl, fun hon hoff =>
      absurd (hon.symm.trans hoff) (by simp)⟩⟩
  · refine ⟨.disabled id e.fileHash, rfl, rfl,
      fun e' => ⟨disabled_or _ _ _, fun hon hoff => ?_⟩⟩
    by_contra hne
    rw [disabled_of_id_ne hne] at hoff
    exact absurd (hon.symm.trans hoff) (by simp)

/-- **A disabling** moves no binding, and takes no stickiness back. -/
theorem later_disabled (h : Disables id disabling rows db) :
    Later db (replay (S := schema) (disabling ++ rows.map .stick) db) := by
  obtain ⟨f, hreg, hmat, hf⟩ := registry_disabling h
  rw [replay_append, replay_stick, hreg, hmat]
  refine ⟨fun e he => ⟨f e, List.mem_map_of_mem he, (hf e).1⟩, fun row hrow =>
    ⟨_, List.mem_map_of_mem hrow, ?_⟩, fun row' hrow' e he hid => ?_⟩
  · by_cases hm : row.internalProofId ∈ rows
    · simp [hm]
    · simp [hm]
  · obtain ⟨row, hrow, rfl⟩ := List.mem_map.mp hrow'
    refine ⟨row, hrow, ?_⟩
    by_cases hm : row.internalProofId ∈ rows
    · simpa [hm] using hid
    · simpa [hm] using hid

/-- **A disabling** keeps the tables well formed: every row bound to the entry is marked sticky. -/
theorem ok_disabled (hi : RegistryOk db) (h : Disables id disabling rows db) :
    RegistryOk (replay (S := schema) (disabling ++ rows.map .stick) db) := by
  obtain ⟨f, hreg, hmat, hf⟩ := registry_disabling h
  have hid : ∀ e, (f e).publicProofId = e.publicProofId := fun e => by
    rcases (hf e).1 with he | he <;> rw [he]
  have hhash : ∀ e, (f e).fileHash = e.fileHash := fun e => by
    rcases (hf e).1 with he | he <;> rw [he]
  -- an entry that is enabled after the disabling is one that it left alone
  have hon : ∀ e, (f e).enabled = true → f e = e := fun e hon => by
    rcases (hf e).1 with he | he
    · exact he
    · rw [he] at hon
      exact absurd hon (by simp)
  rw [replay_append, replay_stick, hreg, hmat]
  constructor
  · change ((db.registry.map f).map (·.publicProofId)).Nodup
    rw [List.map_map]
    have hsame : PublicRegistryEntry.publicProofId ∘ f = PublicRegistryEntry.publicProofId := by
      funext e
      exact hid e
    rw [hsame]
    exact hi.ids
  · change ((db.materialization.map _).map Materialization.internalProofId).Nodup
    rw [List.map_map]
    have hsame : (Materialization.internalProofId ∘ fun row : Materialization =>
        if row.internalProofId ∈ rows then { row with stickyDisabled := true } else row) =
          Materialization.internalProofId := by
      funext row
      simp only [Function.comp_apply]
      split_ifs <;> rfl
    rw [hsame]
    exact hi.proofs
  · intro e₁ he₁ e₂ he₂ hon₁ hon₂ hh
    obtain ⟨e₁, h₁, rfl⟩ := List.mem_map.mp he₁
    obtain ⟨e₂, h₂, rfl⟩ := List.mem_map.mp he₂
    have hsame₁ := hon e₁ hon₁
    have hsame₂ := hon e₂ hon₂
    rw [hsame₁] at hon₁ hh ⊢
    rw [hsame₂] at hon₂ hh ⊢
    exact hi.active e₁ h₁ e₂ h₂ hon₁ hon₂ hh
  · intro row' hrow' id' hbound
    obtain ⟨row, hrow, rfl⟩ := List.mem_map.mp hrow'
    have hold : row.publicProofId = some id' := by
      by_cases hm : row.internalProofId ∈ rows
      · simpa [hm] using hbound
      · simpa [hm] using hbound
    obtain ⟨e, he, hid', hh⟩ := hi.bound row hrow id' hold
    refine ⟨f e, List.mem_map_of_mem he, (hid e).trans hid', (hhash e).trans ?_⟩
    by_cases hm : row.internalProofId ∈ rows
    · simpa [hm] using hh
    · simpa [hm] using hh
  · intro row' hrow' hs
    obtain ⟨row, hrow, rfl⟩ := List.mem_map.mp hrow'
    by_cases hm : row.internalProofId ∈ rows
    -- a row that is marked is bound to the entry
    · obtain ⟨row₁, hrow₁, hm₁, hb₁⟩ := (h.rows _).mp hm
      obtain rfl := List.inj_on_of_nodup_map hi.proofs hrow₁ hrow hm₁
      simp [hm, hb₁]
    · simp only [hm, if_false] at hs ⊢
      exact hi.sticky row hrow hs
  · intro row' hrow' e' he' hbound hoff
    obtain ⟨row, hrow, rfl⟩ := List.mem_map.mp hrow'
    obtain ⟨e, he, rfl⟩ := List.mem_map.mp he'
    by_cases hm : row.internalProofId ∈ rows
    · simp [hm]
    · simp only [hm, if_false] at hbound ⊢
      rw [hid e] at hbound
      by_cases hon : e.enabled = true
      -- switched off just now, so it is the entry of this request, and its rows are all marked
      · rw [(hf e).2 hon hoff] at hbound
        exact absurd ((h.rows _).mpr ⟨row, hrow, rfl, hbound⟩) hm
      · exact hi.disabled row hrow e he hbound (by simpa using hon)

/-! ### Every commit -/

/-- **The tables stay well formed**, whatever a request commits. -/
theorem ok_commits (hi : RegistryOk db) (h : Commits db log) :
    RegistryOk (replay (S := schema) log db) := by
  cases h with
  | recorded h => exact ok_inserts hi h
  | @published new e m h =>
    rw [replay_published]
    refine ok_published (ok_inserts hi h.opened) ?_ ?_ h.enabled (h.candidate hi)
    · rw [replay_inserts]
      exact h.fresh
    · rw [replay_inserts]
      exact h.vacant
  | disabled h => exact ok_disabled hi h

/-- **The tables keep what they had**, whatever a request commits. -/
theorem later_commits (hi : RegistryOk db) (h : Commits db log) :
    Later db (replay (S := schema) log db) := by
  cases h with
  | recorded h => exact later_inserts h
  | @published new e m h =>
    rw [replay_published]
    -- first the row, then the entry that it is bound to
    refine (later_inserts h.opened).trans (later_published ?_ (h.candidate hi))
    rw [replay_inserts]
    exact h.fresh
  | disabled h => exact later_disabled h

end Steps

end EvidentLedger.Registry
