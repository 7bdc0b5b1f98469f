import EvidentLedger.Registry.Commit

/-!
# Canonical public proofs are immutable

What holds of the committed tables of the registry in any order of the statements of any number of
requests.

* A synchronisation selects a candidate and inserts afterwards. In between the candidate may have been
  published and disabled by others; `Fit` says that an insert that is accepted finds it not sticky.
* `Lasts` are the facts that the others leave while some locks are held. `lasts_publishes`: from a fit
  insert on, the candidate stays unbound until the commit, because whoever binds it needs the lock of
  its hash.

## Results

* `serves_fit`: what a request of a fit run commits is one of the commits of `Commits`.
* **`canonical_immutable`**: in every run whose registry inserts are `Fit`, at most one entry of a hash
  is enabled, the ids and bindings of enabled entries stay, disabled entries stay disabled, and a proof
  is not bound again.
* `rebound`: a proof that is published and disabled while a synchronisation is about to publish it. It
  is bound again.
-/

namespace EvidentLedger.Registry

open Lib.Interleave Lib.Transaction

/-! ## Facts that last -/

/-- The tables are what the commits have left. -/
abbrev Registered : Tables → History schema → Prop :=
  Logged (S := schema) (fun h _ log => Commits (tablesAfter (S := schema) .empty h) log) .empty

/-- What the others leave alone while these locks are held. -/
def Lasts (ks : List Key) (F : Tables → Prop) : Prop :=
  ∀ db db', RegistryOk db → RegistryOk db' → Later db db' → (∀ k ∈ ks, k.same db db') →
    F db → F db'

section Facts

variable {db db' : Tables} {h : History schema} {ks : List Key} {F G : Tables → Prop} {p : Nat}
  {new : Option Materialization} {e : PublicRegistryEntry} {m : Uuid} {id fileHash : String}
  {disabling : List Write} {rows : List Uuid}

/-- The committed tables are well formed. -/
theorem registryOk_of_registered (hr : Registered db h) : RegistryOk db := by
  rw [hr.replayed]
  refine hr.induction (motive := fun h => RegistryOk (tablesAfter (S := schema) .empty h))
    registryOk_empty fun h' q log _ hc hi => ?_
  rw [tablesAfter_concat]
  exact ok_commits hi hc

/-- A fact that lasts holds while others commit. -/
theorem steady_guarded_lasts (hF : Lasts ks F) :
    Steady Registered p (Guarded (S := schema) p ks F) :=
  steady_guarded (S := schema) Later RegistryOk Later.refl (fun hab hbc => Later.trans hab hbc)
    (fun _ _ _ hr hc => later_commits (registryOk_of_registered hr) hc)
    (fun _ _ => registryOk_of_registered) hF

/-- What is not about the tables lasts. -/
theorem lasts_const {A : Prop} : Lasts ks fun _ => A := fun _ _ _ _ _ _ h => h

/-- Two facts last together. -/
theorem Lasts.and (hF : Lasts ks F) (hG : Lasts ks G) : Lasts ks fun db => F db ∧ G db :=
  fun db db' hi hi' hl hs h => ⟨hF db db' hi hi' hl hs h.1, hG db db' hi hi' hl hs h.2⟩

/-- The candidate that was selected. -/
def Selected (new : Option Materialization) (m : Uuid) (fileHash : String) (db : Tables) : Prop :=
  (∃ row ∈ new, row.internalProofId = m ∧ row.fileHash = fileHash) ∨
    ∃ row ∈ db.materialization, row.internalProofId = m ∧ row.fileHash = fileHash

/-- The row of the request is new as long as its key is held. -/
theorem lasts_opened (hk : rowKeys new ⊆ ks) : Lasts ks (Opened new) :=
  fun db db' _ _ _ hs h => ⟨framed_absent new db db' (fun k hm => hs k (hk hm)) h.absent, h.unbound,
    h.unsticky⟩

/-- A candidate keeps its row and its hash; its flags are another matter. -/
theorem lasts_selected : Lasts ks (Selected new m fileHash) := by
  rintro db db' - - hl - (h | ⟨row, hrow, hm, hh⟩)
  · exact Or.inl h
  · obtain ⟨row', hrow', hm', hh', -⟩ := hl.proof row hrow
    exact Or.inr ⟨row', hrow', hm'.trans hm, hh'.trans hh⟩

/-- **An unbound proof stays unbound** under the lock of its hash. -/
theorem unbound_lasts {row row' : Materialization} (hi' : RegistryOk db') (hl : Later db db')
    (hs : Key.same (.activeHash row.fileHash) db db') (hi : RegistryOk db)
    (hrow : row ∈ db.materialization) (hrow' : row' ∈ db'.materialization)
    (hm : row'.internalProofId = row.internalProofId) (hh : row'.fileHash = row.fileHash)
    (hb : row.publicProofId = none) : row'.publicProofId = none ∧ row'.stickyDisabled = false := by
  have hunbound : row'.publicProofId = none := by
    cases hid : row'.publicProofId with
    | none => rfl
    | some id =>
      -- its entry has the hash, so it was there before
      obtain ⟨e, he, rfl, heh⟩ := hi'.bound row' hrow' id hid
      have hsame : db'.registry.filter (·.fileHash == row.fileHash) =
          db.registry.filter (·.fileHash == row.fileHash) := hs
      have hold : e ∈ db.registry := by
        have hmem : e ∈ db'.registry.filter (·.fileHash == row.fileHash) :=
          List.mem_filter.mpr ⟨he, by simp [heh, hh]⟩
        rw [hsame] at hmem
        exact (List.mem_filter.mp hmem).1
      obtain ⟨row₀, hrow₀, hm₀, hb₀⟩ := hl.binding row' hrow' e hold hid
      obtain rfl := List.inj_on_of_nodup_map hi.proofs hrow₀ hrow (hm₀.trans hm)
      exact absurd (hb.symm.trans hb₀) (by simp)
  refine ⟨hunbound, ?_⟩
  by_contra hsticky
  exact hi'.sticky row' hrow' (by simpa using hsticky) hunbound

/-- **What is to be published stays as it is** until the commit. -/
theorem lasts_publishes (hk : rowKeys new ⊆ ks) (hentry : .entry e.publicProofId ∈ ks)
    (hhash : .activeHash e.fileHash ∈ ks) : Lasts ks (Publishes new e m) := by
  intro db db' hi hi' hl hs h
  have hids : db'.registry.filter (·.publicProofId == e.publicProofId) =
      db.registry.filter (·.publicProofId == e.publicProofId) := hs _ hentry
  have hhashes : db'.registry.filter (·.fileHash == e.fileHash) =
      db.registry.filter (·.fileHash == e.fileHash) := hs _ hhash
  refine ⟨lasts_opened hk db db' hi hi' hl hs h.opened, ?_, ?_, h.enabled, ?_⟩
  · have hfresh := h.fresh
    unfold Tables.entry? at hfresh ⊢
    rw [← List.head?_filter] at hfresh ⊢
    rwa [hids]
  · refine active?_none.mpr fun e' he' hh => active?_none.mp h.vacant e' ?_ hh
    have hmem : e' ∈ db'.registry.filter (·.fileHash == e.fileHash) :=
      List.mem_filter.mpr ⟨he', by simp [hh]⟩
    rw [hhashes] at hmem
    exact (List.mem_filter.mp hmem).1
  · rcases h.pending with hnew | ⟨row, hrow, hm, hh, hb, -⟩
    · exact Or.inl hnew
    · obtain ⟨row', hrow', hm', hh', -⟩ := hl.proof row hrow
      have hsame : Key.same (.activeHash row.fileHash) db db' := hh ▸ hs _ hhash
      obtain ⟨hb', hs'⟩ := unbound_lasts hi' hl hsame hi hrow hrow' hm' hh' hb
      exact Or.inr ⟨row', hrow', hm'.trans hm, hh'.trans hh, hb', hs'⟩

/-- The entry that is to be disabled. -/
def Disabling (id : String) (disabling : List Write) (db : Tables) : Prop :=
  ∃ e ∈ db.registry, e.publicProofId = id ∧
    (disabling = [] ∨ disabling = [.disable id e.fileHash])

/-- The entry that is disabled stays the entry that was found. -/
theorem lasts_disabling : Lasts ks (Disabling id disabling) := by
  rintro db db' - - hl - ⟨e, he, hid, hd⟩
  obtain ⟨e', he', rfl | rfl⟩ := hl.entry e he
  · exact ⟨e', he', hid, hd⟩
  · exact ⟨_, he', hid, hd⟩

/-- **The proofs bound to an entry** are the same later. -/
theorem lasts_disables : Lasts ks (Disables id disabling rows) := by
  intro db db' hi hi' hl hs h
  refine ⟨@lasts_disabling ks id disabling db db' hi hi' hl hs h.entry,
    fun m => (h.rows m).trans ?_⟩
  obtain ⟨e, he, rfl, -⟩ := h.entry
  constructor
  · rintro ⟨row, hrow, hm, hid⟩
    obtain ⟨row', hrow', hm', -, -, hb⟩ := hl.proof row hrow
    exact ⟨row', hrow', hm'.trans hm, hb _ hid⟩
  · rintro ⟨row', hrow', hm, hid⟩
    obtain ⟨row, hrow, hm', hb⟩ := hl.binding row' hrow' e he hid
    exact ⟨row, hrow, hm'.trans hm, hb⟩

end Facts

/-! ## Requests -/

/-- **An accepted insert finds its candidate not sticky.** -/
def Fit (_ : Nat) : Call schema → Shared schema → Prop
  | .sql (.insertEntry publicProofId fileHash _ candidate), g =>
    g.db.entry? publicProofId = none → g.db.active? fileHash = none →
      (g.db.proof? candidate).all (fun row => !row.stickyDisabled) = true
  | _, _ => True

instance (p : Nat) (q : Call schema) (g : Shared schema) : Decidable (Fit p q g) :=
  match q with
  | .sql (.insertEntry publicProofId fileHash _ candidate) =>
    inferInstanceAs (Decidable (g.db.entry? publicProofId = none → g.db.active? fileHash = none →
      (g.db.proof? candidate).all (fun row => !row.stickyDisabled) = true))
  | .begin | .commit | .rollback | .ask _ | .sql (.insertProof ..) | .sql (.selectActive _)
  | .sql (.selectActiveForUpdate _) | .sql (.selectCandidate _) | .sql (.bindProof ..)
  | .sql (.disableEntry _) | .sql (.stickProofs _) => .isTrue trivial

section Requests

variable {p : Nat} {now : Int} {ks : List Key} {F : Tables → Prop} {log : List Write} {α : Type}
  {new : Option Materialization} {e : PublicRegistryEntry} {m : Uuid} {id fileHash tsaClass : String}

/-- A program of a fit run that does not end early meets its postcondition. -/
abbrev Publishing (p : Nat) (Pre : Local schema → Shared schema → Prop) (prog : Publish α)
    (Post : α → Local schema → Shared schema → Prop) : Prop :=
  Tries (S := schema) (fun _ _ _ _ => true) Fit Registered p Pre prog Post
    fun _ => Outside fun _ => True

/-- Inside the transaction, with these locks, a fact that lasts and these writes. -/
abbrev Under (p : Nat) (now : Int) (ks : List Key) (F : Tables → Prop) (log : List Write) :
    Local schema → Shared schema → Prop :=
  Amid (S := schema) p now [] (fun _ => True) (Guarded (S := schema) p ks F) log

/-- What is known in a transaction lasts. -/
theorem stable_under (hF : Lasts ks F) : Stable (discipline Registered) p (Under p now ks F log) :=
  stable_amid framed_const (steady_guarded_lasts hF)

/-- Behind an error there is nothing to keep. -/
theorem stable_ended_early {ε : Type} (_ : ε) :
    Stable (discipline (S := schema) Registered) p (Outside fun _ => True) :=
  stable_outside steady_const

/-- What the effect of a statement has to give: its writes, a fact, and the locks for it. -/
abbrev Gives {s : Sql} {ι : Type} (p : Nat) (now : Int) (ks : List Key) (F : Tables → Prop)
    (log : List Write) (K : s.Res → ι → List Key) (G : s.Res → ι → Tables → Prop)
    (W : s.Res → ι → List Write) : Prop :=
  ∀ (g : Shared schema) c a taken ws, F g.db → RegistryOk g.db → Fit p (.sql s) g →
    s.effect (g.waits p) c now (replay (S := schema) log g.db) = some (.ok (a, taken, ws)) →
      ∃ i, ws = W a i ∧ G a i g.db ∧ ∀ k ∈ K a i, k ∈ ks ∨ k ∈ taken

/-- After a statement; one that fails on the server has aborted the transaction. -/
def Replied {s : Sql} {ι : Type} (p : Nat) (now : Int) (ks : List Key) (F : Tables → Prop)
    (log : List Write) (K : s.Res → ι → List Key) (G : s.Res → ι → Tables → Prop)
    (W : s.Res → ι → List Write) : Except DbError s.Res → Local schema → Shared schema → Prop
  | .ok a => fun l g => ∃ i, Under p now (K a i) (G a i) (log ++ W a i) l g
  | .error e => fun l g => e = .rowNotFound ∧ Under p now ks F log l g ∨
      Broken (S := schema) (fun _ => True) l g

/-- **A statement**, with its failure. -/
theorem triple_under {s : Sql} {ι : Type} {K : s.Res → ι → List Key}
    {G : s.Res → ι → Tables → Prop}
    {W : s.Res → ι → List Write} (hF : Lasts ks F) (hG : ∀ a i, Lasts (K a i) (G a i))
    (hgives : Gives p now ks F log K G W) :
    Triple ((system schema).restrict fun _ _ _ _ => true) Fit (discipline Registered) p
      (Under p now ks F log) (Prog.call (Call.sql (S := schema) s))
      (Replied p now ks F log K G W) := by
  refine triple_post (triple_amid (S := schema) (s := s) (K := fun _ _ => [])
    (G := fun _ _ _ => True) (A := fun a i => Guarded (S := schema) p (K a i) (G a i)) (W := W)
    (X := fun _ => True) rfl framed_const (fun _ _ => framed_const) (steady_guarded_lasts hF)
    (fun a i => steady_guarded_lasts (hG a i)) ?_ fun _ _ _ _ _ _ _ => trivial) fun r l g h => ?_
  · intro g c a taken ws _ hg hi hfit he
    obtain ⟨i, rfl, hfact, hlocks⟩ :=
      hgives g c a taken ws hg.2 (registryOk_of_registered hi) hfit he
    exact ⟨i, rfl, trivial, hg.acquire hlocks hfact, by simp, fun w hw k hk =>
      Or.inr (covered_effect s (g.waits p) c now _ a taken _ he w hw k hk)⟩
  · cases r with
    | ok a => exact h
    | error e => exact h.2.imp id fun hb => ⟨hb.1, trivial⟩

/-- **A statement whose failure is returned.** -/
theorem publishing_query {s : Sql} {ι : Type} {K : s.Res → ι → List Key}
    {G : s.Res → ι → Tables → Prop} {W : s.Res → ι → List Write} (hF : Lasts ks F)
    (hG : ∀ a i, Lasts (K a i) (G a i)) (hgives : Gives p now ks F log K G W) :
    Publishing p (Under p now ks F log) (query s)
      fun a l g => ∃ i, Under p now (K a i) (G a i) (log ++ W a i) l g := by
  refine tries_attempt (S := schema) (fun a => stable_exists fun i => stable_under (hG a i))
    stable_ended_early (triple_post (triple_under hF hG hgives) fun r l g h => ?_)
  cases r with
  | ok a => exact h
  | error e => trivial

/-- It has ended well: what it has written is a commit, or it is aborted. -/
def Ready (p : Nat) (now : Int) (l : Local schema) (g : Shared schema) : Prop :=
  (∃ ks F log, Lasts ks F ∧ (∀ db, RegistryOk db → F db → log ≠ [] → Commits db log) ∧
    Under p now ks F log l g) ∨ Broken (S := schema) (fun _ => True) l g

/-- What is ready to commit stays ready. -/
theorem stable_ready : Stable (discipline Registered) p (Ready p now) := by
  refine stable_or (fun l g g' h hi hr hi' => ?_) (stable_broken steady_const)
  obtain ⟨ks, F, log, hF, hc, h⟩ := h
  exact ⟨ks, F, log, hF, hc, stable_under hF l g g' h hi hr hi'⟩

/-- A transaction whose writes are a commit is ready. -/
theorem Under.ready {l : Local schema} {g : Shared schema} (hF : Lasts ks F)
    (hc : ∀ db, RegistryOk db → F db → log ≠ [] → Commits db log)
    (h : Under p now ks F log l g) :
    Ready p now l g :=
  Or.inl ⟨ks, F, log, hF, hc, h⟩

/-- **`commit`** of a transaction that has ended well. -/
theorem triple_ready :
    Triple ((system schema).restrict fun _ _ _ _ => true) Fit (discipline Registered) p (Ready p now)
      (Prog.call Call.commit)
      fun (_ : Except DbError Unit) => Outside fun _ : Shared schema => True := by
  have hbroken : Triple ((system schema).restrict fun _ _ _ _ => true) Fit (discipline Registered) p
      (Broken (S := schema) fun _ => True) (Prog.call Call.commit)
      fun (_ : Except DbError Unit) => Outside fun _ : Shared schema => True :=
    triple_broken_commit (S := schema) steady_const steady_const fun _ h => h
  refine fun l g h => h.elim (fun h => ?_) (hbroken l g)
  obtain ⟨ks, F, log, hF, hc, h⟩ := h
  refine triple_amid_commit (S := schema) (Q := fun _ _ => True) framed_const (steady_guarded_lasts hF)
    (fun _ => steady_const) ?_ (fun _ _ _ => trivial) l g h
  refine fun g _ _ hg hi => ⟨hi.record fun hne => ?_, trivial⟩
  have hcommits := hc g.db (registryOk_of_registered hi) hg.2 hne
  rwa [hi.replayed] at hcommits

/-- **The end of a request**: the commit, or the rollback. -/
theorem publishing_committed (now : Int) {Pre : Local schema → Shared schema → Prop}
    {body : Publish Unit}
    (h : Publishing p Pre body fun _ => Ready p now) :
    Publishing p Pre (committed body) fun _ => Outside fun _ => True := by
  unfold committed
  refine tries_bind (S := schema) stable_ended_early (tries_orRollback (S := schema)
    (Q := fun _ _ => True) (fun _ => stable_ready) stable_ended_early (fun _ => steady_const)
    (fun _ _ _ _ _ => trivial) h) fun _ => ?_
  refine tries_attempt (S := schema) (fun _ => stable_outside steady_const) stable_ended_early
    (triple_post triple_ready fun r l g _ => ?_)
  cases r with
  | ok _ | error _ => trivial

/-- The transaction begins with nothing known. -/
theorem publishing_begin :
    Publishing p (Outside fun g => writesOf p g.history = []) (beginTx (S := schema) .database)
      fun _ l g => ∃ now, Under p now [] (fun _ => True) [] l g := by
  have hguarded : Steady Registered p (Guarded (S := schema) p [] fun _ => True) :=
    steady_guarded_lasts lasts_const
  refine tries_of_spec (S := schema) (spec_attempt (S := schema) (fun _ => stable_exists fun _ =>
    stable_under lasts_const) (fun _ => steady_const)
    (triple_pre (fun _ _ h _ => ⟨h, by simp, trivial⟩) (triple_amid_begin (S := schema)
      (E := fun _ _ => True) hguarded (fun _ => steady_const) fun _ _ _ => trivial)))

/-- **A read** leaves the transaction as it is. -/
theorem publishing_read {s : Sql} {A : s.Res → Tables → Prop} (hF : Lasts ks F)
    (hA : ∀ a, Lasts ks (A a))
    (hread : ∀ waits c db a taken ws, F db →
      s.effect waits c now (replay (S := schema) log db) = some (.ok (a, taken, ws)) →
        ws = [] ∧ A a db) :
    Publishing p (Under p now ks F log) (query s)
      fun a => Under p now ks (fun db => F db ∧ A a db) log := by
  refine tries_post (publishing_query (ι := Unit) (K := fun _ _ => ks)
    (G := fun a _ db => F db ∧ A a db) (W := fun _ _ => []) hF (fun a _ => hF.and (hA a)) ?_) ?_
    fun _ _ _ h => h
  · intro g c a taken ws hf _ _ he
    obtain ⟨rfl, ha⟩ := hread (g.waits p) c g.db a taken ws hf he
    exact ⟨(), rfl, ⟨hf, ha⟩, fun k hk => Or.inl hk⟩
  · rintro a l g ⟨-, h⟩
    rwa [List.append_nil] at h

/-! ### Publishing -/

/-- A candidate has a row of the hash. -/
theorem mem_candidate {tie : Nat} {db : Tables} (h : db.candidate? tie fileHash = some m) :
    ∃ row ∈ db.materialization, row.internalProofId = m ∧ row.fileHash = fileHash := by
  obtain ⟨row, hrow, hm⟩ := Option.map_eq_some_iff.mp h
  have hmem := (List.mem_filter.mp (List.mem_of_getElem? hrow)).1
  obtain ⟨hmem, hrow⟩ := List.mem_filter.mp hmem
  rw [Bool.and_eq_true, beq_iff_eq] at hrow
  exact ⟨row, hmem, hm, hrow.1⟩

/-- **An accepted and fit insert**: what is to be published. -/
theorem publishes_of_fit {db : Tables} (hi : RegistryOk db) (hopened : Opened new db)
    (hselected : Selected new m e.fileHash db) (hfresh : db.entry? e.publicProofId = none)
    (hvacant : db.active? e.fileHash = none) (henabled : e.enabled = true)
    (hfit : (db.proof? m).all (fun row => !row.stickyDisabled) = true) : Publishes new e m db := by
  refine ⟨hopened, hfresh, hvacant, henabled, ?_⟩
  rcases hselected with hnew | ⟨row, hrow, rfl, hh⟩
  · exact Or.inl hnew
  · rw [hi.proof? hrow] at hfit
    have hunsticky : row.stickyDisabled = false := by simpa using hfit
    refine Or.inr ⟨row, hrow, rfl, hh, ?_, hunsticky⟩
    cases hid : row.publicProofId with
    | none => rfl
    | some id =>
      -- bound to a disabled entry it would be sticky
      obtain ⟨e', he', rfl, heh⟩ := hi.bound row hrow id hid
      have hoff := active?_none.mp hvacant e' he' (heh.trans hh)
      exact absurd ((hi.disabled row hrow e' he' hid hoff).symm.trans hunsticky) (by simp)

/-- The candidate has its row, once the new one is inserted. -/
theorem Publishes.row {db : Tables} (h : Publishes new e m db) :
    ∃ row ∈ (replay (S := schema) (inserts new) db).materialization, row.internalProofId = m := by
  rw [replay_inserts]
  rcases h.pending with ⟨row, hnew, hm, -⟩ | ⟨row, hrow, hm, -⟩
  · exact ⟨row, List.mem_append_right _ (by simpa using hnew), hm⟩
  · exact ⟨row, List.mem_append_left _ hrow, hm⟩

/-- The locks of a publication. -/
def publishKeys (new : Option Materialization) (e : PublicRegistryEntry) : List Key :=
  rowKeys new ++ [.entry e.publicProofId, .activeHash e.fileHash]

/-- What makes an entry publishable is under the keys that its insertion takes. -/
theorem lasts_publishing : Lasts (publishKeys new e) (Publishes new e m) :=
  lasts_publishes (List.subset_append_left _ _) (by simp [publishKeys]) (by simp [publishKeys])

/-- After the insert into the registry. -/
def Offered (p : Nat) (now : Int) (new : Option Materialization) (e : PublicRegistryEntry) (m : Uuid) :
    Except DbError Unit → Local schema → Shared schema → Prop
  | .ok _ => Under p now (publishKeys new e) (Publishes new e m) (inserts new ++ [.insertEntry e])
  | .error err => fun l g => isUniqueViolation err = true → Broken (S := schema) (fun _ => True) l g

/-- The answer to the insertion stays what it is. -/
theorem stable_offered (r : Except DbError Unit) :
    Stable (discipline Registered) p (Offered p now new e m r) := by
  cases r with
  | ok _ => exact stable_under lasts_publishing
  | error _ =>
    exact fun l g g' h hi hr hi' hu => stable_broken steady_const l g g' (h hu) hi hr hi'

/-- The new row and the candidate last. -/
theorem lasts_chosen : Lasts (rowKeys new) fun db => Opened new db ∧ Selected new m fileHash db :=
  (lasts_opened (List.Subset.refl _)).and lasts_selected

/-- **The insertion of the entry**, which the condition is about. -/
theorem publishing_insertRegistered :
    Publishing p (Under p now (rowKeys new)
        (fun db => Opened new db ∧ Selected new m fileHash db) (inserts new))
      (insertRegistered id fileHash tsaClass m)
      (Offered p now new (newEntry id fileHash tsaClass now) m) := by
  have hgives : Gives (s := .insertEntry id fileHash tsaClass m) p now (rowKeys new)
      (fun db => Opened new db ∧ Selected new m fileHash db) (inserts new)
      (fun _ (_ : Unit) => publishKeys new (newEntry id fileHash tsaClass now))
      (fun _ _ => Publishes new (newEntry id fileHash tsaClass now) m)
      (fun _ _ => [.insertEntry (newEntry id fileHash tsaClass now)]) := by
    intro g c a taken ws hf hi hfit he
    obtain ⟨hfresh, hvacant, rfl, rfl⟩ := insertEntry_ok (c := c) he
    rw [replay_inserts] at hfresh hvacant
    refine ⟨(), rfl, publishes_of_fit hi hf.1 hf.2 hfresh hvacant rfl (hfit hfresh hvacant), ?_⟩
    exact fun k hk => List.mem_append.mp hk
  refine tries_lift (S := schema) stable_offered
    (triple_post (triple_under lasts_chosen (fun _ _ => lasts_publishing) hgives) fun r l g h => ?_)
  cases r with
  | ok _ =>
    obtain ⟨_, h⟩ := h
    exact h
  | error err =>
    intro hu
    rcases h with ⟨rfl, -⟩ | hb
    · exact absurd hu (by simp [isUniqueViolation])
    · exact hb

/-- **`publish`**: the entry and the binding of its candidate, or neither. -/
theorem publishing_publishCandidate :
    Publishing p (Under p now (rowKeys new)
        (fun db => Opened new db ∧ Selected new m fileHash db) (inserts new))
      (publishCandidate fileHash tsaClass m) fun _ => Ready p now := by
  unfold publishCandidate
  refine tries_bind (S := schema) stable_ended_early (tries_of_spec (S := schema)
    (spec_ask (S := schema) (stable_under lasts_chosen) (fun _ => stable_under lasts_chosen)
      fun _ _ _ h => h)) fun bytes => ?_
  refine tries_bind (S := schema) stable_ended_early publishing_insertRegistered fun r => ?_
  cases r with
  | error err =>
    by_cases hu : isUniqueViolation err = true
    · simp only [if_pos hu]
      exact tries_pure (S := schema) (stable_offered _) fun _ _ h => Or.inr (h hu)
    · simp only [if_neg hu]
      exact tries_throw (S := schema) (stable_offered _) fun _ _ _ => trivial
  | ok _ =>
    refine tries_post (publishing_query (ι := Unit)
      (K := fun _ _ => publishKeys new (newEntry (generatePublicId bytes) fileHash tsaClass now))
      (G := fun _ _ => Publishes new (newEntry (generatePublicId bytes) fileHash tsaClass now) m)
      (W := fun _ _ => [.bind m (generatePublicId bytes)]) lasts_publishing (fun _ _ => lasts_publishing) ?_) ?_
      fun _ _ _ h => h
    · intro g c a taken ws hp _ _ he
      rcases bindProof_ok (c := c) he with ⟨hnone, -⟩ | ⟨-, rfl⟩
      · obtain ⟨row, hrow, hm⟩ := hp.row
        rw [replay_append] at hnone
        exact absurd hm (proof?_none.mp hnone row hrow)
      · exact ⟨(), rfl, hp, fun k hk => Or.inl hk⟩
    · rintro _ l g ⟨_, h⟩
      refine Under.ready lasts_publishing (fun db _ hp _ => ?_) h
      have hcommit := Commits.published hp
      rwa [List.append_assoc]

/-- **`sync_canonical_public_proof_in_tx`.** -/
theorem publishing_sync :
    Publishing p (Under p now (rowKeys new) (Opened new) (inserts new))
      (syncCanonicalPublicProofInTx fileHash tsaClass) fun _ => Ready p now := by
  have hopened : Lasts (rowKeys new) (Opened new) := lasts_opened (List.Subset.refl _)
  have hready : ∀ {F : Tables → Prop} l g,
      (∀ db, F db → Opened new db) → Lasts (rowKeys new) F →
      Under p now (rowKeys new) F (inserts new) l g → Ready p now l g :=
    fun l g hF hlasts h => Under.ready hlasts (fun db _ hdb _ => Commits.recorded (hF db hdb)) h
  unfold syncCanonicalPublicProofInTx
  refine tries_bind (S := schema) stable_ended_early (publishing_read (A := fun _ _ => True) hopened
    (fun _ => lasts_const) fun waits c db a taken ws _ he =>
      ⟨(selectActiveForUpdate_ok (c := c) he).2, trivial⟩) fun active => ?_
  have hstill : Lasts (rowKeys new) fun db => Opened new db ∧ True := hopened.and lasts_const
  by_cases hactive : Option.isSome active = true
  · simp only [hactive]
    exact tries_pure (S := schema) (stable_under hstill)
      fun l g h => hready l g (fun _ h => h.1) hstill h
  simp only [hactive]
  refine tries_bind (S := schema) stable_ended_early (publishing_read (s := .selectCandidate fileHash)
    (A := fun (found : Option Uuid) db => ∀ m, found = some m → Selected new m fileHash db) hstill
    ?_ ?_) fun candidate => ?_
  · exact fun found db db' hi hi' hl hs h m hm => lasts_selected db db' hi hi' hl hs (h m hm)
  · intro waits c db found taken ws _ he
    obtain ⟨rfl, rfl⟩ := selectCandidate_ok (c := c) he
    refine ⟨rfl, fun m hm => ?_⟩
    obtain ⟨row, hrow, hid, hh⟩ := mem_candidate hm
    rw [replay_inserts] at hrow
    rcases List.mem_append.mp hrow with hrow | hrow
    · exact Or.inr ⟨row, hrow, hid, hh⟩
    · exact Or.inl ⟨row, by simpa using hrow, hid, hh⟩
  cases candidate with
  | none =>
    have hlasts : Lasts (rowKeys new) fun db => (Opened new db ∧ True) ∧
        ∀ m, (none : Option Uuid) = some m → Selected new m fileHash db :=
      hstill.and fun _ _ _ _ _ _ _ m hm => absurd hm (by simp)
    exact tries_pure (S := schema) (stable_under hlasts)
      fun l g h => hready l g (fun _ h => h.1.1) hlasts h
  | some m =>
    exact tries_pre (fun l g h _ => amid_mono (List.Subset.refl _) (fun _ h => h)
      (fun g hg => hg.mono (List.Subset.refl _) fun h => ⟨h.1.1, h.2 m rfl⟩) h)
      publishing_publishCandidate

/-- The row of the proof is inserted, or was there. -/
theorem publishing_insertProof :
    Publishing p (Under p now [] (fun _ => True) []) (query (.insertProof m fileHash))
      fun _ l g => ∃ new, Under p now (rowKeys new) (Opened new) (inserts new) l g := by
  refine publishing_query (ι := Option Materialization) (K := fun _ => rowKeys)
    (G := fun _ => Opened) (W := fun _ => inserts) lasts_const
    (fun _ _ => lasts_opened (List.Subset.refl _)) ?_
  intro g c a taken ws _ _ _ he
  rcases insertProof_ok (c := c) he with ⟨-, rfl⟩ | ⟨hnew, rfl, rfl⟩
  · exact ⟨none, rfl, ⟨trivial, by simp, by simp⟩, by simp [rowKeys]⟩
  · have hnew : (g.db.proof? m).isSome = false := hnew
    refine ⟨some ⟨m, fileHash, none, now, false⟩, rfl, ⟨by simpa [Absent] using hnew, ?_, ?_⟩,
      by simp [rowKeys]⟩
    · rintro row ⟨⟩
      rfl
    · rintro row ⟨⟩
      rfl

/-- **`on_proof_anchored`.** -/
theorem publishing_onProofAnchored :
    Publishing p (Outside fun g => writesOf p g.history = []) (onProofAnchored m fileHash tsaClass)
      fun _ => Outside fun _ => True := by
  refine tries_bind (S := schema) stable_ended_early publishing_begin fun _ => tries_exists fun now =>
    publishing_committed now (tries_bind (S := schema) stable_ended_early publishing_insertProof
      fun _ => tries_exists fun new => publishing_sync)

/-- **`sync_canonical_public_proof`.** -/
theorem publishing_syncCanonicalPublicProof :
    Publishing p (Outside fun g => writesOf p g.history = [])
      (syncCanonicalPublicProof fileHash tsaClass) fun _ => Outside fun _ => True := by
  refine tries_bind (S := schema) stable_ended_early publishing_begin fun _ => tries_exists fun now =>
    publishing_committed now (tries_pre (fun l g h _ => ?_) (@publishing_sync p now none _ _))
  exact amid_mono (List.Subset.refl _) (fun _ h => h)
    (fun g hg => hg.mono (List.Subset.refl _) fun _ => ⟨trivial, by simp, by simp⟩) h

/-! ### Disabling -/

/-- **The entry is disabled**, where it is enabled still. -/
theorem publishing_disableEntry :
    Publishing p (Under p now [] (fun db => ∃ e ∈ db.registry, e.publicProofId = id) [])
      (query (.disableEntry id))
      fun _ l g => ∃ disabling, Under p now [] (Disabling id disabling) disabling l g := by
  have hentry : Lasts [] fun db => ∃ e ∈ db.registry, e.publicProofId = id := by
    rintro db db' - - hl - ⟨e, he, hid⟩
    obtain ⟨e', he', rfl | rfl⟩ := hl.entry e he
    · exact ⟨e', he', hid⟩
    · exact ⟨_, he', hid⟩
  refine publishing_query (ι := List Write) (K := fun _ _ => []) (G := fun _ => Disabling id)
    (W := fun _ disabling => disabling) hentry (fun _ _ => lasts_disabling) ?_
  rintro g c a taken ws ⟨e, he, hid⟩ - - heff
  have hview : (Sql.disableEntry id).effect (g.waits p) c now g.db = some (.ok (a, taken, ws)) := heff
  simp only [Sql.effect] at hview
  cases hfind : g.db.entry? id with
  | none => exact absurd hid (entry?_none.mp hfind e he)
  | some entry =>
    obtain ⟨hmem, hid⟩ := mem_of_entry? hfind
    rw [hfind] at hview
    by_cases hon : entry.enabled = true
    · simp only [hon, if_true] at hview
      obtain ⟨-, -, -, rfl⟩ := takes_ok.mp hview
      exact ⟨_, rfl, ⟨entry, hmem, hid, Or.inr rfl⟩, by simp⟩
    · simp only [hon] at hview
      obtain ⟨-, -, -, rfl⟩ := takes_ok.mp hview
      exact ⟨_, rfl, ⟨entry, hmem, hid, Or.inl rfl⟩, by simp⟩

/-- **Its proofs are marked**, all that are bound to it. -/
theorem publishing_stickProofs {disabling : List Write} :
    Publishing p (Under p now [] (Disabling id disabling) disabling) (query (.stickProofs id))
      fun _ => Ready p now := by
  refine tries_post (publishing_query (ι := List Uuid) (K := fun _ _ => [])
    (G := fun _ rows => Disables id disabling rows) (W := fun _ rows => rows.map .stick)
    lasts_disabling (fun _ _ => lasts_disables) ?_) ?_ fun _ _ _ h => h
  · intro g c a taken ws hd hi _ he
    have hview : (Sql.stickProofs id).effect (g.waits p) c now
        (replay (S := schema) disabling g.db) = some (.ok (a, taken, ws)) := he
    simp only [Sql.effect] at hview
    obtain ⟨-, -, -, rfl⟩ := takes_ok.mp hview
    have hmat : (replay (S := schema) disabling g.db).materialization = g.db.materialization := by
      obtain ⟨e, -, -, rfl | rfl⟩ := hd <;> rfl
    refine ⟨_, rfl, ⟨hd, fun m => ?_⟩, by simp⟩
    rw [hmat, List.mem_map]
    constructor
    · rintro ⟨row, hrow, hm⟩
      obtain ⟨hmem, hid⟩ := List.mem_filter.mp hrow
      exact ⟨row, hmem, hm, by simpa using hid⟩
    · rintro ⟨row, hmem, hm, hid⟩
      exact ⟨row, List.mem_filter.mpr ⟨hmem, by simpa using hid⟩, hm⟩
  · rintro _ l g ⟨rows, h⟩
    exact Under.ready lasts_disables (fun db _ hdb _ => Commits.disabled hdb) h

/-- **`disable_canonical_public_proof`.** -/
theorem publishing_disableCanonicalPublicProof :
    Publishing p (Outside fun g => writesOf p g.history = [])
      (disableCanonicalPublicProof fileHash) fun _ => Outside fun _ => True := by
  refine tries_bind (S := schema) stable_ended_early publishing_begin fun _ => tries_exists fun now =>
    publishing_committed now ?_
  have hfound : ∀ found : Option String, Lasts [] fun db =>
      ∀ id, found = some id → ∃ e ∈ db.registry, e.publicProofId = id := by
    rintro found db db' - - hl - h id hid
    obtain ⟨e, he, hid⟩ := h id hid
    obtain ⟨e', he', rfl | rfl⟩ := hl.entry e he
    · exact ⟨e', he', hid⟩
    · exact ⟨_, he', hid⟩
  refine tries_bind (S := schema) stable_ended_early (publishing_read
    (s := .selectActive (normalizeStoredFileHash fileHash)) (A := fun (found : Option String) db =>
      ∀ id, found = some id → ∃ e ∈ db.registry, e.publicProofId = id) lasts_const hfound ?_)
    fun found => ?_
  · intro waits c db found taken ws _ he
    obtain ⟨rfl, rfl⟩ := selectActive_ok (c := c) he
    refine ⟨rfl, fun id hid => ?_⟩
    obtain ⟨e, hactive, rfl⟩ := Option.map_eq_some_iff.mp hid
    exact ⟨e, (mem_of_active? hactive).1, rfl⟩
  cases found with
  | none =>
    exact tries_pure (S := schema) (stable_under (lasts_const.and (hfound none))) fun l g h =>
      Under.ready (lasts_const.and (hfound none)) (fun _ _ _ hne => absurd rfl hne) h
  | some id =>
    refine tries_pre (fun l g h _ => ?_) (tries_bind (S := schema) stable_ended_early
      publishing_disableEntry fun _ => tries_exists fun disabling => publishing_stickProofs)
    exact amid_mono (List.Subset.refl _) (fun _ h => h)
      (fun g hg => hg.mono (List.Subset.refl _) fun h => h.2 id rfl) h

end Requests

/-! ## Runs -/

/-- **Every request** commits as `Commits` says. -/
theorem serves_fit (requests : Nat → Request) :
    Serves (S := schema) (fun h _ log => Commits (tablesAfter (S := schema) .empty h) log) .empty
      (fun p => (requests p).run.run) Fit fun _ _ _ => True := by
  intro p
  beta_reduce
  cases requests p with
  | onProofAnchored m hash tsaClass =>
    exact triple_post publishing_onProofAnchored fun _ _ _ _ => trivial
  | syncCanonicalPublicProof hash tsaClass =>
    exact triple_post publishing_syncCanonicalPublicProof fun _ _ _ _ => trivial
  | disableCanonicalPublicProof hash =>
    exact triple_post publishing_disableCanonicalPublicProof fun _ _ _ _ => trivial

/-- The public id that a proof is bound to. -/
def Tables.publicId? (db : Tables) (m : Uuid) : Option String := (db.proof? m).bind (·.publicProofId)

/-- What a later moment may not change. -/
structure Immutable (db db' : Tables) : Prop where
  /-- An enabled entry, while it stays enabled, with the proofs bound to it. -/
  canonical : ∀ fileHash e, db.active? fileHash = some e →
    (∃ e' ∈ db'.registry, e'.publicProofId = e.publicProofId ∧ e'.enabled = true) →
      db'.active? fileHash = some e ∧
        ∀ m, db'.publicId? m = some e.publicProofId ↔ db.publicId? m = some e.publicProofId
  /-- A disabled one. -/
  retired : ∀ e ∈ db.registry, e.enabled = false →
    ∀ e' ∈ db'.registry, e'.publicProofId = e.publicProofId → e'.enabled = false
  /-- What a sticky proof is bound to. -/
  sticky : ∀ m row, db.proof? m = some row → row.stickyDisabled = true →
    db'.publicId? m = db.publicId? m
  /-- What any proof is bound to. -/
  kept : ∀ m id, db.publicId? m = some id → db'.publicId? m = some id

section Runs

variable {db db' : Tables} {requests : Nat → Request} {y z : RegistryConfig}

/-- The public id of a row is found by its proof. -/
theorem publicId?_of_mem (hi : RegistryOk db) {row : Materialization}
    (hrow : row ∈ db.materialization) : db.publicId? row.internalProofId = row.publicProofId := by
  rw [Tables.publicId?, hi.proof? hrow]
  rfl

/-- A public id that is found is that of a row. -/
theorem mem_of_publicId? {m : Uuid} {id : String} (h : db.publicId? m = some id) :
    ∃ row ∈ db.materialization, row.internalProofId = m ∧ row.publicProofId = some id := by
  obtain ⟨row, hrow, hid⟩ := Option.bind_eq_some_iff.mp h
  obtain ⟨hmem, hm⟩ := mem_of_proof? hrow
  exact ⟨row, hmem, hm, hid⟩

/-- One enabled entry at most. -/
theorem enabled_length (hi : RegistryOk db) (fileHash : String) :
    (db.registry.filter fun e => e.fileHash == fileHash && e.enabled).length ≤ 1 := by
  have hnodup : (db.registry.filter fun e => e.fileHash == fileHash && e.enabled).Nodup :=
    hi.ids.of_map.filter _
  have hsame : ∀ e ∈ db.registry.filter (fun e => e.fileHash == fileHash && e.enabled),
      e ∈ db.registry ∧ e.fileHash = fileHash ∧ e.enabled = true := by
    intro e he
    obtain ⟨hmem, hfound⟩ := List.mem_filter.mp he
    rw [Bool.and_eq_true, beq_iff_eq] at hfound
    exact ⟨hmem, hfound⟩
  cases hlist : db.registry.filter fun e => e.fileHash == fileHash && e.enabled with
  | nil => simp
  | cons e rest =>
    cases rest with
    | nil => simp
    | cons e' rest =>
      rw [hlist] at hnodup hsame
      obtain ⟨hmem, hh, hon⟩ := hsame e (by simp)
      obtain ⟨hmem', hh', hon'⟩ := hsame e' (by simp)
      obtain rfl := hi.active e hmem e' hmem' hon hon' (hh.trans hh'.symm)
      exact absurd hnodup (by simp)

/-- **A later moment changes nothing** of what is published. -/
theorem immutable_of_later (hi : RegistryOk db) (hi' : RegistryOk db') (hl : Later db db') :
    Immutable db db' := by
  have hkept : ∀ m id, db.publicId? m = some id → db'.publicId? m = some id := by
    intro m id h
    obtain ⟨row, hrow, rfl, hid⟩ := mem_of_publicId? h
    obtain ⟨row', hrow', hm, -, -, hb⟩ := hl.proof row hrow
    rw [← hm, publicId?_of_mem hi' hrow']
    exact hb id hid
  have hentry : ∀ e ∈ db.registry, ∀ e' ∈ db'.registry, e'.publicProofId = e.publicProofId →
      e' = e ∨ e' = { e with enabled := false } := by
    intro e he e' he' hid
    obtain ⟨e₁, he₁, hsame⟩ := hl.entry e he
    have hid₁ : e₁.publicProofId = e.publicProofId := by rcases hsame with rfl | rfl <;> rfl
    rwa [List.inj_on_of_nodup_map hi'.ids he' he₁ (hid.trans hid₁.symm)]
  constructor
  · rintro fileHash e hactive ⟨e', he', hid, hon⟩
    obtain ⟨hmem, hh, -⟩ := mem_of_active? hactive
    obtain rfl | rfl := hentry e hmem e' he' hid
    · refine ⟨?_, fun m => ⟨fun h => ?_, hkept m _⟩⟩
      · cases hfind : db'.active? fileHash with
        | none => exact absurd (active?_none.mp hfind e' he' hh) (by simp [hon])
        | some e₁ =>
          obtain ⟨hmem₁, hh₁, hon₁⟩ := mem_of_active? hfind
          rw [hi'.active e₁ hmem₁ e' he' hon₁ hon (hh₁.trans hh.symm)]
      · obtain ⟨row', hrow', rfl, hb⟩ := mem_of_publicId? h
        obtain ⟨row, hrow, hm, hb'⟩ := hl.binding row' hrow' e' hmem hb
        rw [← hm, publicId?_of_mem hi hrow]
        exact hb'
    · exact absurd hon (by simp)
  · intro e he hoff e' he' hid
    rcases hentry e he e' he' hid with rfl | rfl
    · exact hoff
    · rfl
  · intro m row hrow hs
    obtain ⟨hmem, rfl⟩ := mem_of_proof? hrow
    cases hid : row.publicProofId with
    | none => exact absurd hid (hi.sticky row hmem hs)
    | some id =>
      have hold : db.publicId? row.internalProofId = some id := by rw [publicId?_of_mem hi hmem, hid]
      rw [hold]
      exact hkept _ id hold
  · exact hkept

/-- **Canonical public proofs are immutable** in every run whose registry inserts are `Fit`: no hash has
two enabled entries in any state, and no later state changes what is published in an earlier one. -/
theorem canonical_immutable (hy : Reach (system schema) Fit (start requests .empty) y)
    (hz : Reach (system schema) Fit y z) :
    (∀ fileHash,
      (y.shared.db.registry.filter fun e => e.fileHash == fileHash && e.enabled).length ≤ 1) ∧
      Immutable y.shared.db z.shared.db := by
  have hi := registryOk_of_registered (reach_service (serves_fit requests) hy).1
  have hi' := registryOk_of_registered
    (reach_service (serves_fit requests) (Relation.ReflTransGen.trans hy hz)).1
  have hl : Later y.shared.db z.shared.db :=
    reach_relates (S := schema) Later (serves_fit requests) Later.refl
      (fun hab hbc => Later.trans hab hbc)
      (fun _ _ _ hr hc => later_commits (registryOk_of_registered hr) hc) hy hz
  refine ⟨fun fileHash => ?_, immutable_of_later hi hi' hl⟩
  exact enabled_length hi fileHash

end Runs

/-- Two proofs of one file, and the requests about its publication. -/
def sampleRequests : Nat → Request
  | 0 => .onProofAnchored (Uuid.small 1) "8d66" "legal"
  | 1 => .onProofAnchored (Uuid.small 2) "8d66" "legal"
  | 2 | 5 => .disableCanonicalPublicProof "8d66"
  | _ => .syncCanonicalPublicProof "8d66" "legal"

/-- So many statements of each request; each draws bytes of its own. -/
def sampleTurns (turns : List (Nat × Nat)) : List (Nat × Choice) :=
  turns.flatMap fun turn =>
    List.replicate turn.2 (turn.1, ⟨false, turn.1, sampleBytes turn.1, 0⟩)

/-- The first proof is published and disabled, the second is published. -/
theorem canonical_immutable_sampleRun : ∃ y z : RegistryConfig,
    Reach (system schema) Fit (start sampleRequests .empty) y ∧
      Reach (system schema) Fit y z ∧ z.shared.db.registry.length = 2 ∧
        Immutable y.shared.db z.shared.db := by
  have hrun : ((start sampleRequests .empty).run (system schema) Fit
      (sampleTurns [(0, 8), (1, 4)])).bind (fun y => (y.run (system schema) Fit
        (sampleTurns [(2, 5), (3, 7)])).map fun z => z.shared.db.registry.length) = some 2 := by
    decide +kernel
  obtain ⟨y, z, hy, hz, hlen, -⟩ := Reach.exists_of_runs hrun
  exact ⟨y, z, hy, hz, hlen, (canonical_immutable hy hz).2⟩

/-- **The second proof is a candidate, is published and disabled by others, and is bound again.** -/
theorem rebound : ∃ y z : RegistryConfig,
    Reach (system schema) (fun _ _ _ => True) (start sampleRequests .empty) y ∧
      Reach (system schema) (fun _ _ _ => True) y z ∧
        (y.shared.db.proof? (Uuid.small 2)).map (fun row => (row.publicProofId, row.stickyDisabled)) =
          some (some (generatePublicId (sampleBytes 4)), true) ∧
          z.shared.db.publicId? (Uuid.small 2) = some (generatePublicId (sampleBytes 3)) := by
  have hrun : ((start sampleRequests .empty).run (system schema) (fun _ _ _ => True)
      (sampleTurns [(0, 8), (1, 4), (2, 5), (3, 3), (4, 7), (5, 5)])).bind (fun y =>
        (y.run (system schema) (fun _ _ _ => True) (sampleTurns [(3, 4)])).map fun z =>
          ((y.shared.db.proof? (Uuid.small 2)).map fun row => (row.publicProofId, row.stickyDisabled),
            z.shared.db.publicId? (Uuid.small 2))) =
      some (some (some (generatePublicId (sampleBytes 4)), true),
        some (generatePublicId (sampleBytes 3))) := by
    decide +kernel
  obtain ⟨y, z, hy, hz, hfacts, -⟩ := Reach.exists_of_runs hrun
  obtain ⟨hrow, hid⟩ := Prod.mk.inj hfacts
  exact ⟨y, z, hy, hz, hrow, hid⟩

end EvidentLedger.Registry
