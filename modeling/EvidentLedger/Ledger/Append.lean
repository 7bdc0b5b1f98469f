import EvidentLedger.Ledger.Commit

/-!
# The transaction of an event

Statement by statement, what the transaction of an event has locked, written and learnt
(`insert_event_in_tx`, `service/ledger.rs:258-393`), up to the commit.

* `Setting` fixes the requests, the tables at the start, and which runs are considered.
* Every assertion is `Under`: the locks, the log, and a fact about the committed rows under these
  locks. `framed_chain` and `framed_usage` say which facts those are.
* `spec_ensureChainAccessInTx`: the chain row is locked and is the account's, or will be.
* `spec_insertEventInTx`: the log is that of a valid addition, up to the signature.
* `spec_signEvent`: its snapshot is of the rows that the transaction sees, and is stored.

The lock of the chain row is what makes the plan of an event hold until the commit: the sequence and
the parent are read, inserted, signed and made the head by separate statements.
-/

namespace EvidentLedger.Ledger

open Lib.Interleave Lib.Transaction

/-- The requests over some tables, with the choices and the steps that are considered. -/
structure Setting where
  state : AppState
  requests : Nat → Request
  admits : Nat → Choice → Call schema → Shared schema → Bool
  ok : Nat → Call schema → Shared schema → Prop
  db₀ : Db

namespace Setting

variable (x : Setting)

/-- What holds of the committed tables and their history. -/
abbrev Inv : Db → History schema → Prop := Recorded x.state x.requests x.ok x.db₀

/-- A program of request `p` that may end early. -/
abbrev Spec {ε α : Type} (p : Nat) (Pre : Local schema → Shared schema → Prop)
    (prog : Program schema ε α) (Post : α → Local schema → Shared schema → Prop)
    (E : ε → Shared schema → Prop) : Prop :=
  Lib.Transaction.Spec (S := schema) x.admits x.ok x.Inv p Pre prog Post E

/-- One that does not. -/
abbrev Triple {α : Type} (p : Nat) (Pre : Local schema → Shared schema → Prop) (prog : Action α)
    (Post : α → Local schema → Shared schema → Prop) : Prop :=
  Lib.Interleave.Triple ((system schema).restrict x.admits) x.ok (discipline (S := schema) x.Inv) p Pre
    prog Post

end Setting

/-- Nothing committed yet. -/
def Fresh (p : Nat) (g : Shared schema) : Prop := writesOf p g.history = []

/-- Inside the first transaction of `p`. -/
abbrev Under (p : Nat) (now : Int) (ks : List Key) (F : Db → Prop) (log : List Write) :
    Local schema → Shared schema → Prop :=
  InTx p (Held (S := schema) p now ks F log)

variable {x : Setting} {p : Nat} {now : Int} {ks : List Key} {F : Db → Prop} {log : List Write}
  {c account : Uuid} {ε : Type}

theorem steady_fresh : Steady x.Inv p (Fresh p) := steady_own (P := fun log => log = [])

/-! ## Facts under locks -/

theorem framed_chain (F : Option ChainRow → List EventRecord → Prop) :
    Framed (S := schema) [Key.chain c] fun db => F (Db.chain? db c) (Db.eventsOf db c) := by
  intro db db' hs hf
  obtain ⟨hc, he⟩ : Db.chain? db' c = Db.chain? db c ∧ Db.eventsOf db' c = Db.eventsOf db c :=
    hs _ List.mem_cons_self
  rw [hc, he]
  exact hf

theorem framed_usage {month : Int} (F : Option UsageRow → Prop) :
    Framed (S := schema) [Key.usage account month] fun db => F (Db.usage? db account month) := by
  intro db db' hs hf
  have hu : Db.usage? db' account month = Db.usage? db account month := hs _ List.mem_cons_self
  change F (Db.usage? db' account month)
  rw [hu]
  exact hf

theorem framed_record {key : String} (F : Option IdempotencyRecord → Prop) :
    Framed (S := schema) [Key.record account key] fun db => F (Db.record? db account key) := by
  intro db db' hs hf
  have hr : Db.record? db' account key = Db.record? db account key := hs _ List.mem_cons_self
  change F (Db.record? db' account key)
  rw [hr]
  exact hf

theorem framed_head (hk : Key.chain c ∈ ks) (F : Option Uuid → Prop) :
    Framed (S := schema) ks fun db => F (Db.head? db c) :=
  (framed_chain fun row? _ => F (row?.bind (·.headEventId))).mono (by simpa using hk)

theorem framed_events (hk : Key.chain c ∈ ks) (F : List EventRecord → Prop) :
    Framed (S := schema) ks fun db => F (Db.eventsOf db c) :=
  (framed_chain fun _ events => F events).mono (by simpa using hk)

/-! ## One statement -/

/-- **A statement that locks or writes**, with several outcomes for one answer. -/
theorem spec_cases {f : DbError → ε} {s : Sql} {ι : Type} {K : s.Res → ι → List Key}
    {G : s.Res → ι → Db → Prop} {W : s.Res → ι → List Write} (hs : s.onPool = false)
    (hF : Framed (S := schema) ks F) (hG : ∀ a i, Framed (S := schema) (K a i) (G a i))
    (hok : ∀ (g : Shared schema) ch a taken ws, F g.db → x.Inv g.db g.history →
      x.ok p (.sql s) g →
      s.effect (g.waits p) ch now (replay (S := schema) log g.db) = some (.ok (a, taken, ws)) →
        ∃ i, ws = W a i ∧ G a i g.db ∧ (∀ k ∈ K a i, k ∈ ks ∨ k ∈ taken) ∧
          ∀ w ∈ ws, ∀ k ∈ w.keys, k ∈ ks ∨ k ∈ taken) :
    x.Spec p (Under p now ks F log) (statement f s)
      (fun a l g => ∃ i, Under p now (K a i) (G a i) (log ++ W a i) l g) fun _ => Fresh p :=
  spec_held_cases (S := schema) hs hF hG (fun _ => steady_fresh) hok fun _ _ h _ _ _ => h

theorem spec_locks {f : DbError → ε} {s : Sql} {K : s.Res → List Key} {G : s.Res → Db → Prop}
    {W : s.Res → List Write} (hs : s.onPool = false) (hF : Framed (S := schema) ks F)
    (hG : ∀ a, Framed (S := schema) (K a) (G a))
    (hok : ∀ (g : Shared schema) ch a taken ws, F g.db → x.Inv g.db g.history →
      x.ok p (.sql s) g →
      s.effect (g.waits p) ch now (replay (S := schema) log g.db) = some (.ok (a, taken, ws)) →
        ws = W a ∧ G a g.db ∧ (∀ k ∈ K a, k ∈ ks ∨ k ∈ taken) ∧
          ∀ w ∈ ws, ∀ k ∈ w.keys, k ∈ ks ∨ k ∈ taken) :
    x.Spec p (Under p now ks F log) (statement f s)
      (fun a => Under p now (K a) (G a) (log ++ W a)) fun _ => Fresh p :=
  spec_held (S := schema) hs hF hG (fun _ => steady_fresh) hok fun _ _ h _ _ _ => h

/-- **A read.** -/
theorem spec_read {f : DbError → ε} {s : Sql} {G : s.Res → Db → Prop} (hs : s.onPool = false)
    (hF : Framed (S := schema) ks F) (hG : ∀ a, Framed (S := schema) ks (G a))
    (hok : ∀ (g : Shared schema) ch a taken ws, F g.db → x.Inv g.db g.history →
      x.ok p (.sql s) g →
      s.effect (g.waits p) ch now (replay (S := schema) log g.db) = some (.ok (a, taken, ws)) →
        ws = [] ∧ G a g.db) :
    x.Spec p (Under p now ks F log) (statement f s) (fun a => Under p now ks (G a) log)
      fun _ => Fresh p :=
  spec_held_read (S := schema) hs hF hG (fun _ => steady_fresh) hok fun _ _ h _ _ _ => h

/-- **A read on the pool.** -/
theorem spec_poolRead {f : DbError → ε} {s : Sql} {Q : s.Res → Prop} (hs : s.onPool = true)
    (hF : Framed (S := schema) ks F)
    (hok : ∀ (g : Shared schema) ch a taken ws, x.Inv g.db g.history →
      s.effect (g.waits p) ch ch.time g.db = some (.ok (a, taken, ws)) → ws = [] ∧ Q a) :
    x.Spec p (Under p now ks F log) (statement f s)
      (fun a => Under p now ks (fun db => F db ∧ Q a) log) fun _ => Fresh p :=
  spec_held_pool (S := schema) hs hF (fun _ => steady_fresh)
    (fun g ch a taken ws hi _ he => hok g ch a taken ws hi he) fun _ _ h _ _ _ => h

theorem spec_requireUnder {b : Bool} {err : ε} (hF : Framed (S := schema) ks F) :
    x.Spec p (Under p now ks F log) (require b err)
      (fun _ => Under p now ks (fun db => F db ∧ b = true) log) fun _ => Fresh p :=
  spec_held_require (S := schema) hF fun _ h _ _ => h

/-- The same assertion, for a weaker fact. -/
theorem under_mono {G : Db → Prop} (h : ∀ db, F db → G db) {l : Local schema} {g : Shared schema}
    (hu : Under p now ks F log l g) : Under p now ks G log l g :=
  held_mono (List.Subset.refl _) h hu

theorem Under.fresh {l : Local schema} {g : Shared schema} (h : Under p now ks F log l g) :
    Fresh p g := by
  obtain ⟨tx, -, -, -, h⟩ := h
  exact h.fresh

/-- What is known of the committed rows. -/
theorem Under.fact {l : Local schema} {g : Shared schema} (h : Under p now ks F log l g) :
    F g.db := by
  obtain ⟨tx, -, -, -, h⟩ := h
  exact Held.fact h

/-! ## The chain -/

/-- The row after `INSERT … ON CONFLICT DO NOTHING` and `SELECT … FOR UPDATE`: new, or there. -/
inductive Found (row? : Option ChainRow) (account c : Uuid) : Option Uuid → List Write → Prop
  | created (h : row? = none) :
      Found row? account c (some account) [.insertChain ⟨c, none, some account⟩]
  | locked {row : ChainRow} (h : row? = some row) : Found row? account c row.accountId []

theorem framed_found (owner : Option Uuid) (log : List Write) :
    Framed (S := schema) [Key.chain c] fun db : Db => Found (db.chain? c) account c owner log :=
  framed_chain fun row? _ => Found row? account c owner log

theorem framed_access {c i : Uuid} (log : List Write) :
    Framed (S := schema) [Key.chain c] fun db : Db => Access (db.chain? c) i c log :=
  framed_chain fun row? _ => Access row? i c log

/-- A fact that comes with the lock of the chain, if the statement answered. -/
theorem framed_answered {F : Option ChainRow → Option Uuid → Prop} (answer : Option (Option Uuid)) :
    Framed (S := schema) (if answer.isSome then [Key.chain c] else []) fun db : Db =>
      ∀ owner, answer = some owner → F (db.chain? c) owner := by
  cases answer with
  | none => exact fun _ _ _ _ _ h => absurd h (by simp)
  | some owner => exact framed_chain fun row? _ => ∀ o, some owner = some o → F row? o

theorem spec_lockChain : x.Spec p (Under p now [] (fun _ => True) []) (lockChain c)
    (fun owner => Under p now [.chain c]
      (fun db => ∃ row, db.chain? c = some row ∧ row.accountId = owner) [])
    fun _ => Fresh p := by
  refine spec_bind (fun _ => steady_fresh) (spec_locks (s := .selectChainForUpdate c)
    (K := fun answer : Option (Option Uuid) => if answer.isSome then [Key.chain c] else [])
    (G := fun (answer : Option (Option Uuid)) db => ∀ owner, answer = some owner →
      ∃ row, db.chain? c = some row ∧ row.accountId = owner)
    (W := fun _ => []) rfl framed_const (framed_answered (F := fun row? owner =>
      ∃ row, row? = some row ∧ row.accountId = owner)) ?_) fun answer => ?_
  · rintro g ch answer taken ws - - - he
    obtain ⟨rfl, ⟨rfl, rfl⟩ | ⟨row, hrow, rfl, rfl⟩⟩ := selectChainForUpdate_ok he
    · exact ⟨rfl, fun _ h => absurd h (by simp), by simp, by simp⟩
    · exact ⟨rfl, fun owner ho => ⟨row, hrow, Option.some.inj ho⟩, by simp, by simp⟩
  · cases answer with
    | none =>
      exact spec_throw (stable_held fun _ _ _ _ _ h => absurd h (by simp)) fun _ _ h => h.fresh
    | some owner =>
      refine spec_pure (stable_held (framed_answered (F := fun row? owner =>
        ∃ row, row? = some row ∧ row.accountId = owner) (some owner))) fun l g h => ?_
      exact under_mono (fun db hdb => hdb owner rfl) h

theorem spec_insertOrLockChain : x.Spec p (Under p now [] (fun _ => True) [])
    (insertOrLockChain account c)
    (fun owner l g => ∃ log, Under p now [.chain c]
      (fun db => Found (db.chain? c) account c owner log) log l g)
    fun _ => Fresh p := by
  have hG := framed_answered (c := c) (F := fun row? owner => owner = some account ∧ row? = none)
  refine spec_bind (fun _ => steady_fresh) (spec_locks (s := .insertChainOnConflict c account)
    (K := fun answer : Option (Option Uuid) => if answer.isSome then [Key.chain c] else [])
    (G := fun (answer : Option (Option Uuid)) db => ∀ owner, answer = some owner →
      owner = some account ∧ db.chain? c = none)
    (W := fun answer : Option (Option Uuid) =>
      if answer.isSome then [Write.insertChain ⟨c, none, some account⟩] else [])
    rfl framed_const hG ?_) fun answer => ?_
  · rintro g ch answer taken ws - - - he
    obtain ⟨rfl, rfl, rfl, -⟩ | ⟨rfl, rfl, rfl, hrow⟩ := insertChainOnConflict_ok he
    · exact ⟨rfl, fun _ h => absurd h (by simp), by simp, by simp⟩
    · exact ⟨rfl, fun owner ho => ⟨(Option.some.inj ho).symm, hrow⟩, by simp,
        by simp [Write.keys]⟩
  · cases answer with
    | none =>
      refine spec_post (spec_pre (fun l g h _ => under_mono (fun _ _ => trivial) h)
        spec_lockChain) ?_ fun _ _ h => h
      intro owner l g h
      refine ⟨[], under_mono ?_ h⟩
      rintro db ⟨row, hrow, rfl⟩
      exact .locked hrow
    | some owner =>
      refine spec_pure (stable_held (hG (some owner))) fun l g h => ?_
      obtain ⟨rfl, -⟩ := h.fact owner rfl
      exact ⟨_, under_mono (fun db hdb => .created (hdb _ rfl).2) h⟩

theorem spec_claimChain {owner : Option Uuid} {log : List Write} :
    x.Spec p (Under p now [.chain c] (fun db => Found (db.chain? c) account c owner log) log)
      (claimChain account c owner)
      (fun _ l g => ∃ chainLog, Under p now [.chain c]
        (fun db => Access (db.chain? c) account c chainLog) chainLog l g)
      fun _ => Fresh p := by
  cases owner with
  | some owner =>
    refine spec_post (spec_requireUnder (framed_found _ _)) ?_ fun _ _ h => h
    intro _ l g h
    refine ⟨log, under_mono ?_ h⟩
    rintro db ⟨hfound, hown⟩
    obtain rfl : owner = account := by simpa using hown
    generalize howner : some owner = answer at hfound
    cases hfound with
    | created hnone => exact .created hnone
    | locked hrow => exact .owned hrow howner.symm
  | none =>
    refine spec_post (spec_locks (s := .updateChainAccount account c)
      (K := fun _ => [Key.chain c]) (G := fun _ db =>
        Access (db.chain? c) account c [.setChainAccount c account] ∧ log = [])
      (W := fun _ => [.setChainAccount c account]) rfl (framed_found _ _)
      (fun _ => (framed_access _).and framed_const) ?_) ?_ fun _ _ h => h
    · rintro g ch answer taken ws hfound - - he
      generalize howner : (none : Option Uuid) = free at hfound
      cases hfound with
      | created hnone => exact absurd howner (by simp)
      | locked hrow =>
        obtain ⟨rfl, rfl⟩ := updateChainAccount_ok hrow he
        exact ⟨rfl, ⟨.adopted hrow howner.symm, rfl⟩, by simp, by simp [Write.keys]⟩
    · intro _ l g h
      obtain ⟨-, rfl⟩ := h.fact
      exact ⟨_, under_mono (fun _ h => h.1) h⟩

/-- **`ensure_chain_access_in_tx` leaves the chain locked.** -/
theorem spec_ensureChainAccessInTx : x.Spec p (Under p now [] (fun _ => True) [])
    (ensureChainAccessInTx account c)
    (fun _ l g => ∃ chainLog, Under p now [.chain c]
      (fun db => Access (db.chain? c) account c chainLog) chainLog l g)
    fun _ => Fresh p :=
  spec_bind (fun _ => steady_fresh) spec_insertOrLockChain fun _ =>
    spec_exists fun _ => spec_claimChain

end EvidentLedger.Ledger
