import EvidentLedger.Lib.Interleave
import Mathlib.Tactic.SplitIfs

/-!
# READ COMMITTED transactions with row locks

A relational database under concurrent transactions, over any tables. A statement inside a
transaction reads the committed tables with the transaction's own writes on top (`view`), takes the
locks of the rows and unique keys it touches, and appends its writes to the log of the transaction.
A commit replays the log over the committed tables and releases the locks; a rollback releases them.
A statement that needs a lock of another transaction waits. A statement on the pool is a transaction
of its own. Any statement may fail, also one that waits; inside a transaction that aborts it, every
later statement fails, and its commit is a rollback.

* `Schema` gives the tables: their rows and keys, what a write does and which keys it must hold, what
  a statement does to a view (`effect`), and for each key the part of the tables that only a holder
  may change (`same`).
* `exec` is the meaning of `begin`, `commit`, `rollback`, statements, and questions to the outside
  (a clock, an identifier, another service). `history` records what was committed by whom.
* `Quiet`: nobody else holds a lock. Then a call is answered whatever it asks for.
-/

namespace Lib.Transaction

open Lib.Interleave

/-- An error of the driver: a violated constraint or another error of the server, a missing row, or
a failed connection. -/
inductive DbError where
  | database (constraint : Option String)
  | rowNotFound
  | io
  deriving Repr, DecidableEq

/-- Tables, statements and questions. -/
structure Schema where
  Db : Type
  Key : Type
  Write : Type
  Sql : Type
  Res : Sql → Type
  Ask : Type
  Ans : Ask → Type
  Choice : Type
  decKey : DecidableEq Key
  apply : Write → Db → Db
  /-- The keys a write must hold. -/
  keys : Write → List Key
  /-- The statement runs on the pool, outside any transaction. -/
  onPool : Sql → Bool
  /-- The statement on a view, given which keys are held by others: it waits, fails, or answers with
  the keys it locks and its writes. -/
  effect : (s : Sql) → (Key → Bool) → Choice → Int → Db →
    Option (Except DbError (Res s × List Key × List Write))
  answer : Choice → (a : Ask) → Ans a
  fails : Choice → Bool
  time : Choice → Int
  /-- The part of the tables under a key is the same. -/
  same : Key → Db → Db → Prop
  same_refl : ∀ k db, same k db db
  same_trans : ∀ {k db₁ db₂ db₃}, same k db₁ db₂ → same k db₂ db₃ → same k db₁ db₃
  same_apply : ∀ {k w db}, k ∉ keys w → same k db (apply w db)
  /-- What a write does under a key depends on what is there. -/
  same_congr : ∀ {k w db db'}, same k db db' → same k (apply w db) (apply w db')
  /-- A statement takes no lock that another holds. -/
  effect_waits : ∀ {s waits c now db a ks ws}, effect s waits c now db = some (.ok (a, ks, ws)) →
    ∀ k ∈ ks, waits k = false
  /-- On the pool it writes under no key that another holds. -/
  effect_pool : ∀ {s waits c now db a ks ws}, onPool s = true →
    effect s waits c now db = some (.ok (a, ks, ws)) → ∀ w ∈ ws, ∀ k ∈ keys w, waits k = false

attribute [instance] Schema.decKey

variable {S : Schema}

/-- What a program asks for. -/
inductive Call (S : Schema) where
  | begin
  | commit
  | rollback
  | sql (s : S.Sql)
  | ask (a : S.Ask)

/-- What it is told. -/
def Call.Answer : Call S → Type
  | .begin => Except DbError Unit
  | .commit => Except DbError Unit
  | .rollback => Unit
  | .sql s => Except DbError (S.Res s)
  | .ask a => S.Ans a

/-- Who committed which writes, in order. -/
abbrev History (S : Schema) := List (Nat × List S.Write)

/-- The committed tables, the locks and the history. -/
structure Shared (S : Schema) where
  db : S.Db
  holder : S.Key → Option Nat
  history : History S

/-- An open transaction. -/
structure Tx (S : Schema) where
  log : List S.Write
  /-- `now()`: the time it began. -/
  now : Int
  aborted : Bool

/-- The transaction of a program, if one is open. -/
abbrev Local (S : Schema) := Option (Tx S)

/-- The writes in order. -/
def replay (log : List S.Write) (db : S.Db) : S.Db := log.foldl (fun db w => S.apply w db) db

/-- The tables as the transaction sees them. -/
def view (tx : Tx S) (g : Shared S) : S.Db := replay tx.log g.db

/-- The writes a program has committed. -/
def writesOf (p : Nat) (h : History S) : List S.Write :=
  h.flatMap fun entry => if entry.1 = p then entry.2 else []

/-- The history with one more commit, if it wrote anything. -/
def record (p : Nat) (log : List S.Write) (h : History S) : History S :=
  if log.isEmpty then h else h ++ [(p, log)]

namespace Shared

/-- Held by another program. -/
def waits (g : Shared S) (p : Nat) (k : S.Key) : Bool :=
  match g.holder k with
  | none => false
  | some j => j != p

def acquire (g : Shared S) (p : Nat) (keys : List S.Key) : Shared S :=
  { g with holder := fun k => if k ∈ keys then some p else g.holder k }

def release (g : Shared S) (p : Nat) : Shared S :=
  { g with holder := fun k => if g.holder k = some p then none else g.holder k }

def install (g : Shared S) (p : Nat) (log : List S.Write) : Shared S :=
  { g with db := replay log g.db, history := record p log g.history }

end Shared

/-- A statement inside a transaction. -/
def execTx (p : Nat) (c : S.Choice) (s : S.Sql) (g : Shared S) (tx : Tx S) :
    Option (Except DbError (S.Res s) × Shared S × Local S) :=
  if S.fails c || tx.aborted then some (.error .io, g, some { tx with aborted := true })
  else
    match S.effect s (g.waits p) c tx.now (view tx g) with
    | none => none
    | some (.error .rowNotFound) => some (.error .rowNotFound, g, some tx)
    | some (.error e) => some (.error e, g, some { tx with aborted := true })
    | some (.ok (a, keys, writes)) =>
      some (.ok a, g.acquire p keys, some { tx with log := tx.log ++ writes })

/-- A statement on the pool. -/
def execPool (p : Nat) (c : S.Choice) (s : S.Sql) (g : Shared S) (l : Local S) :
    Option (Except DbError (S.Res s) × Shared S × Local S) :=
  if S.fails c then some (.error .io, g, l)
  else
    match S.effect s (g.waits p) c (S.time c) g.db with
    | none => none
    | some (.error e) => some (.error e, g, l)
    | some (.ok (a, _, writes)) => some (.ok a, g.install p writes, l)

/-- The meaning of a call. -/
def exec (p : Nat) (c : S.Choice) :
    (q : Call S) → Shared S → Local S → Option (q.Answer × Shared S × Local S)
  | .begin, g, l =>
    if S.fails c then some (.error .io, g, l) else some (.ok (), g, some ⟨[], S.time c, false⟩)
  | .commit, g, none => some (.error .io, g, none)
  | .commit, g, some tx =>
    if S.fails c then some (.error .io, g.release p, none)
    else if tx.aborted then some (.ok (), g.release p, none)
    else some (.ok (), (g.install p tx.log).release p, none)
  | .rollback, g, _ => some ((), g.release p, none)
  | .sql s, g, l =>
    if S.onPool s then execPool p c s g l
    else
      match l with
      | none => some (.error .io, g, none)
      | some tx => execTx p c s g tx
  | .ask a, g, l => some (S.answer c a, g, l)

/-- The database as a system of statements. -/
def system (S : Schema) : System (Call.Answer (S := S)) (Shared S) (Local S) S.Choice := ⟨exec⟩

theorem exec_sql_pool {p : Nat} {c : S.Choice} {s : S.Sql} {g : Shared S} {l : Local S}
    (hs : S.onPool s = true) : exec p c (.sql s) g l = execPool p c s g l :=
  if_pos hs

theorem exec_sql_tx {p : Nat} {c : S.Choice} {s : S.Sql} {g : Shared S} {tx : Tx S}
    (hs : S.onPool s = false) : exec p c (.sql s) g (some tx) = execTx p c s g tx :=
  if_neg (by rw [hs]; simp)

/-- **A statement inside a transaction** answers, or fails and leaves the log. -/
theorem execTx_cases {p : Nat} {c : S.Choice} {s : S.Sql} {g g' : Shared S} {tx : Tx S}
    {l' : Local S} {r : Except DbError (S.Res s)} (he : execTx p c s g tx = some (r, g', l')) :
    (∃ a ks ws, S.effect s (g.waits p) c tx.now (view tx g) = some (.ok (a, ks, ws)) ∧ r = .ok a ∧
      g' = g.acquire p ks ∧ l' = some { tx with log := tx.log ++ ws }) ∨
    (∃ e, r = .error e ∧ g' = g ∧ (∃ tx', l' = some tx' ∧ tx'.log = tx.log) ∧
      ((S.fails c || tx.aborted) = true ∧ e = .io ∨
        S.effect s (g.waits p) c tx.now (view tx g) = some (.error e))) := by
  unfold execTx at he
  split_ifs at he with hf
  · obtain ⟨rfl, rfl, rfl⟩ := he
    exact Or.inr ⟨_, rfl, rfl, ⟨_, rfl, rfl⟩, Or.inl ⟨hf, rfl⟩⟩
  · cases heff : S.effect s (g.waits p) c tx.now (view tx g) with
    | none => rw [heff] at he; exact absurd he (by simp)
    | some out =>
      rw [heff] at he
      cases out with
      | ok out =>
        obtain ⟨a, ks, ws⟩ := out
        obtain ⟨rfl, rfl, rfl⟩ := he
        exact Or.inl ⟨a, ks, ws, rfl, rfl, rfl, rfl⟩
      | error e =>
        refine Or.inr ⟨e, ?_⟩
        cases e with
        | rowNotFound | database | io =>
          obtain ⟨rfl, rfl, rfl⟩ := he
          exact ⟨rfl, rfl, ⟨_, rfl, rfl⟩, Or.inr rfl⟩

/-- **The log of a transaction** after a call: empty, or the old one with what the statement wrote. -/
theorem exec_log {p : Nat} {c : S.Choice} {q : Call S} {g g' : Shared S} {l : Local S}
    {tx' : Tx S} {r : q.Answer} (he : exec p c q g l = some (r, g', some tx')) :
    tx'.log = [] ∨ ∃ tx, l = some tx ∧ (tx'.log = tx.log ∨ ∃ s a ks ws, q = .sql s ∧
      S.effect s (g.waits p) c tx.now (view tx g) = some (.ok (a, ks, ws)) ∧
        tx'.log = tx.log ++ ws) := by
  cases q with
  | begin =>
    simp only [exec] at he
    split_ifs at he with hf
    · obtain ⟨-, -, rfl⟩ := he
      exact Or.inr ⟨tx', rfl, Or.inl rfl⟩
    · obtain ⟨-, -, rfl⟩ := he
      exact Or.inl rfl
  | commit =>
    cases l with
    | none => cases he
    | some tx =>
      simp only [exec] at he
      split_ifs at he <;> cases he
  | rollback => cases he
  | ask a =>
    obtain ⟨-, -, rfl⟩ := he
    exact Or.inr ⟨tx', rfl, Or.inl rfl⟩
  | sql s =>
    cases hs : S.onPool s with
    | true =>
      rw [exec_sql_pool hs] at he
      unfold execPool at he
      split_ifs at he
      · obtain ⟨-, -, rfl⟩ := he
        exact Or.inr ⟨tx', rfl, Or.inl rfl⟩
      · split at he
        · exact absurd he (by simp)
        · obtain ⟨-, -, rfl⟩ := he
          exact Or.inr ⟨tx', rfl, Or.inl rfl⟩
        · obtain ⟨-, -, rfl⟩ := he
          exact Or.inr ⟨tx', rfl, Or.inl rfl⟩
    | false =>
      cases l with
      | none =>
        simp only [exec, hs] at he
        cases he
      | some tx =>
        rw [exec_sql_tx hs] at he
        rcases execTx_cases he with ⟨a, ks, ws, heff, -, -, htx⟩ | ⟨e, -, -, ⟨tx'', htx, hlog⟩, -⟩
        · obtain rfl := Option.some.inj htx
          exact Or.inr ⟨tx, rfl, Or.inr ⟨s, a, ks, ws, rfl, heff, rfl⟩⟩
        · obtain rfl := Option.some.inj htx
          exact Or.inr ⟨tx, rfl, Or.inl hlog⟩

/-- Why a statement inside a transaction answers with an error. -/
theorem exec_error {p : Nat} {c : S.Choice} {s : S.Sql} {g g' : Shared S} {l l' : Local S}
    {e : DbError} (hs : S.onPool s = false)
    (he : exec p c (.sql s) g l = some (.error e, g', l')) :
    e = .io ∨ ∃ tx, l = some tx ∧
      S.effect s (g.waits p) c tx.now (view tx g) = some (.error e) := by
  cases l with
  | none =>
    simp only [exec, hs] at he
    cases he
    exact Or.inl rfl
  | some tx =>
    rw [exec_sql_tx hs] at he
    rcases execTx_cases he with ⟨a, ks, ws, -, hr, -⟩ | ⟨e', hr, -, -, hwhy⟩
    · exact absurd hr (by simp)
    · obtain rfl := Except.error.inj hr
      exact hwhy.imp And.right fun heff => ⟨tx, rfl, heff⟩

/-! ## Replays, locks and histories -/

theorem replay_append (l m : List S.Write) (db : S.Db) :
    replay (l ++ m) db = replay m (replay l db) := List.foldl_append

@[simp] theorem replay_nil (db : S.Db) : replay (S := S) [] db = db := rfl

@[simp] theorem replay_cons (w : S.Write) (l : List S.Write) (db : S.Db) :
    replay (w :: l) db = replay l (S.apply w db) := rfl

/-- Only the keys of the writes are touched. -/
theorem same_replay {k : S.Key} {log : List S.Write} {db : S.Db}
    (h : ∀ w ∈ log, k ∉ S.keys w) : S.same k db (replay log db) := by
  induction log generalizing db with
  | nil => exact S.same_refl k db
  | cons w log ih =>
    exact S.same_trans (S.same_apply (h w List.mem_cons_self))
      (ih fun w' hw' => h w' (List.mem_cons_of_mem w hw'))

theorem writesOf_append (p : Nat) (h h' : History S) :
    writesOf p (h ++ h') = writesOf p h ++ writesOf p h' := List.flatMap_append

theorem writesOf_singleton (p j : Nat) (log : List S.Write) :
    writesOf p [(j, log)] = if j = p then log else [] := by
  simp [writesOf]

theorem record_prefix (p : Nat) (log : List S.Write) (h : History S) :
    h <+: record p log h := by
  unfold record
  split_ifs
  · exact List.prefix_refl h
  · exact List.prefix_append h _

theorem writesOf_record (p j : Nat) (log : List S.Write) (h : History S) :
    writesOf j (record p log h) = writesOf j h ++ if p = j then log else [] := by
  unfold record
  split_ifs with h0 h1 h1
  · rw [List.isEmpty_iff.mp h0, List.append_nil]
  · rw [List.append_nil]
  · rw [writesOf_append, writesOf_singleton, if_pos h1]
  · rw [writesOf_append, writesOf_singleton, if_neg h1]

theorem waits_eq_false {g : Shared S} {p : Nat} {k : S.Key} :
    g.waits p k = false ↔ g.holder k = none ∨ g.holder k = some p := by
  unfold Shared.waits
  cases h : g.holder k with
  | none => simp
  | some j => simp

@[simp] theorem acquire_db (g : Shared S) (p : Nat) (keys : List S.Key) :
    (g.acquire p keys).db = g.db := rfl

@[simp] theorem acquire_history (g : Shared S) (p : Nat) (keys : List S.Key) :
    (g.acquire p keys).history = g.history := rfl

theorem acquire_holder (g : Shared S) (p : Nat) (keys : List S.Key) (k : S.Key) :
    (g.acquire p keys).holder k = if k ∈ keys then some p else g.holder k := rfl

/-- What was held stays held. -/
theorem acquire_held {g : Shared S} {p : Nat} {keys : List S.Key} {k : S.Key}
    (h : g.holder k = some p) : (g.acquire p keys).holder k = some p := by
  rw [acquire_holder, h, ite_self]

@[simp] theorem release_db (g : Shared S) (p : Nat) : (g.release p).db = g.db := rfl

@[simp] theorem release_history (g : Shared S) (p : Nat) :
    (g.release p).history = g.history := rfl

theorem release_other {g : Shared S} {p j : Nat} (hj : j ≠ p) (k : S.Key) :
    g.holder k = some j ↔ (g.release p).holder k = some j := by
  unfold Shared.release
  by_cases h : g.holder k = some p
  · simp [h, hj.symm]
  · simp [h]

@[simp] theorem install_db (g : Shared S) (p : Nat) (log : List S.Write) :
    (g.install p log).db = replay log g.db := rfl

@[simp] theorem install_history (g : Shared S) (p : Nat) (log : List S.Write) :
    (g.install p log).history = record p log g.history := rfl

@[simp] theorem install_nil (g : Shared S) (p : Nat) : g.install p [] = g := rfl

@[simp] theorem install_holder (g : Shared S) (p : Nat) (log : List S.Write) :
    (g.install p log).holder = g.holder := rfl

/-! ## Waiting -/

/-- Nobody else holds a lock. -/
def Quiet (p : Nat) (g : Shared S) : Prop := ∀ k, g.waits p k = false

theorem Quiet.acquire {p : Nat} {g : Shared S} (h : Quiet p g) (keys : List S.Key) :
    Quiet p (g.acquire p keys) := by
  intro k
  rw [waits_eq_false, acquire_holder]
  split_ifs
  · exact Or.inr rfl
  · exact waits_eq_false.mp (h k)

theorem Quiet.release {p : Nat} {g : Shared S} (h : Quiet p g) : Quiet p (g.release p) := by
  intro k
  rw [waits_eq_false]
  unfold Shared.release
  rcases waits_eq_false.mp (h k) with h0 | h0
  · exact Or.inl (by simp [h0])
  · exact Or.inl (by simp [h0])

/-- **A call waits for a lock of another**, or is answered. -/
theorem Quiet.exec (hblock : ∀ (s : S.Sql) waits c now db, S.effect s waits c now db = none →
      ∃ k, waits k = true) {p : Nat} {g : Shared S} (h : Quiet p g) (c : S.Choice) (q : Call S)
    (l : Local S) : ∃ r g' l', exec p c q g l = some (r, g', l') ∧ Quiet p g' := by
  have heff : ∀ (s : S.Sql) now db, ∃ out, S.effect s (g.waits p) c now db = some out := by
    intro s now db
    cases he : S.effect s (g.waits p) c now db with
    | some out => exact ⟨out, rfl⟩
    | none =>
      obtain ⟨k, hk⟩ := hblock _ _ _ _ _ he
      rw [h k] at hk
      exact absurd hk (by simp)
  cases q with
  | begin =>
    simp only [Lib.Transaction.exec]
    split_ifs
    · exact ⟨_, _, _, rfl, h⟩
    · exact ⟨_, _, _, rfl, h⟩
  | commit =>
    cases l with
    | none => exact ⟨_, _, _, rfl, h⟩
    | some tx =>
      simp only [Lib.Transaction.exec]
      split_ifs
      · exact ⟨_, _, _, rfl, h.release⟩
      · exact ⟨_, _, _, rfl, h.release⟩
      · refine ⟨_, _, _, rfl, Quiet.release (g := g.install p tx.log) fun k => ?_⟩
        exact waits_eq_false.mpr (waits_eq_false.mp (h k))
  | rollback => exact ⟨_, _, _, rfl, h.release⟩
  | ask a => exact ⟨_, _, _, rfl, h⟩
  | sql s =>
    cases hs : S.onPool s with
    | true =>
      rw [exec_sql_pool hs]
      unfold execPool
      obtain ⟨out, hout⟩ := heff s (S.time c) g.db
      rw [hout]
      split_ifs
      · exact ⟨_, _, _, rfl, h⟩
      · cases out with
        | error e => exact ⟨_, _, _, rfl, h⟩
        | ok out =>
          exact ⟨_, _, _, rfl, fun k => waits_eq_false.mpr (waits_eq_false.mp (h k))⟩
    | false =>
      cases l with
      | none =>
        simp only [Lib.Transaction.exec, hs]
        exact ⟨_, _, _, rfl, h⟩
      | some tx =>
        rw [exec_sql_tx hs]
        unfold execTx
        obtain ⟨out, hout⟩ := heff s tx.now (view tx g)
        rw [hout]
        split_ifs
        · exact ⟨_, _, _, rfl, h⟩
        · cases out with
          | error e =>
            cases e with
            | rowNotFound | database | io => exact ⟨_, _, _, rfl, h⟩
          | ok out => exact ⟨_, _, _, rfl, h.acquire _⟩

end Lib.Transaction
