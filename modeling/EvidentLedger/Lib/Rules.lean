import EvidentLedger.Lib.Transaction

/-!
# Rules for programs of transactions

What the calls of a program owe to the others, and what the others leave to it.

* `Rely`: the others take and release locks of their own, leave the rows under my locks alone, and
  commit in their own name.
* The rules `triple_begin`, `triple_sql`, `triple_pool`, `triple_commit`, `triple_rollback` and
  `triple_ask` discharge what a step owes to the others once and for all: a program proves the
  invariant at its commits, and that it holds the keys of its writes. An error postcondition learns
  why the statement failed.
* `Spec` is a triple of a program with early returns, with a rule for each of its constructs.
-/

namespace Lib.Transaction

open Lib.Interleave

variable {S : Schema}

/-! ## The discipline -/

/-- What the others do between my statements. -/
structure Rely (p : Nat) (g g' : Shared S) : Prop where
  locks : ∀ k, g.holder k = some p ↔ g'.holder k = some p
  rows : ∀ k, g.holder k = some p → S.same k g.db g'.db
  own : writesOf p g'.history = writesOf p g.history
  history : g.history <+: g'.history

/-- The discipline of the database: `Inv` is the invariant of the committed tables and the history
that a development keeps at its commits. -/
def discipline (Inv : S.Db → History S → Prop) : Discipline (Shared S) where
  Inv g := Inv g.db g.history
  Rely p g g' := Rely p g g'
  refl _ g := ⟨fun _ => Iff.rfl, fun k _ => S.same_refl k g.db, rfl, List.prefix_refl _⟩
  trans h h' := ⟨fun k => (h.locks k).trans (h'.locks k),
    fun k hk => S.same_trans (h.rows k hk) (h'.rows k ((h.locks k).mp hk)),
    h'.own.trans h.own, h.history.trans h'.history⟩

variable {Inv : S.Db → History S → Prop} {p : Nat} {g g' : Shared S}

/-- The tables and the history stay, and so do the locks of the others. -/
theorem keeps_of_locks (hdb : g'.db = g.db) (hh : g'.history = g.history)
    (hl : ∀ j, j ≠ p → ∀ k, g.holder k = some j ↔ g'.holder k = some j)
    (hi : (discipline Inv).Inv g) : (discipline Inv).Keeps p g g' := by
  refine ⟨?_, fun j hj => ⟨hl j hj, fun k _ => ?_, by rw [hh], hh ▸ List.prefix_refl _⟩⟩
  · change Inv g'.db g'.history
    rw [hdb, hh]
    exact hi
  · rw [hdb]
    exact S.same_refl k g.db

theorem keeps_self (hi : (discipline Inv).Inv g) : (discipline Inv).Keeps p g g :=
  keeps_of_locks rfl rfl (fun _ _ _ => Iff.rfl) hi

theorem keeps_release (hi : (discipline Inv).Inv g) : (discipline Inv).Keeps p g (g.release p) :=
  keeps_of_locks rfl rfl (fun _ hj k => release_other hj k) hi

/-- Taking locks that nobody else holds. -/
theorem keeps_acquire {keys : List S.Key} (hk : ∀ k ∈ keys, g.waits p k = false)
    (hi : (discipline Inv).Inv g) : (discipline Inv).Keeps p g (g.acquire p keys) := by
  refine keeps_of_locks rfl rfl (fun j hj k => ?_) hi
  rw [acquire_holder]
  split_ifs with h
  · rcases waits_eq_false.mp (hk k h) with h0 | h0
    · simp [h0, hj.symm]
    · rw [h0]
  · rfl

/-- Installing writes whose keys nobody else holds. -/
theorem keeps_install {log : List S.Write}
    (hk : ∀ w ∈ log, ∀ k ∈ S.keys w, g.waits p k = false)
    (hi : Inv (replay log g.db) (record p log g.history)) :
    (discipline Inv).Keeps p g (g.install p log) := by
  refine ⟨hi, fun j hj => ⟨fun _ => Iff.rfl, fun k hkj => same_replay fun w hw hkw => ?_, ?_,
    record_prefix p log g.history⟩⟩
  · rcases waits_eq_false.mp (hk w hw k hkw) with h0 | h0
    · rw [h0] at hkj; exact absurd hkj (by simp)
    · rw [h0] at hkj; exact hj (Option.some.inj hkj).symm
  · rw [install_history, writesOf_record, if_neg hj.symm, List.append_nil]

theorem keeps_trans {g'' : Shared S} (h : (discipline Inv).Keeps p g g')
    (h' : (discipline Inv).Keeps p g' g'') : (discipline Inv).Keeps p g g'' :=
  ⟨h'.1, fun j hj => (discipline Inv).trans (h.2 j hj) (h'.2 j hj)⟩

/-! ## Assertions -/

/-- The transaction holds the keys of its writes. -/
def Owned (p : Nat) (tx : Tx S) (g : Shared S) : Prop :=
  ∀ w ∈ tx.log, ∀ k ∈ S.keys w, g.holder k = some p

/-- Inside a transaction. -/
def InTx (p : Nat) (P : Tx S → Shared S → Prop) (l : Local S) (g : Shared S) : Prop :=
  ∃ tx, l = some tx ∧ tx.aborted = false ∧ Owned p tx g ∧ P tx g

/-- Of the shared state alone. -/
def Outside (P : Shared S → Prop) (_ : Local S) (g : Shared S) : Prop := P g

/-- `Post` of a value, `E` of an error and the shared state. -/
def Returns {ε α : Type} (Post : α → Local S → Shared S → Prop) (E : ε → Shared S → Prop) :
    Except ε α → Local S → Shared S → Prop
  | .ok a, l, g => Post a l g
  | .error e, _, g => E e g

variable (Inv p) in
/-- The others cannot break it. -/
def Steady (P : Shared S → Prop) : Prop :=
  ∀ g g', P g → Inv g.db g.history → Rely p g g' → Inv g'.db g'.history → P g'

theorem stable_outside {P : Shared S → Prop} (h : Steady Inv p P) :
    Stable (discipline Inv) p (Outside P) :=
  fun _ g g' hp hi hr hi' => h g g' hp hi hr hi'

theorem stable_inTx {P : Tx S → Shared S → Prop} (h : ∀ tx, Steady Inv p (P tx)) :
    Stable (discipline Inv) p (InTx p P) := by
  rintro l g g' ⟨tx, rfl, ha, ho, hp⟩ hi hr hi'
  exact ⟨tx, rfl, ha, fun w hw k hk => (hr.locks k).mp (ho w hw k hk), h tx g g' hp hi hr hi'⟩

theorem stable_exists {ι : Type} {P : ι → Local S → Shared S → Prop}
    (h : ∀ i, Stable (discipline Inv) p (P i)) :
    Stable (discipline Inv) p fun l g => ∃ i, P i l g := by
  rintro l g g' ⟨i, hp⟩ hi hr hi'
  exact ⟨i, h i l g g' hp hi hr hi'⟩

/-- What a program has committed is its own business. -/
theorem steady_own {P : List S.Write → Prop} :
    Steady Inv p fun g : Shared S => P (writesOf p g.history) :=
  fun _ _ hp _ hr _ => (congrArg P hr.own).mpr hp

/-- The past stays. -/
theorem steady_past {P : History S → Prop} (hP : ∀ h h', h <+: h' → P h → P h') :
    Steady Inv p fun g : Shared S => P g.history :=
  fun _ _ hp _ hr _ => hP _ _ hr.history hp

theorem steady_and {P P' : Shared S → Prop} (h : Steady Inv p P) (h' : Steady Inv p P') :
    Steady Inv p fun g => P g ∧ P' g :=
  fun g g' hp hi hr hi' => ⟨h g g' hp.1 hi hr hi', h' g g' hp.2 hi hr hi'⟩

theorem steady_or {P P' : Shared S → Prop} (h : Steady Inv p P) (h' : Steady Inv p P') :
    Steady Inv p fun g => P g ∨ P' g :=
  fun g g' hp hi hr hi' => hp.imp (h g g' · hi hr hi') (h' g g' · hi hr hi')

theorem steady_exists {ι : Type} {P : ι → Shared S → Prop} (h : ∀ i, Steady Inv p (P i)) :
    Steady Inv p fun g => ∃ i, P i g :=
  fun g g' ⟨i, hp⟩ hi hr hi' => ⟨i, h i g g' hp hi hr hi'⟩

theorem steady_const {P : Prop} : Steady Inv p fun _ : Shared S => P := fun _ _ hp _ _ _ => hp

/-! ## Rules -/

variable {admits : Nat → S.Choice → Call S → Shared S → Bool}
  {ok : Nat → Call S → Shared S → Prop} {P : Tx S → Shared S → Prop} {P₀ : Shared S → Prop}

/-- Why a statement fails: the connection did, or the statement on the tables it sees. -/
def Refused (admits : Nat → S.Choice → Call S → Shared S → Bool) (p : Nat) (s : S.Sql) (now : Int)
    (db : S.Db) (g : Shared S) (e : DbError) : Prop :=
  ∃ c, admits p c (.sql s) g = true ∧
    (S.fails c = true ∧ e = .io ∨ S.effect s (g.waits p) c now db = some (.error e))

/-- The same on the pool, at the time of the statement. -/
def RefusedOnPool (admits : Nat → S.Choice → Call S → Shared S → Bool) (p : Nat) (s : S.Sql)
    (g : Shared S) (e : DbError) : Prop :=
  ∃ c, admits p c (.sql s) g = true ∧
    (S.fails c = true ∧ e = .io ∨ S.effect s (g.waits p) c (S.time c) g.db = some (.error e))

/-- **`begin`.** -/
theorem triple_begin {E : DbError → Shared S → Prop} (hst : Steady Inv p P₀)
    (hP : ∀ tx, Steady Inv p (P tx)) (hE : ∀ e, Steady Inv p (E e))
    (h : ∀ c g, P₀ g → admits p c .begin g = true → P ⟨[], S.time c, false⟩ g)
    (herr : ∀ c g, P₀ g → admits p c .begin g = true → S.fails c = true → E .io g) :
    Triple ((system S).restrict admits) ok (discipline Inv) p (Outside P₀) (Prog.call Call.begin)
      (Returns (fun _ => InTx p P) E) := by
  refine triple_call (stable_outside hst) (fun r => ?_) fun l g c r g' l' hp hi _ he => ?_
  · cases r with
    | ok _ => exact stable_inTx hP
    | error e => exact stable_outside (hE e)
  · obtain ⟨hadm, he⟩ := System.exec_of_restrict he
    have he' : (if S.fails c then some (.error .io, g, l)
        else some (.ok (), g, some ⟨[], S.time c, false⟩)) = some (r, g', l') := he
    split_ifs at he' with hf
    · obtain ⟨rfl, rfl, rfl⟩ := he'
      exact ⟨keeps_self hi, herr c g hp hadm hf⟩
    · obtain ⟨rfl, rfl, rfl⟩ := he'
      exact ⟨keeps_self hi, _, rfl, rfl, fun w hw => absurd hw (by simp), h c g hp hadm⟩

/-- **`rollback`**, also where the transaction was never opened. -/
theorem triple_rollback {Pre : Local S → Shared S → Prop} (hst : Stable (discipline Inv) p Pre)
    (hP : Steady Inv p P₀) (h : ∀ l g, Pre l g → Inv g.db g.history → P₀ (g.release p)) :
    Triple ((system S).restrict admits) ok (discipline Inv) p Pre (Prog.call Call.rollback)
      fun _ => Outside P₀ := by
  refine triple_call hst (fun _ => stable_outside hP) fun l g c r g' l' hp hi _ he => ?_
  obtain ⟨-, he⟩ := System.exec_of_restrict he
  have he' : some ((), g.release p, (none : Local S)) = some (r, g', l') := he
  obtain ⟨-, rfl, rfl⟩ := he'
  exact ⟨keeps_release hi, h _ _ hp hi⟩

/-- **`commit`**: the invariant is proved of the tables after the replay. -/
theorem triple_commit {Q : Shared S → Prop} {E : DbError → Shared S → Prop}
    (hP : ∀ tx, Steady Inv p (P tx)) (hQ : Steady Inv p Q) (hE : ∀ e, Steady Inv p (E e))
    (hok : ∀ tx g, P tx g → Inv g.db g.history →
      Inv (replay tx.log g.db) (record p tx.log g.history) ∧ Q ((g.install p tx.log).release p))
    (herr : ∀ tx g c, P tx g → admits p c .commit g = true → S.fails c = true →
      E .io (g.release p)) :
    Triple ((system S).restrict admits) ok (discipline Inv) p (InTx p P) (Prog.call Call.commit)
      (Returns (fun _ => Outside Q) E) := by
  refine triple_call (stable_inTx hP) (fun r => ?_) fun l g c r g' l' hp hi _ he => ?_
  · cases r with
    | ok _ => exact stable_outside hQ
    | error e => exact stable_outside (hE e)
  · obtain ⟨hadm, he⟩ := System.exec_of_restrict he
    obtain ⟨tx, rfl, ha, ho, hp⟩ := hp
    have he' : (if S.fails c then some (.error .io, g.release p, none)
        else if tx.aborted then some (.ok (), g.release p, none)
        else some (.ok (), (g.install p tx.log).release p, none)) = some (r, g', l') := he
    simp only [ha, Bool.false_eq_true, if_false] at he'
    split_ifs at he' with hf
    · obtain ⟨rfl, rfl, rfl⟩ := he'
      exact ⟨keeps_release hi, herr tx g c hp hadm hf⟩
    · obtain ⟨rfl, rfl, rfl⟩ := he'
      obtain ⟨hinv, hq⟩ := hok tx g hp hi
      have hk : (discipline Inv).Keeps p g (g.install p tx.log) :=
        keeps_install (fun w hw k hkw => waits_eq_false.mpr (Or.inr (ho w hw k hkw))) hinv
      exact ⟨keeps_trans hk (keeps_release hk.1), hq⟩

/-- **A statement inside the transaction**: its writes are under keys it locks or that are held. -/
theorem triple_sql {s : S.Sql} {Q : S.Res s → Tx S → Shared S → Prop}
    {E : DbError → Shared S → Prop} (hs : S.onPool s = false) (hP : ∀ tx, Steady Inv p (P tx))
    (hQ : ∀ a tx, Steady Inv p (Q a tx)) (hE : ∀ e, Steady Inv p (E e))
    (hok : ∀ tx g c a ks ws, P tx g → Inv g.db g.history → ok p (.sql s) g →
      S.effect s (g.waits p) c tx.now (view tx g) = some (.ok (a, ks, ws)) →
        (∀ w ∈ ws, ∀ k ∈ S.keys w, k ∈ ks ∨ g.holder k = some p) ∧
          Q a { tx with log := tx.log ++ ws } (g.acquire p ks))
    (herr : ∀ tx g e, P tx g → Inv g.db g.history → Refused admits p s tx.now (view tx g) g e →
      E e g) :
    Triple ((system S).restrict admits) ok (discipline Inv) p (InTx p P) (Prog.call (Call.sql s))
      (Returns (fun a => InTx p (Q a)) E) := by
  refine triple_call (stable_inTx hP) (fun r => ?_) fun l g c r g' l' hp hi hq he => ?_
  · cases r with
    | ok a => exact stable_inTx (hQ a)
    | error e => exact stable_outside (hE e)
  · obtain ⟨hadm, he⟩ := System.exec_of_restrict he
    obtain ⟨⟨log, now, aborted⟩, rfl, ha, ho, hp⟩ := hp
    obtain rfl : aborted = false := ha
    have he' : execTx p c s g ⟨log, now, false⟩ = some (r, g', l') := (exec_sql_tx hs).symm.trans he
    rcases execTx_cases he' with ⟨a, ks, ws, heff, rfl, rfl, rfl⟩ | ⟨e, rfl, rfl, -, hwhy⟩
    · obtain ⟨hkeys, hres⟩ := hok _ g c a ks ws hp hi hq heff
      refine ⟨keeps_acquire (S.effect_waits heff) hi, _, rfl, rfl, ?_, hres⟩
      intro w hw k hk
      rcases List.mem_append.mp hw with hw | hw
      · exact acquire_held (ho w hw k hk)
      · rcases hkeys w hw k hk with h | h
        · rw [acquire_holder, if_pos h]
        · exact acquire_held h
    · rw [Bool.or_false] at hwhy
      exact ⟨keeps_self hi, herr _ g' e hp hi ⟨c, hadm, hwhy⟩⟩

/-- **A statement on the pool.** -/
theorem triple_pool {s : S.Sql} {Q : S.Res s → Shared S → Prop} {E : DbError → Shared S → Prop}
    (hs : S.onPool s = true) (hP : Steady Inv p P₀) (hQ : ∀ a, Steady Inv p (Q a))
    (hE : ∀ e, Steady Inv p (E e))
    (hok : ∀ g c a ks ws, P₀ g → Inv g.db g.history → ok p (.sql s) g →
      S.effect s (g.waits p) c (S.time c) g.db = some (.ok (a, ks, ws)) →
        Inv (replay ws g.db) (record p ws g.history) ∧ Q a (g.install p ws))
    (herr : ∀ g e, P₀ g → Inv g.db g.history → RefusedOnPool admits p s g e → E e g) :
    Triple ((system S).restrict admits) ok (discipline Inv) p (Outside P₀) (Prog.call (Call.sql s))
      (Returns (fun a => Outside (Q a)) E) := by
  refine triple_call (stable_outside hP) (fun r => ?_) fun l g c r g' l' hp hi hq he => ?_
  · cases r with
    | ok a => exact stable_outside (hQ a)
    | error e => exact stable_outside (hE e)
  · obtain ⟨hadm, he⟩ := System.exec_of_restrict he
    have he' : execPool p c s g l = some (r, g', l') := (exec_sql_pool hs).symm.trans he
    unfold execPool at he'
    split_ifs at he' with hf
    · obtain ⟨rfl, rfl, rfl⟩ := he'
      exact ⟨keeps_self hi, herr g _ hp hi ⟨c, hadm, Or.inl ⟨hf, rfl⟩⟩⟩
    · cases heff : S.effect s (g.waits p) c (S.time c) g.db with
      | none => rw [heff] at he'; exact absurd he' (by simp)
      | some out =>
        rw [heff] at he'
        cases out with
        | error e =>
          obtain ⟨rfl, rfl, rfl⟩ := he'
          exact ⟨keeps_self hi, herr g e hp hi ⟨c, hadm, Or.inr heff⟩⟩
        | ok out =>
          obtain ⟨a, ks, ws⟩ := out
          obtain ⟨rfl, rfl, rfl⟩ := he'
          obtain ⟨hinv, hres⟩ := hok g c a ks ws hp hi hq heff
          exact ⟨keeps_install (S.effect_pool hs heff) hinv, hres⟩

/-- **A read on the pool**, inside or outside a transaction: everything stays. -/
theorem triple_poolRead {s : S.Sql} {Pre : Local S → Shared S → Prop}
    {Q : S.Res s → Local S → Shared S → Prop} {E : DbError → Shared S → Prop}
    (hs : S.onPool s = true) (hst : Stable (discipline Inv) p Pre)
    (hQ : ∀ a, Stable (discipline Inv) p (Q a)) (hE : ∀ e, Steady Inv p (E e))
    (hok : ∀ l g c a ks ws, Pre l g → Inv g.db g.history → ok p (.sql s) g →
      S.effect s (g.waits p) c (S.time c) g.db = some (.ok (a, ks, ws)) → ws = [] ∧ Q a l g)
    (herr : ∀ l g e, Pre l g → Inv g.db g.history → RefusedOnPool admits p s g e → E e g) :
    Triple ((system S).restrict admits) ok (discipline Inv) p Pre (Prog.call (Call.sql s))
      (Returns Q E) := by
  refine triple_call hst (fun r => ?_) fun l g c r g' l' hp hi hq he => ?_
  · cases r with
    | ok a => exact hQ a
    | error e => exact stable_outside (hE e)
  · obtain ⟨hadm, he⟩ := System.exec_of_restrict he
    have he' : execPool p c s g l = some (r, g', l') := (exec_sql_pool hs).symm.trans he
    unfold execPool at he'
    split_ifs at he' with hf
    · obtain ⟨rfl, rfl, rfl⟩ := he'
      exact ⟨keeps_self hi, herr l g _ hp hi ⟨c, hadm, Or.inl ⟨hf, rfl⟩⟩⟩
    · cases heff : S.effect s (g.waits p) c (S.time c) g.db with
      | none => rw [heff] at he'; exact absurd he' (by simp)
      | some out =>
        rw [heff] at he'
        cases out with
        | error e =>
          obtain ⟨rfl, rfl, rfl⟩ := he'
          exact ⟨keeps_self hi, herr l g e hp hi ⟨c, hadm, Or.inr heff⟩⟩
        | ok out =>
          obtain ⟨a, ks, ws⟩ := out
          obtain ⟨rfl, rfl, rfl⟩ := he'
          obtain ⟨rfl, hres⟩ := hok l g c a ks ws hp hi hq heff
          exact ⟨keeps_self hi, hres⟩

/-- **A question to the outside.** -/
theorem triple_ask {a : S.Ask} {Pre : Local S → Shared S → Prop}
    (hst : Stable (discipline Inv) p Pre) :
    Triple ((system S).restrict admits) ok (discipline Inv) p Pre (Prog.call (Call.ask a))
      fun r l g => Pre l g ∧ ∃ c, r = S.answer c a := by
  refine triple_call hst (fun r => ?_) fun l g c r g' l' hp hi hq he => ?_
  · exact fun l g g' hp hi hr hi' => ⟨hst l g g' hp.1 hi hr hi', hp.2⟩
  · obtain ⟨-, he⟩ := System.exec_of_restrict he
    have he' : some (S.answer c a, g, l) = some (r, g', l') := he
    obtain ⟨rfl, rfl, rfl⟩ := he'
    exact ⟨keeps_self hi, hp, c, rfl⟩

/-! ## Programs with early returns -/

/-- A program that may end early with an error. -/
abbrev Program (S : Schema) (ε α : Type) := ExceptT ε (Prog (Call.Answer (S := S))) α

section Early

variable {ε ε' α β : Type}

/-- A call whose failure ends the program with the mapped error. -/
def attempt (f : DbError → ε) (prog : Prog (Call.Answer (S := S)) (Except DbError α)) :
    Program S ε α :=
  ExceptT.mk (prog >>= fun r => pure (r.mapError f))

/-- A statement, `begin`, `commit`, `rollback`, and a question to the outside. -/
def sql (f : DbError → ε) (s : S.Sql) : Program S ε (S.Res s) :=
  attempt f (Prog.call (Call.sql s))

def beginTx (f : DbError → ε) : Program S ε Unit := attempt f (Prog.call Call.begin)

def commitTx (f : DbError → ε) : Program S ε Unit := attempt f (Prog.call Call.commit)

def rollbackTx : Program S ε Unit := ExceptT.lift (Prog.call Call.rollback)

def ask (a : S.Ask) : Program S ε (S.Ans a) := ExceptT.lift (Prog.call (Call.ask a))

/-- An open transaction is dropped, and so rolled back, where the program ends early. -/
def orRollback (prog : Program S ε α) : Program S ε α :=
  ExceptT.mk do
    match ← prog.run with
    | .ok a => pure (.ok a)
    | .error e =>
      Prog.call Call.rollback
      pure (.error e)

/-- An early return unless the condition holds. -/
def require (b : Bool) (e : ε) : Program S ε Unit := if b then pure () else throw e

/-- Safe under a precondition: `Post` of a value, `E` of the error where the program ends early. -/
def Spec (admits : Nat → S.Choice → Call S → Shared S → Bool) (ok : Nat → Call S → Shared S → Prop)
    (Inv : S.Db → History S → Prop) (p : Nat) (Pre : Local S → Shared S → Prop)
    (prog : Program S ε α) (Post : α → Local S → Shared S → Prop) (E : ε → Shared S → Prop) :
    Prop :=
  Triple ((system S).restrict admits) ok (discipline Inv) p Pre prog.run (Returns Post E)

variable {Pre : Local S → Shared S → Prop} {Post : α → Local S → Shared S → Prop}
  {E : ε → Shared S → Prop}

theorem spec_pure {a : α} (hst : Stable (discipline Inv) p Pre) (h : ∀ l g, Pre l g → Post a l g) :
    Spec admits ok Inv p Pre (pure a : Program S ε α) Post E :=
  triple_ret hst fun l g hp _ => h l g hp

theorem spec_throw {e : ε} (hst : Stable (discipline Inv) p Pre) (h : ∀ l g, Pre l g → E e g) :
    Spec admits ok Inv p Pre (throw e : Program S ε α) Post E :=
  triple_ret hst fun l g hp _ => h l g hp

/-- **Sequence with early return.** -/
theorem spec_bind {M : α → Local S → Shared S → Prop} {Post : β → Local S → Shared S → Prop}
    {prog : Program S ε α} {f : α → Program S ε β} (hE : ∀ e, Steady Inv p (E e))
    (h : Spec admits ok Inv p Pre prog M E) (hf : ∀ a, Spec admits ok Inv p (M a) (f a) Post E) :
    Spec admits ok Inv p Pre (prog >>= f) Post E := by
  unfold Spec
  rw [ExceptT.run_bind]
  refine triple_bind h fun r => ?_
  cases r with
  | ok a => exact hf a
  | error e => exact triple_ret (stable_outside (hE e)) fun _ _ hp _ => hp

theorem spec_pre {P Pre' : Local S → Shared S → Prop} {prog : Program S ε α}
    (hpre : ∀ l g, Pre' l g → Inv g.db g.history → P l g)
    (h : Spec admits ok Inv p P prog Post E) : Spec admits ok Inv p Pre' prog Post E :=
  triple_pre hpre h

theorem spec_post {Post' : α → Local S → Shared S → Prop} {E' : ε → Shared S → Prop}
    {prog : Program S ε α} (h : Spec admits ok Inv p Pre prog Post E)
    (hpost : ∀ a l g, Post a l g → Post' a l g) (herr : ∀ e g, E e g → E' e g) :
    Spec admits ok Inv p Pre prog Post' E' := by
  refine triple_post h fun r l g hr => ?_
  cases r with
  | ok a => exact hpost a l g hr
  | error e => exact herr e g hr

theorem spec_exists {ι : Type} {Pre : ι → Local S → Shared S → Prop} {prog : Program S ε α}
    (h : ∀ i, Spec admits ok Inv p (Pre i) prog Post E) :
    Spec admits ok Inv p (fun l g => ∃ i, Pre i l g) prog Post E :=
  triple_exists h

theorem spec_and {P : Prop} {prog : Program S ε α} (h : P → Spec admits ok Inv p Pre prog Post E) :
    Spec admits ok Inv p (fun l g => P ∧ Pre l g) prog Post E :=
  triple_and h

/-- A failing call becomes an early return. -/
theorem spec_attempt {f : DbError → ε} {prog : Prog (Call.Answer (S := S)) (Except DbError α)}
    (hpost : ∀ a, Stable (discipline Inv) p (Post a)) (hE : ∀ e, Steady Inv p (E e))
    (h : Triple ((system S).restrict admits) ok (discipline Inv) p Pre prog
      (Returns Post fun e => E (f e))) :
    Spec admits ok Inv p Pre (attempt f prog) Post E := by
  refine triple_bind h fun r => ?_
  cases r with
  | ok a => exact triple_ret (hpost a) fun _ _ hp _ => hp
  | error e => exact triple_ret (stable_outside (hE (f e))) fun _ _ hp _ => hp

theorem spec_lift {prog : Prog (Call.Answer (S := S)) α}
    (hpost : ∀ a, Stable (discipline Inv) p (Post a))
    (h : Triple ((system S).restrict admits) ok (discipline Inv) p Pre prog Post) :
    Spec admits ok Inv p Pre (ExceptT.lift prog : Program S ε α) Post E :=
  triple_bind h fun a => triple_ret (hpost a) fun _ _ hp _ => hp

theorem spec_ask {a : S.Ask} {Post : S.Ans a → Local S → Shared S → Prop}
    (hst : Stable (discipline Inv) p Pre) (hpost : ∀ r, Stable (discipline Inv) p (Post r))
    (h : ∀ c l g, Pre l g → Post (S.answer c a) l g) :
    Spec admits ok Inv p Pre (ask a : Program S ε (S.Ans a)) Post E := by
  refine spec_lift hpost (triple_post (triple_ask hst) ?_)
  rintro r l g ⟨hp, c, rfl⟩
  exact h c l g hp

theorem spec_require {b : Bool} {e : ε} {Post : Unit → Local S → Shared S → Prop}
    (hst : Stable (discipline Inv) p Pre) (h : ∀ l g, Pre l g → b = true → Post () l g)
    (herr : ∀ l g, Pre l g → b = false → E e g) :
    Spec admits ok Inv p Pre (require b e) Post E := by
  unfold require
  cases b with
  | true => exact spec_pure hst fun l g hp => h l g hp rfl
  | false => exact spec_throw hst fun l g hp => herr l g hp rfl

/-- **Dropping the transaction on an early return.** -/
theorem spec_orRollback {E' : ε → Shared S → Prop} {prog : Program S ε α}
    (hpost : ∀ a, Stable (discipline Inv) p (Post a)) (hE : ∀ e, Steady Inv p (E e))
    (hE' : ∀ e, Steady Inv p (E' e)) (hrel : ∀ e g, E e g → E' e (g.release p))
    (h : Spec admits ok Inv p Pre prog Post E) :
    Spec admits ok Inv p Pre (orRollback prog) Post E' := by
  refine triple_bind h fun r => ?_
  cases r with
  | ok a => exact triple_ret (hpost a) fun _ _ hp _ => hp
  | error e =>
    exact triple_bind (triple_rollback (stable_outside (hE e)) (hE' e) fun _ g hp _ => hrel e g hp)
      fun _ => triple_ret (stable_outside (hE' e)) fun _ _ hp _ => hp

end Early

end Lib.Transaction
