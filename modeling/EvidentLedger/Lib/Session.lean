import EvidentLedger.Lib.Outcome
import Mathlib.Data.List.Induction

/-!
# Transactions that go on after a failure

A program may look at the error of a statement and go on: it records the failure and commits, or it
ignores it. What the transaction is worth then depends on the error. A missing row is an error of the
driver alone, and the transaction is as it was. Any other error has aborted it: every later statement
fails and its commit is a rollback.

* `tablesAfter` replays a history, and `Logged` says that the tables are the replay of the history and
  that every entry satisfies a predicate of commits. `Logged.record`, `Logged.induction` and
  `Logged.relates` are its rules.
* `Amid` is `Held` with one more assertion, about what the others leave alone without any lock
  (`steady_of_commits`). `Broken` is an aborted transaction.
* `Tries` is a triple of a program with early returns that says where the transaction stands on an
  early return. `tries_amid` is the rule of a statement; `triple_broken_sql` and `triple_broken_commit`
  are those of an aborted transaction.
-/

namespace Lib.Transaction

open Lib.Interleave

variable {S : Schema}

/-! ## Histories -/

section Histories

/-- The tables after a history. -/
def tablesAfter (db : S.Db) (h : History S) : S.Db :=
  h.foldl (fun db entry => replay entry.2 db) db

theorem tablesAfter_concat (db : S.Db) (h : History S) (p : Nat) (log : List S.Write) :
    tablesAfter db (h ++ [(p, log)]) = replay log (tablesAfter db h) := by
  unfold tablesAfter
  rw [List.foldl_append]
  rfl

theorem tablesAfter_record (db : S.Db) (p : Nat) (log : List S.Write) (h : History S) :
    tablesAfter db (record p log h) = replay log (tablesAfter db h) := by
  unfold record
  split_ifs with hlog
  · rw [List.isEmpty_iff.mp hlog, replay_nil]
  · exact tablesAfter_concat db h p log

/-- **The tables are the replay of the history**, whose entries are commits. -/
structure Logged (C : History S → Nat → List S.Write → Prop) (db₀ db : S.Db) (h : History S) :
    Prop where
  replayed : db = tablesAfter db₀ h
  commits : ∀ h' p log, h' ++ [(p, log)] <+: h → C h' p log

variable {C : History S → Nat → List S.Write → Prop} {db₀ db : S.Db} {h h' : History S} {p : Nat}
  {log : List S.Write}

theorem logged_nil : Logged C db₀ db₀ [] :=
  ⟨rfl, fun _ _ _ h => absurd (List.prefix_nil.mp h) (by simp)⟩

/-- **The history grows by commits.** -/
theorem Logged.record (hl : Logged C db₀ db h) (hc : log ≠ [] → C h p log) :
    Logged C db₀ (replay log db) (Lib.Transaction.record p log h) := by
  constructor
  · rw [tablesAfter_record, ← hl.replayed]
  · intro h' q log' hp
    unfold Lib.Transaction.record at hp
    split_ifs at hp with hempty
    · exact hl.commits h' q log' hp
    · rcases List.prefix_concat_iff.mp hp with heq | hp
      · obtain ⟨rfl, hlast⟩ := List.append_inj' heq rfl
        obtain ⟨rfl, rfl⟩ := Prod.mk.inj (List.cons.inj hlast).1
        exact hc fun hn => hempty (List.isEmpty_iff.mpr hn)
      · exact hl.commits h' q log' hp

theorem Logged.of_prefix (hl : Logged C db₀ db h) (hp : h' <+: h) :
    Logged C db₀ (tablesAfter db₀ h') h' :=
  ⟨rfl, fun h'' q log' hp' => hl.commits h'' q log' (hp'.trans hp)⟩

/-- **Induction along the commits.** -/
theorem Logged.induction {motive : History S → Prop} (hl : Logged C db₀ db h) (nil : motive [])
    (concat : ∀ h p log, Logged C db₀ (tablesAfter db₀ h) h → C h p log → motive h →
      motive (h ++ [(p, log)])) : motive h := by
  induction h using List.reverseRecOn generalizing db with
  | nil => exact nil
  | append_singleton h entry ih =>
    obtain ⟨p, log⟩ := entry
    have hinit := hl.of_prefix (List.prefix_append h [(p, log)])
    exact concat h p log hinit (hl.commits h p log (List.prefix_refl _)) (ih hinit)

/-- A relation that every commit keeps relates the tables of two moments. -/
theorem Logged.relates {R : S.Db → S.Db → Prop} (hrefl : ∀ db, R db db)
    (htrans : ∀ {a b c}, R a b → R b c → R a c)
    (hstep : ∀ h p log, Logged C db₀ (tablesAfter db₀ h) h → C h p log →
      R (tablesAfter db₀ h) (replay log (tablesAfter db₀ h)))
    (hl : Logged C db₀ db h) (hp : h' <+: h) : R (tablesAfter db₀ h') db := by
  obtain ⟨rest, rfl⟩ := hp
  rw [hl.replayed]
  induction rest using List.reverseRecOn generalizing db with
  | nil =>
    rw [List.append_nil]
    exact hrefl _
  | append_singleton rest entry ih =>
    obtain ⟨p, log⟩ := entry
    rw [← List.append_assoc] at hl ⊢
    rw [tablesAfter_concat]
    have hinit := hl.of_prefix (List.prefix_append (h' ++ rest) [(p, log)])
    exact htrans (ih hinit) (hstep _ p log hinit (hl.commits _ p log (List.prefix_refl _)))

/-- What no commit breaks is steady. -/
theorem steady_of_commits {F : S.Db → Prop} {q : Nat}
    (hstep : ∀ h p log, Logged C db₀ (tablesAfter db₀ h) h → C h p log →
      F (tablesAfter db₀ h) → F (replay log (tablesAfter db₀ h))) :
    Steady (Logged C db₀) q fun g : Shared S => F g.db := by
  intro g g' hF hi hr hi'
  have hrel : F (tablesAfter db₀ g.history) → F g'.db :=
    Logged.relates (R := fun a b => F a → F b) (fun _ h => h) (fun h h' ha => h' (h ha)) hstep hi'
      hr.history
  rw [← hi.replayed] at hrel
  exact hrel hF

/-- What stays true as the history grows. -/
def Upward (Φ : History S → Prop) : Prop := ∀ h h', h <+: h' → Φ h → Φ h'

variable {Φ Φ' : History S → Prop}

theorem upward_const {A : Prop} : Upward (S := S) fun _ => A := fun _ _ _ ha => ha

theorem Upward.and (hΦ : Upward Φ) (hΦ' : Upward Φ') : Upward fun h => Φ h ∧ Φ' h :=
  fun h h' hp ha => ⟨hΦ h h' hp ha.1, hΦ' h h' hp ha.2⟩

/-- The past of some moment, looked at later. -/
theorem upward_past {P : History S → Prop} : Upward fun h => ∃ h', h' <+: h ∧ P h' :=
  fun _ _ hp ⟨h₀, hp₀, hP⟩ => ⟨h₀, hp₀.trans hp, hP⟩

theorem Upward.steady {Inv : S.Db → History S → Prop} {q : Nat} (hΦ : Upward Φ) :
    Steady Inv q fun g : Shared S => Φ g.history :=
  steady_past hΦ

end Histories

/-! ## Where a transaction stands -/

variable {Inv : S.Db → History S → Prop} {p : Nat} {now : Int} {ks : List S.Key} {F : S.Db → Prop}
  {P P' : Shared S → Prop} {log : List S.Write}

/-- Inside the first transaction of a program, with these locks and writes, and `P` besides. -/
def Amid (p : Nat) (now : Int) (ks : List S.Key) (F : S.Db → Prop) (P : Shared S → Prop)
    (log : List S.Write) : Local S → Shared S → Prop :=
  InTx p fun tx g => Held p now ks F log tx g ∧ P g

/-- The transaction is aborted. -/
def Broken (P : Shared S → Prop) (l : Local S) (g : Shared S) : Prop :=
  (∃ tx, l = some tx ∧ tx.aborted = true) ∧ P g

theorem steady_amid (hF : Framed ks F) (hP : Steady Inv p P) (tx : Tx S) :
    Steady Inv p fun g => Held p now ks F log tx g ∧ P g :=
  steady_and (steady_held hF tx) hP

theorem stable_amid (hF : Framed ks F) (hP : Steady Inv p P) :
    Stable (discipline Inv) p (Amid p now ks F P log) :=
  stable_inTx (steady_amid hF hP)

theorem stable_broken (hP : Steady Inv p P) : Stable (discipline Inv) p (Broken P) :=
  fun _ g g' h hi hr hi' => ⟨h.1, hP g g' h.2 hi hr hi'⟩

theorem stable_or {A B : Local S → Shared S → Prop} (hA : Stable (discipline Inv) p A)
    (hB : Stable (discipline Inv) p B) : Stable (discipline Inv) p fun l g => A l g ∨ B l g :=
  fun l g g' h hi hr hi' => h.imp (hA l g g' · hi hr hi') (hB l g g' · hi hr hi')

theorem stable_and {A : Prop} {B : Local S → Shared S → Prop} (hB : Stable (discipline Inv) p B) :
    Stable (discipline Inv) p fun l g => A ∧ B l g :=
  fun l g g' h hi hr hi' => ⟨h.1, hB l g g' h.2 hi hr hi'⟩

theorem Amid.fresh {l : Local S} {g : Shared S} (h : Amid p now ks F P log l g) :
    writesOf p g.history = [] := by
  obtain ⟨tx, -, -, -, hheld, -⟩ := h
  exact hheld.fresh

theorem Amid.fact {l : Local S} {g : Shared S} (h : Amid p now ks F P log l g) : F g.db := by
  obtain ⟨tx, -, -, -, hheld, -⟩ := h
  exact hheld.fact

theorem Amid.also {l : Local S} {g : Shared S} (h : Amid p now ks F P log l g) : P g := by
  obtain ⟨tx, -, -, -, -, hP⟩ := h
  exact hP

/-- Weaker facts, fewer locks. -/
theorem amid_mono {K : List S.Key} {G : S.Db → Prop} (hk : K ⊆ ks) (hF : ∀ db, F db → G db)
    (hP : ∀ g, P g → P' g) {l : Local S} {g : Shared S} (h : Amid p now ks F P log l g) :
    Amid p now K G P' log l g := by
  obtain ⟨tx, rfl, ha, ho, hheld, hP'⟩ := h
  exact ⟨tx, rfl, ha, ho, ⟨hheld.fresh, hheld.now, hheld.log, fun k hm => hheld.locks k (hk hm),
    hF _ hheld.fact⟩, hP _ hP'⟩

/-! ## Rules -/

variable {admits : Nat → S.Choice → Call S → Shared S → Bool}
  {ok : Nat → Call S → Shared S → Prop}

/-- Where a failed statement leaves the transaction: as it was, or aborted. -/
def Shaken (p : Nat) (now : Int) (ks : List S.Key) (F : S.Db → Prop) (P : Shared S → Prop)
    (log : List S.Write) (l : Local S) (g : Shared S) : Prop :=
  Amid p now ks F P log l g ∨ Broken (fun g => writesOf p g.history = [] ∧ P g) l g

theorem steady_shaken (hP : Steady Inv p P) :
    Steady Inv p fun g : Shared S => writesOf p g.history = [] ∧ P g :=
  steady_and (steady_own (P := (· = []))) hP

theorem stable_shaken (hF : Framed ks F) (hP : Steady Inv p P) :
    Stable (discipline Inv) p (Shaken p now ks F P log) :=
  stable_or (stable_amid hF hP) (stable_broken (steady_shaken hP))

theorem shaken_mono {K : List S.Key} {G : S.Db → Prop} (hk : K ⊆ ks) (hF : ∀ db, F db → G db)
    (hP : ∀ g, P g → P' g) {l : Local S} {g : Shared S} (h : Shaken p now ks F P log l g) :
    Shaken p now K G P' log l g :=
  h.imp (amid_mono hk hF hP) fun hb => ⟨hb.1, hb.2.1, hP _ hb.2.2⟩

/-- **A statement inside the transaction**, with several outcomes for one answer; after a missing row
the transaction is as it was, after any other error it is aborted. -/
theorem triple_amid {s : S.Sql} {ι : Type} {K : S.Res s → ι → List S.Key}
    {G : S.Res s → ι → S.Db → Prop} {A : S.Res s → ι → Shared S → Prop}
    {W : S.Res s → ι → List S.Write} {X : DbError → Prop} (hs : S.onPool s = false)
    (hF : Framed ks F) (hG : ∀ a i, Framed (K a i) (G a i)) (hP : Steady Inv p P)
    (hA : ∀ a i, Steady Inv p (A a i))
    (hok : ∀ (g : Shared S) c a taken ws, F g.db → P g → Inv g.db g.history → ok p (.sql s) g →
      S.effect s (g.waits p) c now (replay log g.db) = some (.ok (a, taken, ws)) →
        ∃ i, ws = W a i ∧ G a i g.db ∧ A a i (g.acquire p taken) ∧
          (∀ k ∈ K a i, k ∈ ks ∨ k ∈ taken) ∧ ∀ w ∈ ws, ∀ k ∈ S.keys w, k ∈ ks ∨ k ∈ taken)
    (herr : ∀ (g : Shared S) e, F g.db → P g → Inv g.db g.history → ok p (.sql s) g →
      (e = .io ∨ ∃ c, S.effect s (g.waits p) c now (replay log g.db) = some (.error e)) → X e) :
    Triple ((system S).restrict admits) ok (discipline Inv) p (Amid p now ks F P log)
      (Prog.call (Call.sql s)) fun r l g => match r with
        | .ok a => ∃ i, Amid p now (K a i) (G a i) (A a i) (log ++ W a i) l g
        | .error e => X e ∧ (e = .rowNotFound ∧ Amid p now ks F P log l g ∨
            Broken (fun g => writesOf p g.history = [] ∧ P g) l g) := by
  refine triple_call (stable_amid hF hP) (fun r => ?_) fun l g c r g' l' hp hi hq he => ?_
  · cases r with
    | ok a => exact stable_exists fun i => stable_amid (hG a i) (hA a i)
    | error e =>
      exact stable_and (stable_or (stable_and (stable_amid hF hP))
        (stable_broken (steady_shaken hP)))
  · obtain ⟨-, he⟩ := System.exec_of_restrict he
    obtain ⟨⟨log', now', aborted⟩, rfl, ha, ho, hheld, hP'⟩ := hp
    obtain rfl : aborted = false := ha
    obtain rfl : now' = now := hheld.now
    obtain rfl : log' = log := hheld.log
    have he' : execTx p c s g ⟨log', now', false⟩ = some (r, g', l') := (exec_sql_tx hs).symm.trans he
    unfold execTx at he'
    rw [Bool.or_false] at he'
    by_cases hf : S.fails c = true
    · rw [if_pos hf] at he'
      obtain ⟨rfl, rfl, rfl⟩ := he'
      exact ⟨keeps_self hi, herr g _ hheld.fact hP' hi hq (Or.inl rfl), Or.inr
        ⟨⟨_, rfl, rfl⟩, hheld.fresh, hP'⟩⟩
    · rw [if_neg hf] at he'
      cases heff : S.effect s (g.waits p) c now' (view ⟨log', now', false⟩ g) with
      | none =>
        rw [heff] at he'
        exact absurd he' (by simp)
      | some out =>
        rw [heff] at he'
        cases out with
        | ok out =>
          obtain ⟨a, taken, ws⟩ := out
          obtain ⟨rfl, rfl, rfl⟩ := he'
          obtain ⟨i, rfl, hG', hA', hK, hW⟩ := hok g c a taken ws hheld.fact hP' hi hq heff
          refine ⟨keeps_acquire (S.effect_waits heff) hi, i, _, rfl, rfl, ?_, ⟨hheld.fresh, rfl, rfl,
            ?_, hG'⟩, hA'⟩
          · intro w hw k hk
            rcases List.mem_append.mp hw with hw | hw
            · exact acquire_held (ho w hw k hk)
            · rcases hW w hw k hk with hk | hk
              · exact acquire_held (hheld.locks k hk)
              · rw [acquire_holder, if_pos hk]
          · intro k hk
            rcases hK k hk with hk | hk
            · exact acquire_held (hheld.locks k hk)
            · rw [acquire_holder, if_pos hk]
        | error e =>
          have hX : X e := herr g e hheld.fact hP' hi hq (Or.inr ⟨c, heff⟩)
          cases e with
          | rowNotFound =>
            obtain ⟨rfl, rfl, rfl⟩ := he'
            exact ⟨keeps_self hi, hX, Or.inl ⟨rfl, _, rfl, rfl, ho, hheld, hP'⟩⟩
          | database | io =>
            obtain ⟨rfl, rfl, rfl⟩ := he'
            exact ⟨keeps_self hi, hX, Or.inr ⟨⟨_, rfl, rfl⟩, hheld.fresh, hP'⟩⟩

/-- **A statement of an aborted transaction** fails. -/
theorem triple_broken_sql {s : S.Sql} (hs : S.onPool s = false) (hP : Steady Inv p P) :
    Triple ((system S).restrict admits) ok (discipline Inv) p (Broken P) (Prog.call (Call.sql s))
      fun r l g => (∃ e, r = .error e) ∧ Broken P l g := by
  refine triple_call (stable_broken hP) (fun _ => stable_and (stable_broken hP)) ?_
  rintro l g c r g' l' ⟨⟨⟨log, now, aborted⟩, rfl, rfl⟩, hP'⟩ hi - he
  obtain ⟨-, he⟩ := System.exec_of_restrict he
  have he' : execTx p c s g ⟨log, now, true⟩ = some (r, g', l') := (exec_sql_tx hs).symm.trans he
  unfold execTx at he'
  rw [Bool.or_true, if_pos rfl] at he'
  obtain ⟨rfl, rfl, rfl⟩ := he'
  exact ⟨keeps_self hi, ⟨_, rfl⟩, ⟨_, rfl, rfl⟩, hP'⟩

/-- **Its commit is a rollback.** -/
theorem triple_broken_commit (hP : Steady Inv p P) (hP' : Steady Inv p P')
    (h : ∀ g, P g → P' (g.release p)) :
    Triple ((system S).restrict admits) ok (discipline Inv) p (Broken P) (Prog.call Call.commit)
      fun _ => Outside P' := by
  refine triple_call (stable_broken hP) (fun _ => stable_outside hP') ?_
  rintro l g c r g' l' ⟨⟨⟨log, now, aborted⟩, rfl, rfl⟩, hg⟩ hi - he
  obtain ⟨-, he⟩ := System.exec_of_restrict he
  have he' : exec p c .commit g (some ⟨log, now, true⟩) = some (r, g', l') := he
  simp only [exec, if_true] at he'
  by_cases hf : S.fails c = true
  · rw [if_pos hf] at he'
    obtain ⟨-, rfl, -⟩ := he'
    exact ⟨keeps_release hi, h g hg⟩
  · rw [if_neg hf] at he'
    obtain ⟨-, rfl, -⟩ := he'
    exact ⟨keeps_release hi, h g hg⟩

/-- **`commit`**, failed or not. -/
theorem triple_amid_commit {Q : Except DbError Unit → Shared S → Prop} (hF : Framed ks F)
    (hP : Steady Inv p P) (hQ : ∀ r, Steady Inv p (Q r))
    (hok : ∀ g, writesOf p g.history = [] → F g.db → P g → Inv g.db g.history →
      Inv (replay log g.db) (record p log g.history) ∧ Q (.ok ()) ((g.install p log).release p))
    (herr : ∀ g, writesOf p g.history = [] → P g → Q (.error .io) (g.release p)) :
    Triple ((system S).restrict admits) ok (discipline Inv) p (Amid p now ks F P log)
      (Prog.call Call.commit) fun r => Outside (Q r) := by
  refine triple_post (triple_commit (steady_amid hF hP) (hQ (.ok ())) (fun e => hQ (.error e)) ?_ ?_)
    fun r l g h => ?_
  · rintro tx g ⟨hheld, hg⟩ hi
    obtain rfl : tx.log = log := hheld.log
    exact hok g hheld.fresh hheld.fact hg hi
  · rintro tx g c ⟨hheld, hg⟩ - -
    exact herr g hheld.fresh hg
  · cases r with
    | ok _ => exact h
    | error _ => exact h

/-- **`begin`.** -/
theorem triple_amid_begin {E : DbError → Shared S → Prop} (hP : Steady Inv p P)
    (hE : ∀ e, Steady Inv p (E e)) (herr : ∀ g, writesOf p g.history = [] → P g → E .io g) :
    Triple ((system S).restrict admits) ok (discipline Inv) p
      (Outside fun g => writesOf p g.history = [] ∧ P g) (Prog.call Call.begin)
      (Returns (fun _ l g => ∃ now, Amid p now [] (fun _ => True) P [] l g) E) := by
  have hst : ∀ tx : Tx S, Steady Inv p fun g => ∃ now, Held p now [] (fun _ => True) [] tx g ∧ P g :=
    fun tx => steady_exists fun now => steady_amid framed_const hP tx
  refine triple_post (triple_begin (steady_shaken hP) hst hE ?_ ?_) fun r l g h => ?_
  · exact fun c g h _ => ⟨_, ⟨h.1, rfl, rfl, by simp, trivial⟩, h.2⟩
  · exact fun c g h _ _ => herr g h.1 h.2
  · cases r with
    | ok _ =>
      obtain ⟨tx, rfl, ha, ho, now, h⟩ := h
      exact ⟨now, tx, rfl, ha, ho, h⟩
    | error _ => exact h

/-! ## Programs with early returns -/

section Tries

variable {ε ε' α β : Type}

/-- Safe under a precondition: `Post` of a value, `Err` of the error of an early return, each with the
transaction that is open then. -/
def Tries (admits : Nat → S.Choice → Call S → Shared S → Bool)
    (ok : Nat → Call S → Shared S → Prop) (Inv : S.Db → History S → Prop) (p : Nat)
    (Pre : Local S → Shared S → Prop) (prog : Program S ε α)
    (Post : α → Local S → Shared S → Prop) (Err : ε → Local S → Shared S → Prop) : Prop :=
  Triple ((system S).restrict admits) ok (discipline Inv) p Pre prog.run fun r l g => match r with
    | .ok a => Post a l g
    | .error e => Err e l g

variable {Pre : Local S → Shared S → Prop} {Post : α → Local S → Shared S → Prop}
  {Err : ε → Local S → Shared S → Prop}

theorem tries_pure {a : α} (hst : Stable (discipline Inv) p Pre) (h : ∀ l g, Pre l g → Post a l g) :
    Tries admits ok Inv p Pre (pure a : Program S ε α) Post Err :=
  triple_ret hst fun l g hp _ => h l g hp

theorem tries_throw {e : ε} (hst : Stable (discipline Inv) p Pre) (h : ∀ l g, Pre l g → Err e l g) :
    Tries admits ok Inv p Pre (throw e : Program S ε α) Post Err :=
  triple_ret hst fun l g hp _ => h l g hp

/-- **Sequence with early return.** -/
theorem tries_bind {M : α → Local S → Shared S → Prop} {Post : β → Local S → Shared S → Prop}
    {prog : Program S ε α} {f : α → Program S ε β} (hErr : ∀ e, Stable (discipline Inv) p (Err e))
    (h : Tries admits ok Inv p Pre prog M Err)
    (hf : ∀ a, Tries admits ok Inv p (M a) (f a) Post Err) :
    Tries admits ok Inv p Pre (prog >>= f) Post Err := by
  unfold Tries
  rw [ExceptT.run_bind]
  refine triple_bind h fun r => ?_
  cases r with
  | ok a => exact hf a
  | error e => exact triple_ret (hErr e) fun _ _ hp _ => hp

theorem tries_pre {P Pre' : Local S → Shared S → Prop} {prog : Program S ε α}
    (hpre : ∀ l g, Pre' l g → Inv g.db g.history → P l g)
    (h : Tries admits ok Inv p P prog Post Err) : Tries admits ok Inv p Pre' prog Post Err :=
  triple_pre hpre h

theorem tries_post {Post' : α → Local S → Shared S → Prop} {Err' : ε → Local S → Shared S → Prop}
    {prog : Program S ε α} (h : Tries admits ok Inv p Pre prog Post Err)
    (hpost : ∀ a l g, Post a l g → Post' a l g) (herr : ∀ e l g, Err e l g → Err' e l g) :
    Tries admits ok Inv p Pre prog Post' Err' := by
  refine triple_post h fun r l g hr => ?_
  cases r with
  | ok a => exact hpost a l g hr
  | error e => exact herr e l g hr

theorem tries_exists {ι : Type} {Pre : ι → Local S → Shared S → Prop} {prog : Program S ε α}
    (h : ∀ i, Tries admits ok Inv p (Pre i) prog Post Err) :
    Tries admits ok Inv p (fun l g => ∃ i, Pre i l g) prog Post Err :=
  triple_exists h

theorem tries_and {A : Prop} {prog : Program S ε α}
    (h : A → Tries admits ok Inv p Pre prog Post Err) :
    Tries admits ok Inv p (fun l g => A ∧ Pre l g) prog Post Err :=
  triple_and h

/-- A call whose failure ends the program with the mapped error. -/
theorem tries_attempt {f : DbError → ε} {prog : Prog (Call.Answer (S := S)) (Except DbError α)}
    (hpost : ∀ a, Stable (discipline Inv) p (Post a))
    (hErr : ∀ e, Stable (discipline Inv) p (Err e))
    (h : Triple ((system S).restrict admits) ok (discipline Inv) p Pre prog fun r l g => match r with
      | .ok a => Post a l g
      | .error e => Err (f e) l g) :
    Tries admits ok Inv p Pre (attempt f prog) Post Err := by
  refine triple_bind h fun r => ?_
  cases r with
  | ok a => exact triple_ret (hpost a) fun _ _ hp _ => hp
  | error e => exact triple_ret (hErr (f e)) fun _ _ hp _ => hp

/-- A call whose failure the program looks at itself. -/
theorem tries_lift {prog : Prog (Call.Answer (S := S)) α}
    (hpost : ∀ a, Stable (discipline Inv) p (Post a))
    (h : Triple ((system S).restrict admits) ok (discipline Inv) p Pre prog Post) :
    Tries admits ok Inv p Pre (ExceptT.lift prog : Program S ε α) Post Err :=
  triple_bind h fun a => triple_ret (hpost a) fun _ _ hp _ => hp

/-- **Dropping the transaction on an early return.** -/
theorem tries_orRollback {Q : ε → Shared S → Prop} {prog : Program S ε α}
    (hpost : ∀ a, Stable (discipline Inv) p (Post a))
    (hErr : ∀ e, Stable (discipline Inv) p (Err e)) (hQ : ∀ e, Steady Inv p (Q e))
    (hrel : ∀ e l g, Err e l g → Inv g.db g.history → Q e (g.release p))
    (h : Tries admits ok Inv p Pre prog Post Err) :
    Tries admits ok Inv p Pre (orRollback prog) Post fun e => Outside (Q e) := by
  refine triple_bind h fun r => ?_
  cases r with
  | ok a => exact triple_ret (hpost a) fun _ _ hp _ => hp
  | error e =>
    exact triple_bind (triple_rollback (hErr e) (hQ e) fun l g hp hi => hrel e l g hp hi)
      fun _ => triple_ret (stable_outside (hQ e)) fun _ _ hp _ => hp

/-- Where nothing is open on an early return, it is a `Spec`. -/
theorem spec_of_tries {E : ε → Shared S → Prop} {prog : Program S ε α}
    (h : Tries admits ok Inv p Pre prog Post fun e => Outside (E e)) :
    Spec admits ok Inv p Pre prog Post E := by
  refine triple_post h fun r l g hr => ?_
  cases r with
  | ok a => exact hr
  | error e => exact hr

theorem tries_of_spec {E : ε → Shared S → Prop} {prog : Program S ε α}
    (h : Spec admits ok Inv p Pre prog Post E) :
    Tries admits ok Inv p Pre prog Post fun e => Outside (E e) := by
  refine triple_post h fun r l g hr => ?_
  cases r with
  | ok a => exact hr
  | error e => exact hr

theorem Shaken.fresh {l : Local S} {g : Shared S} (h : Shaken p now ks F P log l g) :
    writesOf p g.history = [] :=
  h.elim Amid.fresh fun hb => hb.2.1

/-- **A statement inside the transaction** that ends the program on an error. -/
theorem tries_amid {f : DbError → ε} {s : S.Sql} {ι : Type} {K : S.Res s → ι → List S.Key}
    {G : S.Res s → ι → S.Db → Prop} {A : S.Res s → ι → Shared S → Prop}
    {W : S.Res s → ι → List S.Write} (hs : S.onPool s = false) (hF : Framed ks F)
    (hG : ∀ a i, Framed (K a i) (G a i)) (hP : Steady Inv p P) (hA : ∀ a i, Steady Inv p (A a i))
    (hok : ∀ (g : Shared S) c a taken ws, F g.db → P g → Inv g.db g.history → ok p (.sql s) g →
      S.effect s (g.waits p) c now (replay log g.db) = some (.ok (a, taken, ws)) →
        ∃ i, ws = W a i ∧ G a i g.db ∧ A a i (g.acquire p taken) ∧
          (∀ k ∈ K a i, k ∈ ks ∨ k ∈ taken) ∧ ∀ w ∈ ws, ∀ k ∈ S.keys w, k ∈ ks ∨ k ∈ taken) :
    Tries admits ok Inv p (Amid p now ks F P log) (sql f s)
      (fun a l g => ∃ i, Amid p now (K a i) (G a i) (A a i) (log ++ W a i) l g)
      fun _ => Shaken p now ks F P log := by
  refine tries_attempt (fun a => stable_exists fun i => stable_amid (hG a i) (hA a i))
    (fun _ => stable_shaken hF hP)
    (triple_post (triple_amid (X := fun _ => True) hs hF hG hP hA hok fun _ _ _ _ _ _ _ => trivial)
      fun r l g h => ?_)
  cases r with
  | ok a => exact h
  | error e => exact h.2.imp And.right id

/-- **A read inside the transaction.** -/
theorem tries_amid_read {f : DbError → ε} {s : S.Sql} {A : S.Res s → Shared S → Prop}
    (hs : S.onPool s = false) (hF : Framed ks F) (hP : Steady Inv p P)
    (hA : ∀ a, Steady Inv p (A a))
    (hok : ∀ (g : Shared S) c a taken ws, F g.db → P g → Inv g.db g.history → ok p (.sql s) g →
      S.effect s (g.waits p) c now (replay log g.db) = some (.ok (a, taken, ws)) →
        ws = [] ∧ A a (g.acquire p taken)) :
    Tries admits ok Inv p (Amid p now ks F P log) (sql f s)
      (fun a => Amid p now ks F (A a) log) fun _ => Shaken p now ks F P log := by
  refine tries_post (tries_amid (ι := Unit) (K := fun _ _ => ks) (G := fun _ _ => F)
    (A := fun a _ => A a) (W := fun _ _ => []) hs hF (fun _ _ => hF) hP (fun a _ => hA a) ?_)
    ?_ fun _ _ _ h => h
  · intro g c a taken ws hf hp hi hq he
    obtain ⟨rfl, ha⟩ := hok g c a taken ws hf hp hi hq he
    exact ⟨(), rfl, hf, ha, fun k hk => Or.inl hk, by simp⟩
  · rintro a l g ⟨-, h⟩
    rwa [List.append_nil] at h

/-- What happened inside the transaction is gone on an error. -/
theorem spec_of_shaken {prog : Program S ε α}
    (h : Tries admits ok Inv p Pre prog Post fun _ => Shaken p now ks F P log) :
    Spec admits ok Inv p Pre prog Post fun _ g => writesOf p g.history = [] :=
  spec_of_tries (tries_post h (fun _ _ _ hp => hp) fun _ _ _ he => he.fresh)

end Tries

end Lib.Transaction
