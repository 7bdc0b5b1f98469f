import EvidentLedger.Lib.Rules

/-!
# What is known under locks

`Held` is the assertion of a program inside a transaction: its log so far, the keys it holds, and
a fact about the committed rows under these keys (`Framed`). The others cannot break it
(`steady_held`), so a proof about a statement is a fact about its effect on one view
(`spec_held`) and a proof about a commit is a fact about one replay (`spec_commit`).
-/

namespace Lib.Transaction

open Lib.Interleave

variable {S : Schema} {Inv : S.Db → History S → Prop} {p : Nat} {g g' : Shared S}
  {admits : Nat → S.Choice → Call S → Shared S → Bool} {ok : Nat → Call S → Shared S → Prop}
  {P : Tx S → Shared S → Prop} {P₀ : Shared S → Prop}

/-! ## What is known under locks -/

/-- A fact about what is under the keys `ks`. -/
def Framed (ks : List S.Key) (F : S.Db → Prop) : Prop :=
  ∀ db db', (∀ k ∈ ks, S.same k db db') → F db → F db'

theorem framed_const {ks : List S.Key} {P : Prop} : Framed (S := S) ks fun _ => P :=
  fun _ _ _ h => h

theorem Framed.and {ks : List S.Key} {F F' : S.Db → Prop} (h : Framed ks F) (h' : Framed ks F') :
    Framed ks fun db => F db ∧ F' db :=
  fun db db' hs hf => ⟨h db db' hs hf.1, h' db db' hs hf.2⟩

theorem Framed.mono {ks ks' : List S.Key} {F : S.Db → Prop} (h : Framed ks F) (hk : ks ⊆ ks') :
    Framed ks' F :=
  fun db db' hs hf => h db db' (fun k hm => hs k (hk hm)) hf

/-- Inside the first transaction of a program: begun at `now`, with this log and these locks, and
`F` of the committed tables. -/
structure Held (p : Nat) (now : Int) (ks : List S.Key) (F : S.Db → Prop) (log : List S.Write)
    (tx : Tx S) (g : Shared S) : Prop where
  fresh : writesOf p g.history = []
  now : tx.now = now
  log : tx.log = log
  locks : ∀ k ∈ ks, g.holder k = some p
  fact : F g.db

section Held

variable {ε : Type} {now : Int} {ks : List S.Key} {F : S.Db → Prop} {log : List S.Write}
  {E : ε → Shared S → Prop}

theorem steady_held (hF : Framed ks F) (tx : Tx S) :
    Steady Inv p (Held p now ks F log tx) := by
  intro g g' h _ hr _
  exact ⟨hr.own.trans h.fresh, h.now, h.log, fun k hk => (hr.locks k).mp (h.locks k hk),
    hF _ _ (fun k hk => hr.rows k (h.locks k hk)) h.fact⟩

theorem stable_held (hF : Framed ks F) :
    Stable (discipline Inv) p (InTx p (Held p now ks F log)) :=
  stable_inTx (steady_held hF)

/-- **A statement under locks**, with several outcomes for one answer: its effect on the view tells
the writes, the locks and the facts. -/
theorem spec_held_cases {f : DbError → ε} {s : S.Sql} {ι : Type}
    {K : S.Res s → ι → List S.Key} {G : S.Res s → ι → S.Db → Prop}
    {W : S.Res s → ι → List S.Write} (hs : S.onPool s = false) (hF : Framed ks F)
    (hG : ∀ a i, Framed (K a i) (G a i)) (hE : ∀ e, Steady Inv p (E e))
    (hok : ∀ (g : Shared S) c a taken ws, F g.db → Inv g.db g.history → ok p (.sql s) g →
      S.effect s (g.waits p) c now (replay log g.db) = some (.ok (a, taken, ws)) →
        ∃ i, ws = W a i ∧ G a i g.db ∧ (∀ k ∈ K a i, k ∈ ks ∨ k ∈ taken) ∧
          ∀ w ∈ ws, ∀ k ∈ S.keys w, k ∈ ks ∨ k ∈ taken)
    (herr : ∀ (g : Shared S) e, writesOf p g.history = [] → F g.db → Inv g.db g.history →
      Refused admits p s now (replay log g.db) g e → E (f e) g) :
    Spec admits ok Inv p (InTx p (Held p now ks F log)) (sql f s)
      (fun a l g => ∃ i, InTx p (Held p now (K a i) (G a i) (log ++ W a i)) l g) E := by
  have hQ : ∀ a tx, Steady Inv p fun g => ∃ i, Held p now (K a i) (G a i) (log ++ W a i) tx g :=
    fun a tx => steady_exists fun i => steady_held (hG a i) tx
  refine spec_post (spec_attempt (fun a => stable_inTx (hQ a)) hE
    (triple_sql hs (steady_held hF) hQ (fun e => hE (f e)) ?_ ?_)) ?_ fun _ _ h => h
  · rintro tx g c a taken ws ⟨hfresh, rfl, rfl, hlocks, hfact⟩ hi hq heff
    obtain ⟨i, rfl, hf', hk', hw⟩ := hok g c a taken ws hfact hi hq heff
    refine ⟨fun w hm k hk => (hw w hm k hk).symm.imp id (hlocks k), i, hfresh, rfl, rfl, ?_, hf'⟩
    intro k hk
    rcases hk' k hk with hk | hk
    · exact acquire_held (hlocks k hk)
    · rw [acquire_holder, if_pos hk]
  · rintro tx g e ⟨hfresh, rfl, rfl, -, hfact⟩ hi href
    exact herr g e hfresh hfact hi href
  · rintro a l g ⟨tx, rfl, ha, ho, i, h⟩
    exact ⟨i, tx, rfl, ha, ho, h⟩

/-- **A statement under locks.** -/
theorem spec_held {f : DbError → ε} {s : S.Sql} {K : S.Res s → List S.Key}
    {G : S.Res s → S.Db → Prop} {W : S.Res s → List S.Write} (hs : S.onPool s = false)
    (hF : Framed ks F) (hG : ∀ a, Framed (K a) (G a)) (hE : ∀ e, Steady Inv p (E e))
    (hok : ∀ (g : Shared S) c a taken ws, F g.db → Inv g.db g.history → ok p (.sql s) g →
      S.effect s (g.waits p) c now (replay log g.db) = some (.ok (a, taken, ws)) →
        ws = W a ∧ G a g.db ∧ (∀ k ∈ K a, k ∈ ks ∨ k ∈ taken) ∧
          ∀ w ∈ ws, ∀ k ∈ S.keys w, k ∈ ks ∨ k ∈ taken)
    (herr : ∀ (g : Shared S) e, writesOf p g.history = [] → F g.db → Inv g.db g.history →
      Refused admits p s now (replay log g.db) g e → E (f e) g) :
    Spec admits ok Inv p (InTx p (Held p now ks F log)) (sql f s)
      (fun a => InTx p (Held p now (K a) (G a) (log ++ W a))) E := by
  refine spec_post (spec_held_cases (ι := Unit) (K := fun a _ => K a) (G := fun a _ => G a)
    (W := fun a _ => W a) hs hF (fun a _ => hG a) hE (fun g c a taken ws hf hi hq he =>
      ⟨(), hok g c a taken ws hf hi hq he⟩) herr) ?_ fun _ _ h => h
  rintro a l g ⟨-, h⟩
  exact h

/-- **A read under locks.** -/
theorem spec_held_read {f : DbError → ε} {s : S.Sql} {G : S.Res s → S.Db → Prop}
    (hs : S.onPool s = false) (hF : Framed ks F) (hG : ∀ a, Framed ks (G a))
    (hE : ∀ e, Steady Inv p (E e))
    (hok : ∀ (g : Shared S) c a taken ws, F g.db → Inv g.db g.history → ok p (.sql s) g →
      S.effect s (g.waits p) c now (replay log g.db) = some (.ok (a, taken, ws)) →
        ws = [] ∧ G a g.db)
    (herr : ∀ (g : Shared S) e, writesOf p g.history = [] → F g.db → Inv g.db g.history →
      Refused admits p s now (replay log g.db) g e → E (f e) g) :
    Spec admits ok Inv p (InTx p (Held p now ks F log)) (sql f s)
      (fun a => InTx p (Held p now ks (G a) log)) E := by
  have h : Spec admits ok Inv p (InTx p (Held p now ks F log)) (sql f s)
      (fun a => InTx p (Held p now ks (G a) (log ++ []))) E :=
    spec_held hs hF hG hE (fun g c a taken ws hf hi hq he => by
      obtain ⟨rfl, h'⟩ := hok g c a taken ws hf hi hq he
      exact ⟨rfl, h', fun k hk => Or.inl hk, fun w hw => absurd hw (by simp)⟩) herr
  simpa only [List.append_nil] using h

/-- **A read on the pool inside the transaction.** -/
theorem spec_held_pool {f : DbError → ε} {s : S.Sql} {Q : S.Res s → Prop}
    (hs : S.onPool s = true) (hF : Framed ks F) (hE : ∀ e, Steady Inv p (E e))
    (hok : ∀ (g : Shared S) c a taken ws, Inv g.db g.history → ok p (.sql s) g →
      S.effect s (g.waits p) c (S.time c) g.db = some (.ok (a, taken, ws)) → ws = [] ∧ Q a)
    (herr : ∀ (g : Shared S) e, writesOf p g.history = [] → F g.db → Inv g.db g.history →
      RefusedOnPool admits p s g e → E (f e) g) :
    Spec admits ok Inv p (InTx p (Held p now ks F log)) (sql f s)
      (fun a => InTx p (Held p now ks (fun db => F db ∧ Q a) log)) E := by
  have hG : ∀ a, Framed ks fun db => F db ∧ Q a := fun a => hF.and framed_const
  refine spec_attempt (fun a => stable_held (hG a)) hE (triple_poolRead hs (stable_held hF)
    (fun a => stable_held (hG a)) (fun e => hE (f e)) ?_ ?_)
  · rintro l g c a taken ws ⟨tx, rfl, ha, ho, h⟩ hi hq heff
    obtain ⟨rfl, hres⟩ := hok g c a taken ws hi hq heff
    exact ⟨rfl, tx, rfl, ha, ho, h.fresh, h.now, h.log, h.locks, h.fact, hres⟩
  · rintro l g e ⟨tx, -, -, -, h⟩ hi href
    exact herr g e h.fresh h.fact hi href

theorem spec_held_require {b : Bool} {e : ε} (hF : Framed ks F)
    (herr : ∀ g : Shared S, writesOf p g.history = [] → F g.db → b = false → E e g) :
    Spec admits ok Inv p (InTx p (Held p now ks F log)) (require b e)
      (fun _ => InTx p (Held p now ks (fun db => F db ∧ b = true) log)) E := by
  refine spec_require (stable_held hF) ?_ ?_
  · rintro l g ⟨tx, rfl, ha, ho, h⟩ hb
    exact ⟨tx, rfl, ha, ho, h.fresh, h.now, h.log, h.locks, h.fact, hb⟩
  · rintro l g ⟨tx, -, -, -, h⟩ hb
    exact herr g h.fresh h.fact hb

/-- A weaker fact, fewer locks. -/
theorem held_mono {K : List S.Key} {G : S.Db → Prop} (hk : K ⊆ ks)
    (hF : ∀ db, F db → G db) {l : Local S} {g : Shared S}
    (h : InTx p (Held p now ks F log) l g) : InTx p (Held p now K G log) l g := by
  obtain ⟨tx, rfl, ha, ho, h⟩ := h
  exact ⟨tx, rfl, ha, ho, h.fresh, h.now, h.log, fun k hm => h.locks k (hk hm), hF _ h.fact⟩

/-- **`begin`** of the first transaction: at some time, nothing known, nothing written. -/
theorem spec_begin {f : DbError → ε} (hE : ∀ e, Steady Inv p (E e))
    (herr : ∀ g : Shared S, writesOf p g.history = [] → E (f .io) g) :
    Spec admits ok Inv p (Outside fun g => writesOf p g.history = []) (beginTx f)
      (fun _ l g => ∃ now, (∃ c g, now = S.time c ∧ admits p c .begin g = true) ∧
        InTx p (Held p now [] (fun _ => True) []) l g) E := by
  have hst : ∀ tx : Tx S, Steady Inv p fun g => ∃ now,
      (∃ c g, now = S.time c ∧ admits p c .begin g = true) ∧
        Held p now [] (fun _ => True) [] tx g := fun tx =>
    steady_exists fun now => steady_and steady_const (steady_held framed_const tx)
  refine spec_post (spec_attempt (fun _ => stable_inTx hst) hE
    (triple_begin (steady_own (P := (· = []))) hst (fun e => hE (f e)) ?_ ?_)) ?_ fun _ _ h => h
  · exact fun c g h hadm => ⟨_, ⟨c, g, rfl, hadm⟩, h, rfl, rfl, by simp, trivial⟩
  · exact fun c g h _ _ => herr g h
  · rintro - l g ⟨tx, rfl, ha, ho, now, hnow, h⟩
    exact ⟨now, hnow, tx, rfl, ha, ho, h⟩

/-- **`commit`** under locks: the facts are about the very tables the log is replayed on. -/
theorem spec_commit {f : DbError → ε} {Q : Shared S → Prop} (hF : Framed ks F)
    (hQ : Steady Inv p Q) (hE : ∀ e, Steady Inv p (E e))
    (hok : ∀ g : Shared S, writesOf p g.history = [] → F g.db → Inv g.db g.history →
      Inv (replay log g.db) (record p log g.history) ∧ Q ((g.install p log).release p))
    (herr : ∀ g : Shared S, writesOf p g.history = [] → E (f .io) (g.release p)) :
    Spec admits ok Inv p (InTx p (Held p now ks F log)) (commitTx f) (fun _ => Outside Q) E := by
  refine spec_attempt (fun _ => stable_outside hQ) hE
    (triple_commit (steady_held hF) hQ (fun e => hE (f e)) ?_ ?_)
  · rintro tx g ⟨hfresh, -, rfl, -, hfact⟩ hi
    exact hok g hfresh hfact hi
  · exact fun tx g c h _ _ => herr g h.fresh

end Held

end Lib.Transaction
