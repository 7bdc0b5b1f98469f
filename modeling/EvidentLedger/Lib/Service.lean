import EvidentLedger.Lib.Session

/-!
# Services

Any number of programs over some tables, each with a transaction or a few statements of its own. A
service is proved program by program: a triple from the state in which the program has committed
nothing, under the discipline whose invariant says that the history is one of commits.

* `startOn` is the service before its first step.
* **`reach_service`**: in every state reached the tables are the replay of a history of commits, and
  every value returned meets its postcondition. `reach_history`: the history of a later state goes on
  from that of an earlier one.
* `Guarded` is an assertion about the tables while some locks are held. `steady_guarded`: the others
  leave it alone if it is kept along the relation that every commit satisfies, as long as nothing under
  these locks changes.
-/

namespace Lib.Transaction

open Lib.Interleave

variable {S : Schema} {α : Type}

/-- Programs over some tables; none has begun. -/
def startOn (db₀ : S.Db) (prog : Nat → Prog (Call.Answer (S := S)) α) :
    Config (Call.Answer (S := S)) (Shared S) (Local S) α :=
  ⟨⟨db₀, fun _ => none, []⟩, fun p => (prog p, none)⟩

section Reached

variable {C : History S → Nat → List S.Write → Prop} {db₀ : S.Db}
  {prog : Nat → Prog (Call.Answer (S := S)) α} {ok : Nat → Call S → Shared S → Prop}
  {Post : Nat → α → Shared S → Prop}
  {y z : Config (Call.Answer (S := S)) (Shared S) (Local S) α}

/-- Every program of a service meets its contract. -/
abbrev Serves (C : History S → Nat → List S.Write → Prop) (db₀ : S.Db)
    (prog : Nat → Prog (Call.Answer (S := S)) α) (ok : Nat → Call S → Shared S → Prop)
    (Post : Nat → α → Shared S → Prop) : Prop :=
  ∀ p, Triple ((system S).restrict fun _ _ _ _ => true) ok (discipline (Logged C db₀)) p
    (Outside fun g => writesOf p g.history = []) (prog p) fun a => Outside (Post p a)

theorem safe_startOn (h : Serves C db₀ prog ok Post) (p : Nat) :
    Safe (system S) ok (discipline (Logged C db₀)) p (fun a => Outside (Post p a))
      ((startOn db₀ prog).procs p).1 ((startOn db₀ prog).procs p).2 (startOn db₀ prog).shared :=
  h p none ⟨db₀, fun _ => none, []⟩ rfl logged_nil

/-- **In every state reached the history is one of commits**, and every program that has returned
meets its postcondition. -/
theorem reach_service (h : Serves C db₀ prog ok Post)
    (hy : Reach (system S) ok (startOn db₀ prog) y) :
    Logged C db₀ y.shared.db y.shared.history ∧
      ∀ p a, (y.procs p).1.result = some a → Post p a y.shared := by
  have hinit : (discipline (Logged C db₀)).Inv (startOn db₀ prog).shared := logged_nil
  obtain ⟨hinv, hsafe⟩ := reach_safe hinit (safe_startOn h) hy
  exact ⟨hinv, fun p a ha => (hsafe p).result hinv ha⟩

/-- **The history only grows.** -/
theorem reach_history (h : Serves C db₀ prog ok Post)
    (hy : Reach (system S) ok (startOn db₀ prog) y) (hz : Reach (system S) ok y z) :
    y.shared.history <+: z.shared.history := by
  have hinit : (discipline (Logged C db₀)).Inv (startOn db₀ prog).shared := logged_nil
  obtain ⟨hinv, hsafe⟩ := reach_safe hinit (safe_startOn h) hy
  refine reach_relation (fun g g' : Shared S => g.history <+: g'.history)
    (fun _ => List.prefix_refl _) (fun _ _ _ h h' => h.trans h') ?_ hinv hsafe hz
  exact fun _ _ _ hr => Rely.history hr

/-- **A relation that every commit keeps** relates the tables of two moments of a run. -/
theorem reach_relates (Rel : S.Db → S.Db → Prop) (h : Serves C db₀ prog ok Post)
    (hrefl : ∀ db, Rel db db) (htrans : ∀ {a b c}, Rel a b → Rel b c → Rel a c)
    (hstep : ∀ h p log, Logged C db₀ (tablesAfter db₀ h) h → C h p log →
      Rel (tablesAfter db₀ h) (replay log (tablesAfter db₀ h)))
    (hy : Reach (system S) ok (startOn db₀ prog) y) (hz : Reach (system S) ok y z) :
    Rel y.shared.db z.shared.db := by
  have hlog := (reach_service h hy).1
  have hlog' := (reach_service h (Relation.ReflTransGen.trans hy hz)).1
  rw [hlog.replayed]
  exact hlog'.relates hrefl htrans hstep (reach_history h hy hz)

end Reached

/-! ## Under locks -/

section Guards

variable {C : History S → Nat → List S.Write → Prop} {db₀ : S.Db} {p : Nat} {ks ks' : List S.Key}
  {F F' : S.Db → Prop} {g : Shared S}

/-- A fact about the tables, with locks that are held. -/
def Guarded (p : Nat) (ks : List S.Key) (F : S.Db → Prop) (g : Shared S) : Prop :=
  (∀ k ∈ ks, g.holder k = some p) ∧ F g.db

theorem Guarded.mono (h : Guarded p ks F g) (hk : ks' ⊆ ks) (hF : F g.db → F' g.db) :
    Guarded p ks' F' g :=
  ⟨fun k hm => h.1 k (hk hm), hF h.2⟩

/-- Locks that are taken besides. -/
theorem Guarded.acquire {taken : List S.Key} (h : Guarded p ks F g)
    (hk : ∀ k ∈ ks', k ∈ ks ∨ k ∈ taken) (hF : F' g.db) : Guarded p ks' F' (g.acquire p taken) := by
  refine ⟨fun k hm => ?_, hF⟩
  rcases hk k hm with hk | hk
  · exact acquire_held (h.1 k hk)
  · rw [acquire_holder, if_pos hk]

/-- **The others leave a guarded fact alone.** -/
theorem steady_guarded (Rel : S.Db → S.Db → Prop) (Ok : S.Db → Prop)
    (hrefl : ∀ db, Rel db db) (htrans : ∀ {a b c}, Rel a b → Rel b c → Rel a c)
    (hstep : ∀ h p log, Logged C db₀ (tablesAfter db₀ h) h → C h p log →
      Rel (tablesAfter db₀ h) (replay log (tablesAfter db₀ h)))
    (hok : ∀ db h, Logged C db₀ db h → Ok db)
    (hF : ∀ db db', Ok db → Ok db' → Rel db db' → (∀ k ∈ ks, S.same k db db') → F db → F db') :
    Steady (Logged C db₀) p (Guarded p ks F) := by
  rintro g g' ⟨hlocks, hfact⟩ hi hr hi'
  have hrel : Rel (tablesAfter db₀ g.history) g'.db := hi'.relates hrefl htrans hstep hr.history
  rw [← hi.replayed] at hrel
  exact ⟨fun k hk => (hr.locks k).mp (hlocks k hk),
    hF g.db g'.db (hok _ _ hi) (hok _ _ hi') hrel (fun k hk => hr.rows k (hlocks k hk)) hfact⟩

end Guards

end Lib.Transaction
