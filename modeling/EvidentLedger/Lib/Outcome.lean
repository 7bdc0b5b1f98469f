import EvidentLedger.Lib.Held

/-!
# Outcomes of statements

What a statement on a view of the tables comes to, over any keys and writes: it waits for a lock of
another, fails, or answers with the locks it takes and its writes.

* `answers` reads; `refuses` fails; `takes` locks rows and keys, after their holders; `unlessHeld` waits
  for a key before anything else is looked at, as a unique index does.
* `Fair` outcomes take no lock that another holds, which is what a `Schema` asks of its statements.
  `Covered`: the keys of the writes are locked.
* `filter_map_of_mem` and `filter_map_comm` say what an update of some rows leaves of the others.
-/

namespace Lib.Transaction

section Outcomes

variable {K W α : Type}

/-- It waits, fails, or answers with locks and writes. -/
abbrev Outcome (K W α : Type) := Option (Except DbError (α × List K × List W))

/-- An answer without locks or writes. -/
def answers (a : α) : Outcome K W α := some (.ok (a, [], []))

def refuses (e : DbError) : Outcome K W α := some (.error e)

/-- The constraint is violated. -/
def breaks (constraint : String) : Outcome K W α := refuses (.database (some constraint))

/-- The locks are taken, after their holders. -/
def takes (waits : K → Bool) (ks : List K) (a : α) (ws : List W) : Outcome K W α :=
  if ks.any waits then none else some (.ok (a, ks, ws))

/-- The holder of a key comes first. -/
def unlessHeld (waits : K → Bool) (k : K) (o : Outcome K W α) : Outcome K W α :=
  if waits k then none else o

variable {waits : K → Bool} {a b : α} {k : K} {ks ks' : List K} {ws ws' : List W} {e e' : DbError}
  {o : Outcome K W α}

@[simp] theorem answers_ok :
    (answers a : Outcome K W α) = some (.ok (b, ks, ws)) ↔ b = a ∧ ks = [] ∧ ws = [] := by
  unfold answers
  constructor
  · rintro h
    obtain ⟨rfl, rfl, rfl⟩ := h
    exact ⟨rfl, rfl, rfl⟩
  · rintro ⟨rfl, rfl, rfl⟩
    rfl

@[simp] theorem answers_error : (answers a : Outcome K W α) ≠ some (.error e) := by
  intro h
  exact absurd (Option.some.inj h) (by simp)

@[simp] theorem refuses_ok : (refuses e : Outcome K W α) ≠ some (.ok (b, ks, ws)) := by
  intro h
  exact absurd (Option.some.inj h) (by simp)

@[simp] theorem refuses_error : (refuses e : Outcome K W α) = some (.error e') ↔ e' = e := by
  unfold refuses
  constructor
  · intro h
    exact (Except.error.inj (Option.some.inj h)).symm
  · rintro rfl
    rfl

@[simp] theorem takes_ok : takes waits ks a ws = some (.ok (b, ks', ws')) ↔
    (∀ k ∈ ks, waits k = false) ∧ b = a ∧ ks' = ks ∧ ws' = ws := by
  unfold takes
  by_cases h : ks.any waits = true
  · rw [if_pos h]
    obtain ⟨k, hk, hw⟩ := List.any_eq_true.mp h
    constructor
    · intro h0
      exact absurd h0 (by simp)
    · rintro ⟨hfree, -⟩
      rw [hfree k hk] at hw
      exact absurd hw (by simp)
  · rw [if_neg h]
    have hfree : ∀ k ∈ ks, waits k = false := by simpa using h
    constructor
    · intro h0
      obtain ⟨rfl, rfl, rfl⟩ := h0
      exact ⟨hfree, rfl, rfl, rfl⟩
    · rintro ⟨-, rfl, rfl, rfl⟩
      rfl

@[simp] theorem takes_error : takes waits ks a ws ≠ some (.error e) := by
  intro h
  unfold takes at h
  split_ifs at h
  exact absurd (Option.some.inj h) (by simp)

theorem unlessHeld_some {out : Except DbError (α × List K × List W)}
    (h : unlessHeld waits k o = some out) : waits k = false ∧ o = some out := by
  unfold unlessHeld at h
  by_cases hk : waits k = true
  · rw [if_pos hk] at h
    exact absurd h (by simp)
  · rw [if_neg hk] at h
    exact ⟨by simpa using hk, h⟩

/-! ## Fairness -/

variable (waits) in
/-- No lock of another is taken. -/
def Fair (o : Outcome K W α) : Prop :=
  ∀ a ks ws, o = some (.ok (a, ks, ws)) → ∀ k ∈ ks, waits k = false

theorem fair_answers : Fair waits (answers a : Outcome K W α) := by
  intro b ks ws h k hk
  obtain ⟨-, rfl, -⟩ := answers_ok.mp h
  exact absurd hk (by simp)

theorem fair_refuses : Fair waits (refuses e : Outcome K W α) :=
  fun _ _ _ h => absurd h refuses_ok

theorem fair_takes : Fair waits (takes waits ks a ws) := by
  intro b ks' ws' h k hk
  obtain ⟨hfree, -, rfl, -⟩ := takes_ok.mp h
  exact hfree k hk

theorem fair_unlessHeld (h : Fair waits o) : Fair waits (unlessHeld waits k o) :=
  fun _ _ _ ho => h _ _ _ (unlessHeld_some ho).2

/-! ## Locks of writes -/

variable {keys : W → List K}

variable (keys) in
/-- The keys of the writes are locked. -/
def Covered (o : Outcome K W α) : Prop :=
  ∀ a ks ws, o = some (.ok (a, ks, ws)) → ∀ w ∈ ws, ∀ k ∈ keys w, k ∈ ks

theorem covered_answers : Covered keys (answers a : Outcome K W α) := by
  intro b ks ws h w hw
  obtain ⟨-, -, rfl⟩ := answers_ok.mp h
  exact absurd hw (by simp)

theorem covered_refuses : Covered keys (refuses e : Outcome K W α) :=
  fun _ _ _ h => absurd h refuses_ok

theorem covered_takes (hk : ∀ w ∈ ws, ∀ k ∈ keys w, k ∈ ks) :
    Covered keys (takes waits ks a ws) := by
  intro b ks' ws' h
  obtain ⟨-, -, rfl, rfl⟩ := takes_ok.mp h
  exact hk

theorem covered_unlessHeld (h : Covered keys o) : Covered keys (unlessHeld waits k o) :=
  fun _ _ _ ho => h _ _ _ (unlessHeld_some ho).2

/-- The keys of the writes are not held by others. -/
theorem waits_of_covered (hf : Fair waits o) (hc : Covered keys o)
    (h : o = some (.ok (a, ks, ws))) : ∀ w ∈ ws, ∀ k ∈ keys w, waits k = false :=
  fun w hw k hk => hf a ks ws h k (hc a ks ws h w hw k hk)

end Outcomes

/-! ## Rows -/

section Rows

variable {ρ : Type} {q : ρ → Bool} {f : ρ → ρ}

/-- An update that spares the selected rows of a list. -/
theorem filter_map_of_mem {l : List ρ} (hq : ∀ r ∈ l, q (f r) = q r)
    (hf : ∀ r ∈ l, q r = true → f r = r) : (l.map f).filter q = l.filter q := by
  induction l with
  | nil => rfl
  | cons r l ih =>
    have ih := ih (fun r' hr => hq r' (List.mem_cons_of_mem r hr))
      fun r' hr => hf r' (List.mem_cons_of_mem r hr)
    simp only [List.map_cons, List.filter_cons, hq r List.mem_cons_self, ih]
    by_cases hr : q r = true
    · rw [if_pos hr, if_pos hr, hf r List.mem_cons_self hr]
    · rw [if_neg hr, if_neg hr]

/-- An update that spares the selected rows. -/
theorem filter_map_of_self (hq : ∀ r, q (f r) = q r) (hf : ∀ r, q r = true → f r = r) (l : List ρ) :
    (l.map f).filter q = l.filter q :=
  filter_map_of_mem (fun r _ => hq r) fun r _ => hf r

/-- An update that keeps the rows selected. -/
theorem filter_map_comm (hq : ∀ r, q (f r) = q r) (l : List ρ) :
    (l.map f).filter q = (l.filter q).map f := by
  induction l with
  | nil => rfl
  | cons r l ih =>
    simp only [List.map_cons, List.filter_cons, hq, ih]
    by_cases hr : q r = true
    · rw [if_pos hr, if_pos hr, List.map_cons]
    · rw [if_neg hr, if_neg hr]

end Rows

end Lib.Transaction
