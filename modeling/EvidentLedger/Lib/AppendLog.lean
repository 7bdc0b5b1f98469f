import Mathlib.Data.List.Basic
import Mathlib.Logic.Function.Basic
import Mathlib.Tactic.SplitIfs

/-!
# Logs that are only appended to

A store of logs, one under each key, each with at most one owner. An operation opens a log or appends
an entry to one; an appended entry makes the log the property of its author. The machine takes one
operation at a time: it is what a concurrent program over such logs is compared with.

* Every entry has a name of its own in the whole store (`Names.ident`) and a label of its own in its
  log (`Names.label`).
* An operation is `Enabled` if the log is free or the author's, and both names are new.
* `Run` takes a list of operations, each enabled where it is taken.

Results:
* `Run.entries`: a log is what it was, and the entries appended to it, in the order of the operations.
* `Run.owner`: an owner stays, and owns all that is appended.
-/

namespace Lib.AppendLog

variable {K O E I J : Type}

/-- A log. -/
structure Log (O E : Type) where
  owner : Option O
  entries : List E

/-- The logs by their keys. -/
abbrev Store (K O E : Type) : Type := K → Option (Log O E)

/-- The entries under a key, none where there is no log. -/
def Store.entries (s : Store K O E) (k : K) : List E := ((s k).map Log.entries).getD []

def Store.owner (s : Store K O E) (k : K) : Option O := (s k).bind Log.owner

inductive Op (K O E : Type) where
  | create (k : K) (o : O)
  | append (k : K) (o : O) (e : E)
  deriving DecidableEq

/-- The names of an entry: one in the store, one in its log. -/
structure Names (E I J : Type) where
  ident : E → I
  label : E → J

/-- **What an operation needs.** -/
def Op.Enabled (n : Names E I J) (s : Store K O E) : Op K O E → Prop
  | .create k _ => s k = none
  | .append k o e => (∀ o', s.owner k = some o' → o' = o) ∧
      (∀ k', ∀ e' ∈ s.entries k', n.ident e' ≠ n.ident e) ∧
      ∀ e' ∈ s.entries k, n.label e' ≠ n.label e

/-- The entry that an operation appends under a key. -/
def Op.entry? [DecidableEq K] (k : K) : Op K O E → Option E
  | .create _ _ => none
  | .append k' _ e => if k' = k then some e else none

/-- **What an operation does.** -/
def Op.apply [DecidableEq K] (s : Store K O E) : Op K O E → Store K O E
  | .create k o => Function.update s k (some ⟨some o, []⟩)
  | .append k o e => Function.update s k (some ⟨some o, s.entries k ++ [e]⟩)

section Operations

variable [DecidableEq K] {n : Names E I J} {s t : Store K O E} {op : Op K O E}

theorem entries_apply (h : op.Enabled n s) (k : K) :
    (op.apply s).entries k = s.entries k ++ (op.entry? k).toList := by
  cases op with
  | create k' o =>
    by_cases hk : k = k'
    · subst hk
      have hnone : s k = none := h
      simp [Op.apply, Op.entry?, Store.entries, hnone]
    · simp [Op.apply, Op.entry?, Store.entries, Function.update_of_ne hk]
  | append k' o e =>
    by_cases hk : k = k'
    · subst hk
      simp [Op.apply, Op.entry?, Store.entries]
    · simp [Op.apply, Op.entry?, Store.entries, Function.update_of_ne hk, Ne.symm hk]

theorem owner_apply (h : op.Enabled n s) {k : K} {o : O} (ho : s.owner k = some o) :
    (op.apply s).owner k = some o := by
  cases op with
  | create k' o' =>
    have hne : k ≠ k' := by
      rintro rfl
      have hnone : s k = none := h
      simp [Store.owner, hnone] at ho
    rw [← ho]
    simp [Op.apply, Store.owner, Function.update_of_ne hne]
  | append k' o' e =>
    by_cases hk : k = k'
    · subst hk
      rw [h.1 o ho]
      simp [Op.apply, Store.owner]
    · rw [← ho]
      simp [Op.apply, Store.owner, Function.update_of_ne hk]

end Operations

/-! ## Runs -/

/-- **Operations one after the other.** -/
inductive Run [DecidableEq K] (n : Names E I J) (s : Store K O E) :
    List (Op K O E) → Store K O E → Prop
  | nil : Run n s [] s
  | snoc {ops : List (Op K O E)} {t : Store K O E} {op : Op K O E} (h : Run n s ops t)
      (hop : op.Enabled n t) : Run n s (ops ++ [op]) (op.apply t)

section Runs

variable [DecidableEq K] {n : Names E I J} {s t : Store K O E} {ops : List (Op K O E)}

/-- **A log is what it was, and what was appended to it.** -/
theorem Run.entries (h : Run n s ops t) (k : K) :
    t.entries k = s.entries k ++ ops.filterMap (Op.entry? k) := by
  induction h with
  | nil => simp
  | @snoc ops t op _ hop ih =>
    rw [entries_apply hop, ih, List.filterMap_append, List.append_assoc]
    cases hentry : op.entry? k <;> simp [hentry]

/-- **An owner stays**, and whoever appends to the log is the owner. -/
theorem Run.owner (h : Run n s ops t) {k : K} {o : O} (ho : s.owner k = some o) :
    t.owner k = some o ∧ ∀ o' e, .append k o' e ∈ ops → o' = o := by
  induction h with
  | nil => exact ⟨ho, fun o' e hmem => absurd hmem List.not_mem_nil⟩
  | @snoc ops t op _ hop ih =>
    obtain ⟨howner, hall⟩ := ih
    refine ⟨owner_apply hop howner, fun o' e hmem => ?_⟩
    rcases List.mem_append.mp hmem with hmem | hmem
    · exact hall o' e hmem
    · obtain rfl := List.mem_singleton.mp hmem
      exact (hop.1 o howner).symm

end Runs

end Lib.AppendLog
