import EvidentLedger.IdentityKeys.Handlers

/-!
# What a registration leaves to the others

What the requests have done with one challenge, read off the trace, and what every statement keeps of it.

* `Apart`: where a request inserts its key, the others with its challenge that have inserted one had used
  the challenge up before the request read it.
* `Inv`: the inserted keys are in the table, a challenge that was marked is used, and of the insertions
  with one challenge all but one are `Apart`. `keeps_inserted` and `keeps_marked` are the two writes.
-/

namespace EvidentLedger.IdentityKeys

open Lib.Interleave Lib.Text

/-! ## What the requests leave -/

section Laws

variable (requests : Nat → Request)

/-- The insertions that a challenge has led to. -/
def insertionsOf (challengeId : Uuid) (trace : List Trace) : List Trace :=
  trace.filter fun e =>
    match e with
    | .inserted p _ => (requests p).challengeId? == some challengeId
    | _ => false

def Trace.key? : Trace → Option IdentityKey
  | inserted _ key => some key
  | _ => none

/-- The trace until the request has read its challenge. -/
def beforeLoad (p : Nat) (trace : List Trace) : List Trace := trace.takeWhile (· ≠ .loaded p)

/-- **The insertion of a key stands apart**: whoever has inserted one for the same challenge had marked
the challenge before the request read it. -/
def Apart (p : Nat) : Call → Shared → Prop
  | .insertKey .., g => ∀ e ∈ g.trace,
    match e with
    | .inserted q _ => (requests q).challengeId? = (requests p).challengeId? →
        .marked q ∈ beforeLoad p g.trace
    | _ => True
  | _, _ => True

instance (p : Nat) (q : Call) (g : Shared) : Decidable (Apart requests p q g) := by
  cases q <;> unfold Apart <;> try infer_instance
  refine @List.decidableBAll _ _ (fun e => ?_) _
  cases e <;> dsimp only <;> infer_instance

/-- No update of a challenge fails. -/
def marksSucceed (_ : Nat) (c : Choice) : Call → Shared → Bool
  | .markUsed _, _ => !c.fails
  | _, _ => true

/-- The challenge was used by a request. -/
def MarkedBy (challengeId : Uuid) (trace : List Trace) : Prop :=
  ∃ q, .marked q ∈ trace ∧ (requests q).challengeId? = some challengeId

/-- The challenge can be used, or a request has used it. -/
def Open (challengeId : Uuid) (g : Shared) : Prop :=
  (∃ row ∈ g.challenges, row.id = challengeId ∧ row.isUsed = false) ∨
    MarkedBy requests challengeId g.trace

/-- **What holds of the tables.** -/
structure Inv (keys : List IdentityKey) (g : Shared) : Prop where
  used : ∀ row ∈ g.challenges, MarkedBy requests row.id g.trace → row.isUsed = true
  present : ∀ ch, MarkedBy requests ch g.trace → ∃ row ∈ g.challenges, row.id = ch
  marker : ∀ q, .marked q ∈ g.trace → ∃ key, .inserted q key ∈ g.trace
  single : ∀ ch, (insertionsOf requests ch g.trace).length ≤ 1
  keys : g.keys = keys ++ g.trace.filterMap Trace.key?

/-- What the others do to a request. -/
structure Rely (p : Nat) (g g' : Shared) : Prop where
  trace : ∃ added, g'.trace = g.trace ++ added ∧ ∀ e ∈ added, e.caller ≠ p
  opened : ∀ ch, Open requests ch g → Open requests ch g'

def discipline (keys : List IdentityKey) : Discipline Shared where
  Inv := Inv requests keys
  Rely := Rely requests
  refl _ g := ⟨⟨[], by simp, by simp⟩, fun _ h => h⟩
  trans := by
    rintro p g g' g'' ⟨⟨added, htrace, hothers⟩, hopen⟩ ⟨⟨added', htrace', hothers'⟩, hopen'⟩
    refine ⟨⟨added ++ added', by rw [htrace', htrace, List.append_assoc], fun e he => ?_⟩,
      fun ch h => hopen' ch (hopen ch h)⟩
    rcases List.mem_append.mp he with he | he
    · exact hothers e he
    · exact hothers' e he

end Laws

variable {requests : Nat → Request} {keys : List IdentityKey} {p : Nat} {g g' : Shared}
  {ch : Uuid} {e : Trace} {α : Type}

/-! ### Traces -/

theorem MarkedBy.mono {trace added : List Trace} (h : MarkedBy requests ch trace) :
    MarkedBy requests ch (trace ++ added) := by
  obtain ⟨q, hq, hch⟩ := h
  exact ⟨q, List.mem_append_left _ hq, hch⟩

/-- An entry that is no mark marks nothing. -/
theorem markedBy_concat {trace : List Trace} (he : ∀ q, e ≠ .marked q) :
    MarkedBy requests ch (trace ++ [e]) ↔ MarkedBy requests ch trace := by
  refine ⟨?_, MarkedBy.mono⟩
  rintro ⟨q, hq, hch⟩
  rcases List.mem_append.mp hq with hq | hq
  · exact ⟨q, hq, hch⟩
  · exact absurd (List.mem_singleton.mp hq).symm (he q)

theorem beforeLoad_eq {before after : List Trace} (h : ∀ e ∈ before, e.caller ≠ p) :
    beforeLoad p (before ++ .loaded p :: after) = before := by
  unfold beforeLoad
  rw [List.takeWhile_append_of_pos]
  · simp
  · intro e he
    refine decide_eq_true fun heq => ?_
    subst heq
    exact h _ he rfl

theorem insertionsOf_concat {trace : List Trace} (he : ∀ q key, e ≠ .inserted q key) :
    insertionsOf requests ch (trace ++ [e]) = insertionsOf requests ch trace := by
  unfold insertionsOf
  rw [List.filter_append]
  cases e with
  | inserted q key => exact absurd rfl (he q key)
  | loaded | marked => simp

/-! ### Steps -/

section Steps

/-- A step that leaves the tables alone. -/
theorem keeps_same (hi : Inv requests keys g) : (discipline requests keys).Keeps p g g :=
  ⟨hi, fun q _ => (discipline requests keys).refl q g⟩

/-- A step that adds an entry of the request to the trace. -/
theorem rely_concat {q : Nat} (hq : q ≠ p) (he : e.caller = p) (htrace : g'.trace = g.trace ++ [e])
    (hopen : ∀ ch, Open requests ch g → Open requests ch g') : Rely requests q g g' := by
  refine ⟨⟨[e], htrace, fun e' he' => ?_⟩, hopen⟩
  obtain rfl := List.mem_singleton.mp he'
  rw [he]
  exact Ne.symm hq

theorem keeps_loaded (hi : Inv requests keys g) :
    (discipline requests keys).Keeps p g { g with trace := g.trace ++ [.loaded p] } := by
  have hmark : ∀ ch, MarkedBy requests ch (g.trace ++ [.loaded p]) ↔ MarkedBy requests ch g.trace :=
    fun ch => markedBy_concat (by simp)
  refine ⟨⟨fun row hrow h => hi.used row hrow ((hmark _).mp h),
    fun ch h => hi.present ch ((hmark ch).mp h), fun q hq => ?_, fun ch => ?_, ?_⟩, fun q hq => ?_⟩
  · obtain ⟨key, hkey⟩ := hi.marker q (by simpa using hq)
    exact ⟨key, List.mem_append_left _ hkey⟩
  · rw [insertionsOf_concat (by simp)]
    exact hi.single ch
  · simp [hi.keys, Trace.key?]
  · refine rely_concat hq rfl rfl fun ch h => ?_
    exact h.imp_right MarkedBy.mono

theorem keeps_challenge {row : IdentityChallenge} (hi : Inv requests keys g)
    (hnew : ∀ other ∈ g.challenges, other.id ≠ row.id) :
    (discipline requests keys).Keeps p g { g with challenges := g.challenges ++ [row] } := by
  refine ⟨⟨fun other hother h => ?_, fun ch h => ?_, hi.marker, hi.single, hi.keys⟩, fun q _ =>
    ⟨⟨[], by simp, by simp⟩, fun ch h => h.imp_left fun ⟨other, hother, hopen⟩ =>
      ⟨other, List.mem_append_left _ hother, hopen⟩⟩⟩
  · rcases List.mem_append.mp hother with hother | hother
    · exact hi.used other hother h
    · obtain rfl := List.mem_singleton.mp hother
      obtain ⟨old, hold, hid⟩ := hi.present _ h
      exact absurd hid (hnew old hold)
  · obtain ⟨old, hold, hid⟩ := hi.present ch h
    exact ⟨old, List.mem_append_left _ hold, hid⟩

/-- **The insertion of the first key of a challenge.** -/
theorem keeps_inserted {key : IdentityKey} (hi : Inv requests keys g)
    (hnone : ∀ ch, (requests p).challengeId? = some ch → insertionsOf requests ch g.trace = []) :
    (discipline requests keys).Keeps p g
      { g with keys := g.keys ++ [key], trace := g.trace ++ [.inserted p key] } := by
  have hmark : ∀ ch, MarkedBy requests ch (g.trace ++ [.inserted p key]) ↔
      MarkedBy requests ch g.trace := fun ch => markedBy_concat (by simp)
  refine ⟨⟨fun row hrow h => hi.used row hrow ((hmark _).mp h),
    fun ch h => hi.present ch ((hmark ch).mp h), fun q hq => ?_, fun ch => ?_, ?_⟩, fun q hq => ?_⟩
  · obtain ⟨key', hkey⟩ := hi.marker q (by simpa using hq)
    exact ⟨key', List.mem_append_left _ hkey⟩
  · by_cases hch : (requests p).challengeId? = some ch
    · have hone : insertionsOf requests ch (g.trace ++ [.inserted p key]) = [.inserted p key] := by
        have h0 := hnone ch hch
        unfold insertionsOf at h0 ⊢
        rw [List.filter_append, h0]
        simp [hch]
      change (insertionsOf requests ch (g.trace ++ [.inserted p key])).length ≤ 1
      rw [hone]
      exact le_refl 1
    · have hsame : insertionsOf requests ch (g.trace ++ [.inserted p key]) =
          insertionsOf requests ch g.trace := by
        unfold insertionsOf
        rw [List.filter_append]
        simp [hch]
      change (insertionsOf requests ch (g.trace ++ [.inserted p key])).length ≤ 1
      rw [hsame]
      exact hi.single ch
  · simp [hi.keys, Trace.key?]
  · exact rely_concat hq rfl rfl fun ch h => h.imp_right MarkedBy.mono

/-- **The mark of a challenge** by a request that has inserted its key. -/
theorem keeps_marked {now : Int} {key : IdentityKey} (hi : Inv requests keys g)
    (hch : (requests p).challengeId? = some ch) (hkey : .inserted p key ∈ g.trace)
    (hthere : ∃ row ∈ g.challenges, row.id = ch) :
    (discipline requests keys).Keeps p g
      { g with challenges := g.challenges.map (·.mark ch now), trace := g.trace ++ [.marked p] } := by
  have hmark : ∀ other, MarkedBy requests other (g.trace ++ [.marked p]) →
      MarkedBy requests other g.trace ∨ other = ch := by
    rintro other ⟨q, hq, hother⟩
    rcases List.mem_append.mp hq with hq | hq
    · exact Or.inl ⟨q, hq, hother⟩
    · obtain rfl := Trace.marked.inj (List.mem_singleton.mp hq)
      exact Or.inr (Option.some.inj (hother.symm.trans hch))
  have hrows : ∀ other, (∃ row ∈ g.challenges, row.id = other) →
      ∃ row ∈ g.challenges.map (·.mark ch now), row.id = other := by
    rintro other ⟨row, hrow, hid⟩
    exact ⟨_, List.mem_map_of_mem hrow, by rw [IdentityChallenge.mark_id, hid]⟩
  refine ⟨⟨fun row hrow h => ?_, fun other h => ?_, fun q hq => ?_, fun other => ?_, ?_⟩,
    fun q hq => ?_⟩
  · obtain ⟨old, hold, rfl⟩ := List.mem_map.mp hrow
    rcases hmark _ h with h | h
    · rw [IdentityChallenge.mark_id] at h
      exact IdentityChallenge.isUsed_mark_of_used (hi.used old hold h)
    · rw [IdentityChallenge.mark_id] at h
      exact IdentityChallenge.isUsed_mark h
  · rcases hmark other h with h | rfl
    · exact hrows other (hi.present other h)
    · exact hrows other hthere
  · rcases List.mem_append.mp hq with hq | hq
    · obtain ⟨key', hkey'⟩ := hi.marker q hq
      exact ⟨key', List.mem_append_left _ hkey'⟩
    · obtain rfl := Trace.marked.inj (List.mem_singleton.mp hq)
      exact ⟨key, List.mem_append_left _ hkey⟩
  · rw [insertionsOf_concat (by simp)]
    exact hi.single other
  · simp [hi.keys, Trace.key?]
  · refine rely_concat hq rfl rfl fun other h => ?_
    rcases h with ⟨row, hrow, hid, hunused⟩ | h
    · by_cases hother : other = ch
      · exact Or.inr ⟨p, List.mem_append_right _ List.mem_cons_self, by rw [hother]; exact hch⟩
      · have hne : row.id ≠ ch := by
          rw [hid]
          exact hother
        exact Or.inl ⟨row, List.mem_map.mpr ⟨row, hrow, IdentityChallenge.mark_of_ne hne⟩, hid,
          hunused⟩
    · exact Or.inr h.mono

end Steps

end EvidentLedger.IdentityKeys
