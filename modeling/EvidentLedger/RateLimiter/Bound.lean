import EvidentLedger.RateLimiter.Counter

/-!
# The bound on the windows of the rate limiter

**`limiter_bounded_iff`**: the table stays within `max_entries` exactly in the runs in which no new client
meets `max_entries` live windows; what is evicted is oldest in every run. `second_window_over_bound` is a
table for one window that holds two.
-/

namespace EvidentLedger.RateLimiter

variable {Client : Type} [DecidableEq Client]

/-! ## The bound -/

section Bound

variable {config : RateLimitConfig} {table : Table Client} {calls : List (Call Client)}
  {call : Call Client} {client other : Client} {e f : WindowEntry} {maxEntries : Nat}
  {order : KeyOrder Client}

theorem startOf_eq (h : table.get? client = some e) : table.startOf client = e.windowStart := by
  rw [Table.startOf, h]
  rfl

/-- **What overflows is oldest**: no key that stays has an earlier start. -/
theorem startOf_le_of_overflow (hc : client ∈ overflowKeys order table maxEntries)
    (ho : other ∈ table.entries.map Prod.fst) (hstay : other ∉ overflowKeys order table maxEntries) :
    table.startOf client ≤ table.startOf other := by
  have htotal : Std.Total fun a b : Client => table.startOf a ≤ table.startOf b :=
    ⟨fun a b => le_total _ _⟩
  have htrans : IsTrans Client fun a b => table.startOf a ≤ table.startOf b :=
    ⟨fun a b c => le_trans⟩
  have hsorted := List.pairwise_insertionSort
    (fun a b : Client => table.startOf a ≤ table.startOf b) (order.list (table.entries.map Prod.fst))
  have hmem : other ∈ (order.list (table.entries.map Prod.fst)).insertionSort
      fun a b => table.startOf a ≤ table.startOf b :=
    (List.mem_insertionSort _).mpr ((order.perm _).mem_iff.mpr ho)
  rw [← List.take_append_drop (table.entries.length - maxEntries)
    ((order.list (table.entries.map Prod.fst)).insertionSort
      fun a b => table.startOf a ≤ table.startOf b)] at hsorted hmem
  exact (List.pairwise_append.mp hsorted).2.2 client hc other
    ((List.mem_append.mp hmem).resolve_left hstay)

/-- A live window that is pruned started no later than one that is not. -/
theorem pruned_oldest (hget : table.get? client = some e) (hlive : e.Live config.window call.now)
    (hgone : (pruned config call table).get? client = none)
    (hkept : (pruned config call table).get? other = some f) : e.windowStart ≤ f.windowStart := by
  have hevicted : (evictExpired table config.window call.now).get? client = some e :=
    get?_evictExpired_eq_some.mpr ⟨hget, hlive⟩
  have hother : (evictExpired table config.window call.now).get? other = some f :=
    get?_evictExpired_eq_some.mpr (get?_pruned hkept)
  unfold pruned enforceCapacity at hgone hkept
  split_ifs at hgone hkept with hle
  · rw [hevicted] at hgone
    exact absurd hgone (by simp)
  · rw [Table.get?_retain, hevicted] at hgone
    rw [Table.get?_retain, hother] at hkept
    have hc : client ∈ overflowKeys call.order (evictExpired table config.window call.now)
        config.maxEntries := by
      simpa [Option.filter] using hgone
    have ho : other ∉ overflowKeys call.order (evictExpired table config.window call.now)
        config.maxEntries := by
      simpa [Option.filter] using hkept
    have hle := startOf_le_of_overflow hc
      (List.mem_map_of_mem (f := Prod.fst) (Table.get?_eq_some.mp hother)) ho
    rwa [startOf_eq hevicted, startOf_eq hother] at hle

variable (config table call) in
/-- A live window that the call removes started no later than any window that is there afterwards. -/
def EvictsOldest : Prop :=
  ∀ client e, table.get? client = some e → e.Live config.window call.now →
    (∀ e', (checkAt config table call).2.get? client = some e' → e'.windowStart ≠ e.windowStart) →
      ∀ other f, (checkAt config table call).2.get? other = some f → e.windowStart ≤ f.windowStart

/-- **Eviction is fair** in every state whose windows do not start later. -/
theorem evictsOldest (hs : Started calls table) (hnow : ∀ c ∈ calls, c.now ≤ call.now) :
    EvictsOldest config table call := by
  intro client e hget hlive hremoved other f hafter
  obtain ⟨entry, hstart, htable⟩ := checkAt_table config table call
  have hgone : (pruned config call table).get? client = none := by
    cases hfound : (pruned config call table).get? client with
    | none => rfl
    | some e' =>
      obtain rfl : e = e' := Option.some.inj (hget.symm.trans (get?_pruned hfound).1)
      by_cases hc : client = call.client
      · subst hc
        refine absurd ?_ (hremoved entry (by rw [htable, Table.get?_set_self]))
        rw [hstart, opened_some hfound]
      · exact absurd rfl (hremoved e (by rw [get?_checkAt_of_ne hc, hfound]))
  by_cases ho : other = call.client
  · subst ho
    rw [htable, Table.get?_set_self] at hafter
    obtain rfl := Option.some.inj hafter
    rw [hstart]
    cases hfound : (pruned config call table).get? call.client with
    | none =>
      rw [opened_none hfound]
      exact hs.start_le hnow hget
    | some e' =>
      rw [opened_some hfound]
      exact pruned_oldest hget hlive hgone hfound
  · rw [get?_checkAt_of_ne ho] at hafter
    exact pruned_oldest hget hlive hgone hafter

variable (config table call) in
/-- The client has a live window, or there is room for one more. -/
def Room : Prop :=
  (∃ e, table.get? call.client = some e ∧ e.Live config.window call.now) ∨
    (evictExpired table config.window call.now).entries.length < config.maxEntries

/-- From a table within the bound, the next one is within it exactly where there is room. -/
theorem length_checkAt_le_iff (hle : table.entries.length ≤ config.maxEntries) :
    (checkAt config table call).2.entries.length ≤ config.maxEntries ↔ Room config table call := by
  have hevicted : (evictExpired table config.window call.now).entries.length ≤ config.maxEntries :=
    (Table.length_retain_le _ _).trans hle
  have hpruned : pruned config call table = evictExpired table config.window call.now :=
    enforceCapacity_of_le _ hevicted
  obtain ⟨entry, -, htable⟩ := checkAt_table config table call
  rw [htable, Table.length_set, hpruned]
  cases hfound : (evictExpired table config.window call.now).get? call.client with
  | some e =>
    have hroom : Room config table call := Or.inl ⟨e, get?_evictExpired_eq_some.mp hfound⟩
    simp [hroom, hevicted]
  | none =>
    have hnot : ¬ ∃ e, table.get? call.client = some e ∧ e.Live config.window call.now := by
      rintro ⟨e, hlive⟩
      rw [get?_evictExpired_eq_some.mpr hlive] at hfound
      exact absurd hfound (by simp)
    simp only [Room, hnot, false_or, Option.isSome_none, Bool.false_eq_true, if_false]
    exact Iff.rfl

/-- With room at every call the table stays within the bound. -/
theorem length_tableAfter_le
    (hroom : ∀ before call, before ++ [call] <+: calls →
      Room config (tableAfter config Table.empty before) call) :
    (tableAfter config Table.empty calls).entries.length ≤ config.maxEntries := by
  induction calls using List.reverseRecOn with
  | nil => exact Nat.zero_le _
  | append_singleton calls call ih =>
    have hle := ih fun before c hp => hroom before c (hp.trans (List.prefix_append _ _))
    rw [tableAfter_concat]
    exact (length_checkAt_le_iff hle).mpr (hroom calls call (List.prefix_refl _))

end Bound

/-- **The table is bounded, and evicts fairly, exactly in the runs in which each check finds a live
window of its own client or fewer than `max_entries` live windows.** -/
theorem limiter_bounded_iff (config : RateLimitConfig) (calls : List (Call Client))
    (hmono : calls.Pairwise (·.now ≤ ·.now)) :
    (∀ before call, before ++ [call] <+: calls →
      (tableAfter config Table.empty (before ++ [call])).entries.length ≤ config.maxEntries ∧
        EvictsOldest config (tableAfter config Table.empty before) call) ↔
      ∀ before call, before ++ [call] <+: calls →
        Room config (tableAfter config Table.empty before) call := by
  constructor
  · intro h before call hp
    have hle : (tableAfter config Table.empty before).entries.length ≤ config.maxEntries := by
      rcases List.eq_nil_or_concat' before with rfl | ⟨before, last, rfl⟩
      · exact Nat.zero_le _
      · exact (h before last ((List.prefix_append _ _).trans hp)).1
    have hlast := (h before call hp).1
    rw [tableAfter_concat] at hlast
    exact (length_checkAt_le_iff hle).mp hlast
  · intro h before call hp
    refine ⟨length_tableAfter_le fun b c hb => h b c (hb.trans hp), ?_⟩
    obtain ⟨rest, rfl⟩ := hp
    have hpair := List.pairwise_append.mp (List.pairwise_append.mp hmono).1
    exact evictsOldest (started_tableAfter hpair.1) fun c hmem => hpair.2.2 c hmem call (by simp)

/-- One window is allowed; the second client gets one, too. -/
theorem limiter_bounded_sampleRun :
    (tableAfter ⟨1, 60, 1⟩ Table.empty [sampleCall 0 0, sampleCall 0 5]).entries.length ≤ 1 := by
  refine ((limiter_bounded_iff ⟨1, 60, 1⟩ [sampleCall 0 0, sampleCall 0 5] (by decide)).mpr ?_
    [sampleCall 0 0] (sampleCall 0 5) (List.prefix_refl _)).1
  intro before call hp
  rcases List.prefix_cons_iff.mp hp with h | ⟨l, heq, h⟩
  · exact absurd h (by simp)
  · cases before with
    | nil =>
      obtain ⟨rfl, rfl⟩ := List.cons.inj heq
      exact Or.inr (by decide)
    | cons b before =>
      obtain ⟨rfl, rfl⟩ := List.cons.inj heq
      cases before with
      | nil =>
        obtain rfl : call = sampleCall 0 5 := by
          have := h.subset (List.mem_singleton.mpr rfl)
          simpa using this
        exact Or.inl ⟨⟨0, 1⟩, by decide, by decide⟩
      | cons b before =>
        have hlen := h.length_le
        simp at hlen

/-- A table for one window holds two. -/
theorem second_window_over_bound :
    ¬ (tableAfter ⟨1, 60, 1⟩ Table.empty [sampleCall 0 0, sampleCall 1 0]).entries.length ≤ 1 := by
  decide

end EvidentLedger.RateLimiter
