import EvidentLedger.RateLimiter.Counter

/-!
# How long a refused client is told to wait

**`retry_after_honest_iff`**: `retry_after_secs` is rounded down, so waiting that long is enough exactly
where the rest of the window is a whole number of seconds, or no more than one. `retry_after_too_early` is
told 59 seconds and refused again when they are over.
-/

namespace EvidentLedger.RateLimiter

variable {Client : Type} [DecidableEq Client]

/-! ## `retry_after_secs` -/

section Retry

variable {config : RateLimitConfig} {table : Table Client} {call : Call Client}
  {others : List (Call Client)} {e : WindowEntry}

/-- What is left of a window at `now`, in nanoseconds. -/
def WindowEntry.rest (config : RateLimitConfig) (now : Int) (entry : WindowEntry) : Int :=
  entry.windowStart + config.window - now

/-- Some requests are allowed, and the window of the client, which has begun, ends in a whole number of
seconds or in no more than one. -/
def Punctual (config : RateLimitConfig) (table : Table Client) (call : Call Client) : Prop :=
  0 < config.maxRequests ∧ ∃ e, table.get? call.client = some e ∧ e.windowStart ≤ call.now ∧
    (e.rest config call.now ≤ NANOS_PER_SEC ∨ (NANOS_PER_SEC : Int) ∣ e.rest config call.now)

/-- The time at which the client is told to come back. -/
def retryTime (config : RateLimitConfig) (table : Table Client) (call : Call Client) : Int :=
  call.now + (checkAt config table call).1.retryAfterSecs * NANOS_PER_SEC

/-- A refusal leaves the window as it is. -/
theorem checkAt_denied (hdenied : (checkAt config table call).1.allowed = false) :
    config.maxRequests ≤ (opened config table call).count ∧
      (checkAt config table call).2 =
        (pruned config call table).set call.client (opened config table call) := by
  cases checkAt_cases config table call with
  | inl h => exact ⟨h.1, h.2.2.2⟩
  | inr h => exact absurd (h.2.1.symm.trans hdenied) (by simp)

theorem allowed_iff : (checkAt config table call).1.allowed = true ↔
    (opened config table call).count < config.maxRequests := by
  cases checkAt_cases config table call with
  | inl h => simp [h.2.1, h.1]
  | inr h => simp [h.2.1, h.1]

/-- Where some requests are allowed, a refused client has a window. -/
theorem pruned_of_denied (hdenied : (checkAt config table call).1.allowed = false)
    (hmax : 0 < config.maxRequests) :
    ∃ e, (pruned config call table).get? call.client = some e ∧ opened config table call = e ∧
      config.maxRequests ≤ e.count := by
  have hfull := (checkAt_denied hdenied).1
  cases hfound : (pruned config call table).get? call.client with
  | some e => exact ⟨e, rfl, opened_some hfound, opened_some hfound ▸ hfull⟩
  | none =>
    rw [opened_none hfound] at hfull
    exact absurd hfull (Nat.not_le.mpr hmax)

/-- Pruned tables are within the bound. -/
theorem length_pruned_le : (pruned config call table).entries.length ≤ config.maxEntries := by
  unfold pruned enforceCapacity
  split_ifs with hle
  · exact hle
  · generalize evictExpired table config.window call.now = evicted at hle
    have hlength : (overflowKeys call.order evicted config.maxEntries).length =
        evicted.entries.length - config.maxEntries := by
      rw [overflowKeys, List.length_take, List.length_insertionSort, (call.order.perm _).length_eq,
        List.length_map]
      omega
    have hnodup : (overflowKeys call.order evicted config.maxEntries).Nodup :=
      (List.take_sublist _ _).nodup
        (((List.perm_insertionSort _ _).trans (call.order.perm _)).nodup_iff.mpr evicted.nodup)
    have hsub : overflowKeys call.order evicted config.maxEntries ⊆
        (evicted.entries.filter fun pair =>
          (overflowKeys call.order evicted config.maxEntries).contains pair.1).map Prod.fst := by
      intro c hc
      have hmem := (((List.perm_insertionSort _ _).trans (call.order.perm _)).mem_iff.mp
        (List.mem_of_mem_take hc))
      obtain ⟨pair, hpair, rfl⟩ := List.mem_map.mp hmem
      exact List.mem_map_of_mem (List.mem_filter.mpr ⟨hpair, by simpa using hc⟩)
    have hle' := (List.subperm_of_subset hnodup hsub).length_le
    have hsplit := List.length_eq_countP_add_countP (fun pair : Client × WindowEntry =>
      (overflowKeys call.order evicted config.maxEntries).contains pair.1) (l := evicted.entries)
    rw [List.countP_eq_length_filter, List.countP_eq_length_filter] at hsplit
    rw [List.length_map] at hle'
    have hrest : (evicted.retain fun client _ =>
        !(overflowKeys call.order evicted config.maxEntries).contains client).entries =
        evicted.entries.filter fun pair => decide
          ¬ (overflowKeys call.order evicted config.maxEntries).contains pair.1 = true :=
      List.filter_congr fun pair _ => by simp
    rw [hrest]
    omega

/-- **The others** leave the window of a client, or evict it. -/
theorem get?_tableAfter_others (hothers : ∀ o ∈ others, o.client ≠ call.client)
    (hget : (tableAfter config table others).get? call.client = some e) :
    table.get? call.client = some e := by
  induction others using List.reverseRecOn with
  | nil => exact hget
  | append_singleton others o ih =>
    rw [tableAfter_concat, get?_checkAt_of_ne (hothers o (by simp)).symm] at hget
    exact ih (fun o' hmem => hothers o' (List.mem_append_left _ hmem)) (get?_pruned hget).1

/-- Rounding down, but not to zero, is enough exactly for multiples and for what is no more than one. -/
theorem le_max_div_mul_iff {rest n : Nat} (hrest : 0 < rest) :
    rest ≤ max (rest / n) 1 * n ↔ rest ≤ n ∨ n ∣ rest := by
  have hdiv : rest / n * n + rest % n = rest := Nat.div_add_mod' rest n
  have hdvd : n ∣ rest ↔ rest % n = 0 := Nat.dvd_iff_mod_eq_zero
  by_cases hone : rest / n ≤ 1
  · rw [Nat.max_eq_right hone, Nat.one_mul]
    refine ⟨Or.inl, fun h => h.elim id fun hmul => ?_⟩
    rw [hdvd.mp hmul, Nat.add_zero] at hdiv
    have hle : rest / n * n ≤ 1 * n := Nat.mul_le_mul_right n hone
    omega
  · have hlt : 1 < rest / n := Nat.lt_of_not_le hone
    rw [Nat.max_eq_left hlt.le, hdvd]
    have hle : 2 * n ≤ rest / n * n := Nat.mul_le_mul_right n hlt
    omega

omit [DecidableEq Client] in
/-- `retry_after_secs` covers the rest of a live window exactly in the punctual case. -/
theorem le_retryAfter_iff (hlive : e.Live config.window call.now) :
    e.rest config call.now ≤ (retryAfter config (durationSince call.now e.windowStart) : Nat) *
        (NANOS_PER_SEC : Nat) ↔
      e.windowStart ≤ call.now ∧
        (e.rest config call.now ≤ NANOS_PER_SEC ∨
          (NANOS_PER_SEC : Int) ∣ e.rest config call.now) := by
  have hpos : 0 < NANOS_PER_SEC := by decide
  have hlt : durationSince call.now e.windowStart < config.window := hlive
  have hretry : retryAfter config (durationSince call.now e.windowStart) =
      max ((config.window - durationSince call.now e.windowStart) / NANOS_PER_SEC) 1 := if_pos hlt.le
  by_cases hstart : e.windowStart ≤ call.now
  · have hrest : e.rest config call.now =
        ((config.window - durationSince call.now e.windowStart : Nat) : Int) := by
      unfold WindowEntry.rest durationSince at *
      omega
    rw [hretry, hrest, ← Int.natCast_mul, Int.ofNat_le, le_max_div_mul_iff (by omega),
      Int.ofNat_le, Int.natCast_dvd_natCast]
    simp [hstart]
  · have hzero : durationSince call.now e.windowStart = 0 := by
      unfold durationSince
      omega
    rw [hzero] at hlt hretry
    have hsecs : 0 < config.windowSecs := Nat.pos_of_mul_pos_right hlt
    have hdiv : config.window / NANOS_PER_SEC = config.windowSecs :=
      Nat.mul_div_cancel _ hpos
    rw [hzero, hretry, Nat.sub_zero, hdiv, Nat.max_eq_left hsecs, ← Int.natCast_mul]
    have hmore : (config.window : Int) < e.rest config call.now := by
      unfold WindowEntry.rest
      omega
    refine ⟨fun h => absurd h (not_le.mpr hmore), fun h => absurd h.1 hstart⟩

end Retry

/-- **`retry_after_secs` is honest exactly in the punctual case**: whatever the other clients do in
between, the client is allowed when it comes back. -/
theorem retry_after_honest_iff (config : RateLimitConfig) (table : Table Client)
    (call : Call Client) (hdenied : (checkAt config table call).1.allowed = false) :
    (∀ others : List (Call Client), (∀ o ∈ others, o.client ≠ call.client ∧ call.now ≤ o.now ∧
        o.now ≤ retryTime config table call) → others.Pairwise (·.now ≤ ·.now) →
      ∀ again : Call Client, again.client = call.client → again.now = retryTime config table call →
        (checkAt config (tableAfter config (checkAt config table call).2 others)
          again).1.allowed = true) ↔ Punctual config table call := by
  obtain ⟨hfull, htable⟩ := checkAt_denied hdenied
  constructor
  · intro h
    have hallowed := h [] (by simp) List.Pairwise.nil
      { call with now := retryTime config table call } rfl rfl
    rw [allowed_iff] at hallowed
    have hmax : 0 < config.maxRequests := Nat.lt_of_le_of_lt (Nat.zero_le _) hallowed
    obtain ⟨e, hpruned, hopened, hcount⟩ := pruned_of_denied hdenied hmax
    obtain ⟨hget, hlive⟩ := get?_pruned hpruned
    refine ⟨hmax, e, hget, (le_retryAfter_iff hlive).mp ?_⟩
    have hended : ¬ e.Live config.window (retryTime config table call) := by
      intro hstill
      have hlength : (checkAt config table call).2.entries.length ≤ config.maxEntries := by
        rw [htable, Table.length_set, hpruned]
        exact length_pruned_le
      have hevicted : pruned config { call with now := retryTime config table call }
          (checkAt config table call).2 =
            evictExpired (checkAt config table call).2 config.window (retryTime config table call) :=
        enforceCapacity_of_le _ ((Table.length_retain_le _ _).trans hlength)
      have hkept : (pruned config { call with now := retryTime config table call }
          (checkAt config table call).2).get? call.client = some e := by
        rw [hevicted, get?_evictExpired_eq_some, htable, Table.get?_set_self, hopened]
        exact ⟨rfl, hstill⟩
      rw [tableAfter, List.foldl_nil, opened_some hkept] at hallowed
      exact absurd hallowed (Nat.not_lt.mpr hcount)
    have hretry := @retryAfterSecs_checkAt _ _ config table call
    rw [hopened] at hretry
    unfold WindowEntry.Live durationSince retryTime at hended
    unfold WindowEntry.Live durationSince at hlive
    rw [hretry] at hended
    unfold WindowEntry.rest
    omega
  · rintro ⟨hmax, e, hget, hpunctual⟩ others hothers - again hclient hnow
    obtain ⟨e', hpruned, hopened, hcount⟩ := pruned_of_denied hdenied hmax
    obtain ⟨hget', hlive⟩ := get?_pruned hpruned
    obtain rfl := Option.some.inj (hget.symm.trans hget')
    have hrest := (le_retryAfter_iff hlive).mpr hpunctual
    have hretry := @retryAfterSecs_checkAt _ _ config table call
    rw [hopened] at hretry
    rw [allowed_iff]
    cases hfound : (pruned config again
        (tableAfter config (checkAt config table call).2 others)).get? again.client with
    | none =>
      rw [opened_none hfound]
      exact hmax
    | some e' =>
      obtain ⟨hthen, hstill⟩ := get?_pruned hfound
      rw [hclient] at hthen
      have hkept := get?_tableAfter_others (fun o hmem => (hothers o hmem).1) hthen
      rw [htable, Table.get?_set_self, hopened] at hkept
      obtain rfl := Option.some.inj hkept
      unfold WindowEntry.Live durationSince at hstill
      rw [hnow, retryTime, hretry] at hstill
      unfold WindowEntry.rest at hrest
      unfold WindowEntry.Live durationSince at hlive
      omega

/-- Refused at the start of its window, the client is told the whole of it. -/
theorem retry_after_honest_sampleRun :
    (checkAt ⟨1, 60, 10⟩ (tableAfter ⟨1, 60, 10⟩ (checkAt ⟨1, 60, 10⟩
      (tableAfter ⟨1, 60, 10⟩ Table.empty [sampleCall 0 0]) (sampleCall 0 0)).2
        [sampleCall 1 30000000000]) (sampleCall 0 60000000000)).1.allowed = true := by
  refine (retry_after_honest_iff ⟨1, 60, 10⟩ (tableAfter ⟨1, 60, 10⟩ Table.empty [sampleCall 0 0])
    (sampleCall 0 0) (by decide)).mpr ?_ [sampleCall 1 30000000000] (by decide) (by simp)
    (sampleCall 0 60000000000) rfl (by decide)
  exact ⟨by decide, ⟨0, 1⟩, by decide, by decide, Or.inr (by decide)⟩

/-- Refused half a second later, it is told 59 seconds, and refused again when they are over. -/
theorem retry_after_too_early :
    (checkAt ⟨1, 60, 10⟩ (tableAfter ⟨1, 60, 10⟩ Table.empty [sampleCall 0 0])
      (sampleCall 0 500000000)).1.allowed = false ∧
    (checkAt ⟨1, 60, 10⟩ (tableAfter ⟨1, 60, 10⟩ Table.empty [sampleCall 0 0])
      (sampleCall 0 500000000)).1.retryAfterSecs = 59 ∧
    (checkAt ⟨1, 60, 10⟩ (tableAfter ⟨1, 60, 10⟩ Table.empty [sampleCall 0 0, sampleCall 0 500000000])
      (sampleCall 0 (500000000 + 59 * NANOS_PER_SEC))).1.allowed = false := by
  decide

end EvidentLedger.RateLimiter
