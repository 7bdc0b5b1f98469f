import EvidentLedger.RateLimiter.Window

/-!
# One client of the rate limiter

`Counter` is the abstract limiter: one client, one window, at most `max_requests` in it. The counter of a
client after some calls (`counterOf`) sees the calls of this client only.

**`limiter_independent`**: as long as at most `max_entries` windows are live, the limiter decides as a
counter of its own would for each client.
-/

namespace EvidentLedger.RateLimiter

variable {Client : Type} [DecidableEq Client]

/-! ## One client -/

/-- A fixed-window counter: the window that was opened last. -/
abbrev Counter := Option WindowEntry

/-- The window has ended. -/
def Ended (config : RateLimitConfig) (now : Int) (entry : WindowEntry) : Prop :=
  entry.windowStart + config.window ≤ now

instance (config : RateLimitConfig) (now : Int) (entry : WindowEntry) :
    Decidable (Ended config now entry) :=
  inferInstanceAs (Decidable (_ ≤ _))

/-- A check in the window that started at `start`: whether it is allowed, and how many are left. -/
def Counter.take (config : RateLimitConfig) (start : Int) (used : Nat) : (Bool × Nat) × Counter :=
  if used < config.maxRequests then
    ((true, config.maxRequests - (used + 1)), some ⟨start, used + 1⟩)
  else ((false, 0), some ⟨start, used⟩)

theorem Counter.take_of_le {config : RateLimitConfig} {entry : WindowEntry}
    (h : config.maxRequests ≤ entry.count) :
    Counter.take config entry.windowStart entry.count = ((false, 0), some entry) :=
  if_neg (Nat.not_lt.mpr h)

theorem Counter.take_of_lt {config : RateLimitConfig} {entry : WindowEntry}
    (h : entry.count < config.maxRequests) :
    Counter.take config entry.windowStart entry.count =
      ((true, config.maxRequests - (entry.count + 1)), some entry.counted) :=
  if_pos h

/-- The first check, and the first after the window has ended, opens a window. -/
def Counter.check (config : RateLimitConfig) (now : Int) : Counter → (Bool × Nat) × Counter
  | none => Counter.take config now 0
  | some entry =>
    if Ended config now entry then Counter.take config now 0
    else Counter.take config entry.windowStart entry.count

/-- The counter after checks at some times. -/
def Counter.after (config : RateLimitConfig) (times : List Int) : Counter :=
  times.foldl (fun counter now => (counter.check config now).2) none

/-- The times of the checks of a client. -/
def timesOf (client : Client) (calls : List (Call Client)) : List Int :=
  (calls.filter (·.client == client)).map (·.now)

/-- The counter of a client after some calls. -/
def counterOf (config : RateLimitConfig) (calls : List (Call Client)) (client : Client) : Counter :=
  Counter.after config (timesOf client calls)

/-- The client has a window that has not ended. -/
def LiveAt (config : RateLimitConfig) (calls : List (Call Client)) (now : Int) (client : Client) :
    Prop :=
  ∃ entry, counterOf config calls client = some entry ∧ ¬ Ended config now entry

/-- At most `max_entries` clients have live windows. -/
def FewLive (config : RateLimitConfig) (calls : List (Call Client)) (now : Int) : Prop :=
  ∀ clients : List Client, clients.Nodup → (∀ client ∈ clients, LiveAt config calls now client) →
    clients.length ≤ config.maxEntries

section Counters

variable {config : RateLimitConfig} {calls : List (Call Client)} {call : Call Client}
  {client : Client} {entry e : WindowEntry} {now : Int}

theorem counterOf_self : counterOf config (calls ++ [call]) call.client =
    ((counterOf config calls call.client).check config call.now).2 := by
  simp [counterOf, timesOf, Counter.after]

theorem counterOf_of_ne (hne : client ≠ call.client) :
    counterOf config (calls ++ [call]) client = counterOf config calls client := by
  simp [counterOf, timesOf, hne.symm]

/-- Every window started at one of the calls, or before. -/
def Started (calls : List (Call Client)) (table : Table Client) : Prop :=
  ∀ client e, table.get? client = some e → ∃ call ∈ calls, e.windowStart ≤ call.now

theorem Started.start_le {table : Table Client} (hs : Started calls table)
    (hnow : ∀ call ∈ calls, call.now ≤ now) (hget : table.get? client = some e) :
    e.windowStart ≤ now := by
  obtain ⟨call, hcall, hle⟩ := hs client e hget
  exact hle.trans (hnow call hcall)

/-- The window that a check counts in starts no later than the check. -/
theorem Started.opened_le {table : Table Client} (hs : Started calls table)
    (hnow : ∀ c ∈ calls, c.now ≤ call.now) : (opened config table call).windowStart ≤ call.now := by
  cases hfound : (pruned config call table).get? call.client with
  | none => rw [opened_none hfound]
  | some e =>
    rw [opened_some hfound]
    exact hs.start_le hnow (get?_pruned hfound).1

theorem Started.step {table : Table Client} (hs : Started calls table)
    (hnow : ∀ c ∈ calls, c.now ≤ call.now) :
    Started (calls ++ [call]) (checkAt config table call).2 := by
  intro client e hget
  by_cases hc : client = call.client
  · subst hc
    obtain ⟨entry, hstart, htable⟩ := checkAt_table config table call
    rw [htable, Table.get?_set_self] at hget
    obtain rfl := Option.some.inj hget
    exact ⟨call, by simp, hstart ▸ hs.opened_le hnow⟩
  · rw [get?_checkAt_of_ne hc] at hget
    obtain ⟨c, hmem, hle⟩ := hs client e (get?_pruned hget).1
    exact ⟨c, List.mem_append_left _ hmem, hle⟩

theorem started_tableAfter (hmono : calls.Pairwise (·.now ≤ ·.now)) :
    Started calls (tableAfter config Table.empty calls) := by
  induction calls using List.reverseRecOn with
  | nil =>
    intro client e hget
    exact absurd hget (by simp [tableAfter, Table.get?_empty])
  | append_singleton calls call ih =>
    obtain ⟨hmono, -, hlast⟩ := List.pairwise_append.mp hmono
    rw [tableAfter_concat]
    exact (ih hmono).step fun c hmem => hlast c hmem call (by simp)

/-- **The table after some calls is that of the counters**, as far as windows are live from the last
call on. -/
structure Agrees (config : RateLimitConfig) (calls : List (Call Client)) (table : Table Client) :
    Prop where
  starts : Started calls table
  windows : ∀ now, (∀ call ∈ calls, call.now ≤ now) → ∀ client e, ¬ Ended config now e →
    (table.get? client = some e ↔ counterOf config calls client = some e)

theorem live_iff (h : e.windowStart ≤ now) : e.Live config.window now ↔ ¬ Ended config now e := by
  unfold WindowEntry.Live Ended durationSince
  omega

/-- With few live windows nothing is evicted for want of room. -/
theorem Agrees.pruned {table : Table Client} (ha : Agrees config calls table)
    (hnow : ∀ c ∈ calls, c.now ≤ call.now) (hfew : FewLive config calls call.now) :
    pruned config call table = evictExpired table config.window call.now := by
  refine enforceCapacity_of_le _ ?_
  have hlen := hfew ((evictExpired table config.window call.now).entries.map Prod.fst)
    (evictExpired table config.window call.now).nodup fun client hmem => ?_
  · rwa [List.length_map] at hlen
  · obtain ⟨⟨k, e⟩, hpair, rfl⟩ := List.mem_map.mp hmem
    obtain ⟨hget, hlive⟩ := get?_evictExpired_eq_some.mp (Table.get?_eq_some.mpr hpair)
    have hended := (live_iff (ha.starts.start_le hnow hget)).mp hlive
    exact ⟨e, (ha.windows call.now hnow k e hended).mp hget, hended⟩

/-- The window that the check counts in is that of the counter. -/
theorem Agrees.check {table : Table Client} (ha : Agrees config calls table)
    (hnow : ∀ c ∈ calls, c.now ≤ call.now) (hfew : FewLive config calls call.now) :
    (counterOf config calls call.client).check config call.now =
      Counter.take config (opened config table call).windowStart (opened config table call).count := by
  have hpruned := ha.pruned hnow hfew
  cases hget : (RateLimiter.pruned config call table).get? call.client with
  | some e =>
    obtain ⟨hget', hlive⟩ := get?_pruned hget
    have hended := (live_iff (ha.starts.start_le hnow hget')).mp hlive
    rw [opened_some hget, (ha.windows call.now hnow _ e hended).mp hget']
    exact if_neg hended
  | none =>
    rw [opened_none hget]
    cases hcounter : counterOf config calls call.client with
    | none => rfl
    | some e =>
      refine if_pos (not_not.mp fun hended => ?_)
      have hget' := (ha.windows call.now hnow _ e hended).mpr hcounter
      have hlive := (live_iff (ha.starts.start_le hnow hget')).mpr hended
      rw [hpruned, get?_evictExpired_eq_some.mpr ⟨hget', hlive⟩] at hget
      exact absurd hget (by simp)

/-- The decision of the check, and the window that it leaves to the client, are those of the counter. -/
theorem Agrees.decides {table : Table Client} (ha : Agrees config calls table)
    (hnow : ∀ c ∈ calls, c.now ≤ call.now) (hfew : FewLive config calls call.now) :
    (((checkAt config table call).1.allowed, (checkAt config table call).1.remaining),
      (checkAt config table call).2.get? call.client) =
        (counterOf config calls call.client).check config call.now := by
  rw [ha.check hnow hfew]
  cases checkAt_cases config table call with
  | inl h =>
    obtain ⟨hfull, hallowed, hremaining, htable⟩ := h
    rw [hallowed, hremaining, htable, Table.get?_set_self, Counter.take_of_le hfull]
  | inr h =>
    obtain ⟨hroom, hallowed, hremaining, htable⟩ := h
    rw [hallowed, hremaining, htable, Table.get?_set_self, Counter.take_of_lt hroom]

/-- **A check keeps the agreement.** -/
theorem Agrees.step {table : Table Client} (ha : Agrees config calls table)
    (hnow : ∀ c ∈ calls, c.now ≤ call.now) (hfew : FewLive config calls call.now) :
    Agrees config (calls ++ [call]) (checkAt config table call).2 := by
  have hdecides := congrArg Prod.snd (ha.decides hnow hfew)
  have hpruned := ha.pruned hnow hfew
  refine ⟨ha.starts.step hnow, ?_⟩
  intro now hlater client e hended
  by_cases hc : client = call.client
  · subst hc
    rw [counterOf_self, ← hdecides]
  · have hcall : call.now ≤ now := hlater call (by simp)
    have hbefore : ∀ c ∈ calls, c.now ≤ now := fun c hmem => hlater c (List.mem_append_left _ hmem)
    rw [get?_checkAt_of_ne hc, counterOf_of_ne hc, hpruned, get?_evictExpired_eq_some,
      ← ha.windows now hbefore client e hended]
    refine ⟨And.left, fun hget => ⟨hget, ?_⟩⟩
    have hle := ha.starts.start_le hnow hget
    refine (live_iff hle).mpr fun hthen => hended ?_
    unfold Ended at hthen ⊢
    omega

/-- The agreement after every run. -/
theorem agrees_tableAfter (hmono : calls.Pairwise (·.now ≤ ·.now))
    (hfew : ∀ before call, before ++ [call] <+: calls → FewLive config before call.now) :
    Agrees config calls (tableAfter config Table.empty calls) := by
  induction calls using List.reverseRecOn with
  | nil =>
    refine ⟨started_tableAfter List.Pairwise.nil, fun now _ client e _ => ?_⟩
    simp [tableAfter, Table.get?_empty, counterOf, timesOf, Counter.after]
  | append_singleton calls call ih =>
    rw [List.pairwise_append] at hmono
    obtain ⟨hmono, -, hlast⟩ := hmono
    rw [tableAfter_concat]
    have ha := ih hmono fun before c hp => hfew before c (hp.trans (List.prefix_append _ _))
    exact ha.step (fun c hmem => hlast c hmem call (by simp)) (hfew calls call (List.prefix_refl _))

/-- Only clients that have called have windows. -/
theorem LiveAt.mem (h : LiveAt config calls now client) : client ∈ calls.map (·.client) := by
  obtain ⟨entry, hcounter, -⟩ := h
  by_contra hnot
  have hnone : timesOf client calls = [] := by
    refine List.map_eq_nil_iff.mpr (List.filter_eq_nil_iff.mpr fun c hmem heq => hnot ?_)
    exact List.mem_map.mpr ⟨c, hmem, by simpa using heq⟩
  rw [counterOf, hnone] at hcounter
  exact absurd hcounter (by simp [Counter.after])

/-- With at most `max_entries` clients. -/
theorem fewLive_of_length (h : (calls.map (·.client)).dedup.length ≤ config.maxEntries) :
    FewLive config calls now := by
  intro clients hnodup hlive
  refine le_trans (List.Subperm.length_le (List.subperm_of_subset hnodup fun c hmem => ?_)) h
  exact List.mem_dedup.mpr (hlive c hmem).mem

end Counters

/-- **The limiter decides as a counter for each client would**, for every sequence of checks by any
clients, as long as at most `max_entries` windows are live. -/
theorem limiter_independent (config : RateLimitConfig) (calls : List (Call Client))
    (hmono : calls.Pairwise (·.now ≤ ·.now))
    (hfew : ∀ before call, before ++ [call] <+: calls → FewLive config before call.now)
    (before : List (Call Client)) (call : Call Client) (hcall : before ++ [call] <+: calls) :
    ((checkAt config (tableAfter config Table.empty before) call).1.allowed,
      (checkAt config (tableAfter config Table.empty before) call).1.remaining) =
        ((counterOf config before call.client).check config call.now).1 := by
  obtain ⟨rest, rfl⟩ := hcall
  rw [List.append_assoc] at hmono
  have hsub := List.pairwise_append.mp hmono
  have ha := @agrees_tableAfter _ _ config _ hsub.1 fun b c hp =>
    hfew b c (hp.trans ((List.prefix_append _ _).trans (List.prefix_append _ _)))
  have hnow : ∀ c ∈ before, c.now ≤ call.now := fun c hmem =>
    hsub.2.2 c hmem call (by simp)
  exact congrArg Prod.fst (ha.decides hnow (hfew before call (List.prefix_append _ _)))

/-- A call of client `client` at `now`, its keys in the order of the table. -/
def sampleCall (client : Nat) (now : Int) : Call Nat :=
  ⟨client, now, ⟨id, fun _ => List.Perm.refl _⟩, 0, now⟩

/-- Two clients with one request each; the second request of the first is refused. -/
theorem limiter_independent_sampleRun :
    ((checkAt ⟨1, 60, 2⟩ (tableAfter ⟨1, 60, 2⟩ Table.empty [sampleCall 0 0, sampleCall 1 5])
        (sampleCall 0 7)).1.allowed,
      (checkAt ⟨1, 60, 2⟩ (tableAfter ⟨1, 60, 2⟩ Table.empty [sampleCall 0 0, sampleCall 1 5])
        (sampleCall 0 7)).1.remaining) = (false, 0) := by
  refine (limiter_independent ⟨1, 60, 2⟩ [sampleCall 0 0, sampleCall 1 5, sampleCall 0 7] (by decide)
    (fun before call hp => fewLive_of_length ?_) [sampleCall 0 0, sampleCall 1 5] (sampleCall 0 7)
    (List.prefix_refl _)).trans (by decide)
  have hsub : before.map (·.client) ⊆ [0, 1] := by
    intro c hc
    obtain ⟨c', hmem, rfl⟩ := List.mem_map.mp hc
    have hin := hp.subset (List.mem_append_left _ hmem)
    simp only [List.mem_cons, List.not_mem_nil, or_false] at hin
    rcases hin with rfl | rfl | rfl <;> simp [sampleCall]
  exact List.Subperm.length_le (List.subperm_of_subset (List.nodup_dedup _) fun c hc =>
    hsub (List.mem_dedup.mp hc))

end EvidentLedger.RateLimiter
