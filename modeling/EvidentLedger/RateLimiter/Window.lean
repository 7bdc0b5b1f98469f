import Mathlib.Data.List.Dedup
import Mathlib.Data.List.Sort
import Mathlib.Tactic.SplitIfs
import Mathlib.Data.List.Induction

/-!
# The fixed-window rate limiter

Model of `FixedWindowLimiter` (`src/state/rate_limiter.rs:78-205`), which is shared by all clients: a
hash map from client keys to windows, under a mutex. A check drops the windows that have ended, makes
room, opens a window for a client without one, and counts.

* Times are nanoseconds. `Instant::duration_since` is zero for a later instant.
* The order in which a hash map lists its keys is arbitrary, and may be another one at each call: it
  comes with the call (`KeyOrder`), and so does what the clocks say for `reset_unix`.
* `enforce_capacity` runs before the window of a new client is inserted, so the table may end up with
  one window more than `max_entries`.

What a check finds and leaves under a key is said by lookups: `get?_pruned`, `checkAt_table`.
-/

namespace EvidentLedger.RateLimiter

/-! ## Configuration and windows -/

structure RateLimitConfig where
  maxRequests : Nat
  windowSecs : Nat
  maxEntries : Nat
  deriving DecidableEq

def NANOS_PER_SEC : Nat := 1000000000

/-- `Duration::from_secs(window_secs)`. -/
def RateLimitConfig.window (config : RateLimitConfig) : Nat := config.windowSecs * NANOS_PER_SEC

structure RateLimitDecision where
  allowed : Bool
  retryAfterSecs : Nat
  remaining : Nat
  resetUnix : Nat
  deriving DecidableEq

structure WindowEntry where
  windowStart : Int
  count : Nat
  deriving DecidableEq

/-- `entry.count += 1`. -/
def WindowEntry.counted (entry : WindowEntry) : WindowEntry := ⟨entry.windowStart, entry.count + 1⟩

theorem WindowEntry.counted_windowStart (entry : WindowEntry) :
    entry.counted.windowStart = entry.windowStart := rfl

/-- `Instant::duration_since`. -/
def durationSince (now start : Int) : Nat := (now - start).toNat

variable {Client : Type}

/-- A hash map: the keys are distinct. -/
structure Table (Client : Type) where
  entries : List (Client × WindowEntry)
  nodup : (entries.map Prod.fst).Nodup

namespace Table

def empty : Table Client := ⟨[], List.nodup_nil⟩

def retain (table : Table Client) (keep : Client → WindowEntry → Bool) : Table Client :=
  ⟨table.entries.filter fun pair => keep pair.1 pair.2,
    (List.filter_sublist.map Prod.fst).nodup table.nodup⟩

theorem length_retain_le (table : Table Client) (keep : Client → WindowEntry → Bool) :
    (table.retain keep).entries.length ≤ table.entries.length :=
  List.length_filter_le _ _

variable [DecidableEq Client]

def get? (table : Table Client) (client : Client) : Option WindowEntry :=
  (table.entries.find? (·.1 == client)).map (·.2)

theorem nodup_set (table : Table Client) (client : Client) (entry : WindowEntry) :
    ((table.entries.filter (·.1 != client) ++ [(client, entry)]).map Prod.fst).Nodup := by
  rw [List.map_append, List.nodup_append]
  refine ⟨(List.filter_sublist.map Prod.fst).nodup table.nodup, by simp, ?_⟩
  rintro a ha b hb rfl
  obtain ⟨pair, hpair, rfl⟩ := List.mem_map.mp ha
  simp only [List.map_cons, List.map_nil, List.mem_singleton] at hb
  simpa [hb] using (List.mem_filter.mp hpair).2

def set (table : Table Client) (client : Client) (entry : WindowEntry) : Table Client :=
  ⟨table.entries.filter (·.1 != client) ++ [(client, entry)], nodup_set table client entry⟩

end Table

variable [DecidableEq Client]

/-- The order in which a hash map lists its keys. -/
structure KeyOrder (Client : Type) where
  list : List Client → List Client
  perm : ∀ keys, (list keys).Perm keys

/-- A call of `check`, with the keys in some order, and what the clocks say when `unix_after` reads
them. -/
structure Call (Client : Type) where
  client : Client
  now : Int
  order : KeyOrder Client
  unix : Nat
  instant : Int

/-! ## `check_at` -/

def evictExpired (table : Table Client) (window : Nat) (now : Int) : Table Client :=
  table.retain fun _ entry => durationSince now entry.windowStart < window

/-- The start of the window of a listed key. -/
def Table.startOf (table : Table Client) (client : Client) : Int :=
  ((table.get? client).map (·.windowStart)).getD 0

/-- The keys that `enforce_capacity` removes. -/
def overflowKeys (order : KeyOrder Client) (table : Table Client) (maxEntries : Nat) : List Client :=
  ((order.list (table.entries.map Prod.fst)).insertionSort
    fun a b => table.startOf a ≤ table.startOf b).take (table.entries.length - maxEntries)

def enforceCapacity (order : KeyOrder Client) (table : Table Client) (maxEntries : Nat) :
    Table Client :=
  if table.entries.length ≤ maxEntries then table
  else
    let keys := overflowKeys order table maxEntries
    table.retain fun client _ => !keys.contains client

def unixAfter (call : Call Client) (start : Int) (window : Nat) : Nat :=
  call.unix + (window - durationSince call.instant start) / NANOS_PER_SEC

/-- The window of a client at `now`: its own, or a new one. -/
def currentWindow (window : Nat) (now : Int) (found : Option WindowEntry) : WindowEntry :=
  let entry := found.getD ⟨now, 0⟩
  if window ≤ durationSince now entry.windowStart then ⟨now, 0⟩ else entry

/-- `window.checked_sub(elapsed).map(|d| d.as_secs().max(1)).unwrap_or(window_secs)`. -/
def retryAfter (config : RateLimitConfig) (elapsed : Nat) : Nat :=
  if elapsed ≤ config.window then max ((config.window - elapsed) / NANOS_PER_SEC) 1
  else config.windowSecs

/-- The table before the window of the client is looked up. -/
def pruned (config : RateLimitConfig) (call : Call Client) (table : Table Client) : Table Client :=
  enforceCapacity call.order (evictExpired table config.window call.now) config.maxEntries

/-- `check_at`. -/
def checkAt (config : RateLimitConfig) (table : Table Client) (call : Call Client) :
    RateLimitDecision × Table Client :=
  let table := pruned config call table
  let entry := currentWindow config.window call.now (table.get? call.client)
  let retryAfterSecs := retryAfter config (durationSince call.now entry.windowStart)
  let resetUnix := unixAfter call entry.windowStart config.window
  if config.maxRequests ≤ entry.count then
    (⟨false, retryAfterSecs, 0, resetUnix⟩, table.set call.client entry)
  else
    (⟨true, retryAfterSecs, config.maxRequests - (entry.count + 1), resetUnix⟩,
      table.set call.client entry.counted)

/-- The table after some calls. -/
def tableAfter (config : RateLimitConfig) (table : Table Client) (calls : List (Call Client)) :
    Table Client :=
  calls.foldl (fun table call => (checkAt config table call).2) table

theorem tableAfter_concat (config : RateLimitConfig) (table : Table Client)
    (calls : List (Call Client)) (call : Call Client) :
    tableAfter config table (calls ++ [call]) =
      (checkAt config (tableAfter config table calls) call).2 := by
  simp [tableAfter]

/-! ## Looking up a window -/

section Lookups

variable {table : Table Client} {client other : Client} {entry e : WindowEntry}

namespace Table

theorem get?_eq_some : table.get? client = some e ↔ (client, e) ∈ table.entries := by
  unfold get?
  constructor
  · intro h
    obtain ⟨pair, hpair, rfl⟩ := Option.map_eq_some_iff.mp h
    have hkey : pair.1 = client := by simpa using List.find?_some hpair
    rw [← hkey]
    exact List.mem_of_find?_eq_some hpair
  · intro h
    cases hfind : table.entries.find? (·.1 == client) with
    | none => exact absurd (List.find?_eq_none.mp hfind _ h) (by simp)
    | some pair =>
      have hkey : pair.1 = client := by simpa using List.find?_some hfind
      have heq := List.inj_on_of_nodup_map table.nodup (List.mem_of_find?_eq_some hfind) h hkey
      rw [heq]
      rfl

theorem get?_empty : (empty : Table Client).get? client = none := rfl

theorem get?_retain (keep : Client → WindowEntry → Bool) :
    (table.retain keep).get? client = (table.get? client).filter (keep client) := by
  refine Option.ext fun e => ?_
  rw [get?_eq_some, Option.filter_eq_some_iff, get?_eq_some]
  exact List.mem_filter

theorem get?_set_self : (table.set client entry).get? client = some entry :=
  get?_eq_some.mpr (by simp [set])

theorem get?_set_of_ne (hne : other ≠ client) :
    (table.set client entry).get? other = table.get? other := by
  refine Option.ext fun e => ?_
  rw [get?_eq_some, get?_eq_some]
  simp [set, hne]

/-- As many windows as there are keys. -/
theorem length_set : (table.set client entry).entries.length =
    table.entries.length + if (table.get? client).isSome then 0 else 1 := by
  have hrest : (table.entries.filter (·.1 != client)).length +
      (table.entries.filter (·.1 == client)).length = table.entries.length := by
    rw [← List.countP_eq_length_filter, ← List.countP_eq_length_filter, Nat.add_comm,
      List.length_eq_countP_add_countP (fun pair => pair.1 == client) (l := table.entries)]
    exact congrArg _ (List.countP_congr fun pair _ => by simp)
  have hsame : (table.entries.filter (·.1 == client)).length =
      if (table.get? client).isSome then 1 else 0 := by
    have hcount := List.nodup_iff_count_le_one.mp table.nodup client
    rw [List.count, List.countP_map, List.countP_eq_length_filter] at hcount
    cases hget : table.get? client with
    | none =>
      rw [if_neg (by simp), List.length_eq_zero_iff, List.filter_eq_nil_iff]
      rintro ⟨k, e⟩ hmem hk
      obtain rfl : k = client := by simpa using hk
      rw [get?_eq_some.mpr hmem] at hget
      exact absurd hget (by simp)
    | some e =>
      rw [if_pos (by simp)]
      have hpos : 0 < (table.entries.filter (·.1 == client)).length :=
        List.length_pos_iff.mpr (List.ne_nil_of_mem
          (List.mem_filter.mpr ⟨get?_eq_some.mp hget, by simp⟩))
      have hle : (table.entries.filter (·.1 == client)).length ≤ 1 := hcount
      omega
  simp only [set, List.length_append, List.length_singleton]
  split_ifs at hsame ⊢
  · omega
  · omega

end Table

end Lookups

/-! ## Live windows -/

/-- The window has not ended. -/
def WindowEntry.Live (window : Nat) (now : Int) (entry : WindowEntry) : Prop :=
  durationSince now entry.windowStart < window

instance (window : Nat) (now : Int) (entry : WindowEntry) : Decidable (entry.Live window now) :=
  inferInstanceAs (Decidable (_ < _))

section Checks

variable {config : RateLimitConfig} {table : Table Client} {call : Call Client} {client : Client}
  {entry e : WindowEntry} {now : Int} {window : Nat} {calls : List (Call Client)}

theorem get?_evictExpired : (evictExpired table window now).get? client =
    (table.get? client).filter fun entry => decide (entry.Live window now) :=
  Table.get?_retain _

theorem get?_evictExpired_eq_some : (evictExpired table window now).get? client = some e ↔
    table.get? client = some e ∧ e.Live window now := by
  rw [get?_evictExpired, Option.filter_eq_some_iff, decide_eq_true_iff]

theorem enforceCapacity_of_le (order : KeyOrder Client) {maxEntries : Nat}
    (h : table.entries.length ≤ maxEntries) : enforceCapacity order table maxEntries = table :=
  if_pos h

/-- What is in the pruned table is live, and was there before. -/
theorem get?_pruned (h : (pruned config call table).get? client = some e) :
    table.get? client = some e ∧ e.Live config.window call.now := by
  rw [← get?_evictExpired_eq_some]
  unfold pruned enforceCapacity at h
  split_ifs at h
  · exact h
  · rw [Table.get?_retain, Option.filter_eq_some_iff] at h
    exact h.1

theorem currentWindow_some (h : e.Live window now) : currentWindow window now (some e) = e :=
  if_neg (Nat.not_le.mpr h)

theorem currentWindow_none : currentWindow window now none = ⟨now, 0⟩ := by
  unfold currentWindow
  simp only [Option.getD_none, ite_self]

variable (config table call) in
/-- The window that a check counts in. -/
@[irreducible] def opened : WindowEntry :=
  currentWindow config.window call.now ((pruned config call table).get? call.client)

theorem opened_some (h : (pruned config call table).get? call.client = some e) :
    opened config table call = e := by
  rw [opened, h, currentWindow_some (get?_pruned h).2]

theorem opened_none (h : (pruned config call table).get? call.client = none) :
    opened config table call = ⟨call.now, 0⟩ := by
  rw [opened, h, currentWindow_none]

theorem checkAt_eq : checkAt config table call =
    (if config.maxRequests ≤ (opened config table call).count then
      (⟨false, retryAfter config (durationSince call.now (opened config table call).windowStart), 0,
        unixAfter call (opened config table call).windowStart config.window⟩,
        (pruned config call table).set call.client (opened config table call))
    else
      (⟨true, retryAfter config (durationSince call.now (opened config table call).windowStart),
        config.maxRequests - ((opened config table call).count + 1),
        unixAfter call (opened config table call).windowStart config.window⟩,
        (pruned config call table).set call.client (opened config table call).counted)) := by
  unfold opened
  rfl

variable (config table call) in
/-- **A check** counts in the opened window, or refuses. -/
theorem checkAt_cases :
    (config.maxRequests ≤ (opened config table call).count ∧
      (checkAt config table call).1.allowed = false ∧
      (checkAt config table call).1.remaining = 0 ∧
      (checkAt config table call).2 = (pruned config call table).set call.client
        (opened config table call)) ∨
    ((opened config table call).count < config.maxRequests ∧
      (checkAt config table call).1.allowed = true ∧
      (checkAt config table call).1.remaining =
        config.maxRequests - ((opened config table call).count + 1) ∧
      (checkAt config table call).2 = (pruned config call table).set call.client
        (opened config table call).counted) := by
  by_cases h : config.maxRequests ≤ (opened config table call).count
  · rw [checkAt_eq, if_pos h]
    exact Or.inl ⟨h, rfl, rfl, rfl⟩
  · rw [checkAt_eq, if_neg h]
    exact Or.inr ⟨Nat.lt_of_not_le h, rfl, rfl, rfl⟩

theorem retryAfterSecs_checkAt : (checkAt config table call).1.retryAfterSecs =
    retryAfter config (durationSince call.now (opened config table call).windowStart) := by
  rw [checkAt_eq]
  split_ifs
  · rfl
  · rfl

variable (config table call) in
/-- The table afterwards: the window of the client with some count, the others as pruned. -/
theorem checkAt_table : ∃ entry, entry.windowStart = (opened config table call).windowStart ∧
    (checkAt config table call).2 = (pruned config call table).set call.client entry := by
  cases checkAt_cases config table call with
  | inl h => exact ⟨opened config table call, rfl, h.2.2.2⟩
  | inr h => exact ⟨_, WindowEntry.counted_windowStart _, h.2.2.2⟩

theorem get?_checkAt_of_ne (hne : client ≠ call.client) :
    (checkAt config table call).2.get? client = (pruned config call table).get? client := by
  obtain ⟨entry, -, h⟩ := checkAt_table config table call
  rw [h, Table.get?_set_of_ne hne]

end Checks

end EvidentLedger.RateLimiter
