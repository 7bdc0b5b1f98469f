import EvidentLedger.Ledger.Invariant
import EvidentLedger.Ledger.Requests

/-!
# What the reads after a commit find

`compute_chain_root` and `finalize_event_submission` read the whole chain from the pool once the
transaction is over (`service/ledger.rs:405-472`). They find the events that were signed, and
whatever others have committed since.

* `OwnLast` says of such a read that nothing was committed since; `allowed` restricts the runs to
  those where it holds of the readers named by `Calm`.
* **`Landed.readBack`**: then the chain read is the prefix that was signed.
-/

namespace EvidentLedger.Ledger

open Lib.Interleave Lib.Transaction

/-- The last event of a chain, if there is one, was committed by this request. -/
def OwnLast (p : Nat) (c : Uuid) (g : Shared schema) : Prop :=
  ∀ e, (Db.eventsOf g.db c).getLast? = some e → .event c e.eventId ∈ effects (writesOf p g.history)

instance (p : Nat) (c : Uuid) (g : Shared schema) : Decidable (OwnLast p c g) :=
  inferInstanceAs (Decidable (∀ e, e ∈ (Db.eventsOf g.db c).getLast? →
    Effect.event c e.eventId ∈ effects (writesOf p g.history)))

/-- The chain that a call reads from the pool. -/
def chainRead? : Call schema → Option (ChainReader × Uuid)
  | .sql (.selectChainEvents reader c) => some (reader, c)
  | _ => none

variable (calm : Calm)

/-- The steps considered: a reader that is to be calm reads a chain whose last event is its own. -/
def allowed (p : Nat) (q : Call schema) (g : Shared schema) : Prop :=
  ∀ r, r ∈ chainRead? q → calm p r.1 → OwnLast p r.2 g

instance [∀ p reader, Decidable (calm p reader)] (p : Nat) (q : Call schema) (g : Shared schema) :
    Decidable (allowed calm p q g) :=
  inferInstanceAs (Decidable (∀ r, r ∈ chainRead? q → calm p r.1 → OwnLast p r.2 g))

/-- Requests over tables without rows, in the runs where the readers named are calm. -/
def Setting.quiet (state : AppState) (requests : Nat → Request)
    (capabilities : Uuid → Option AccountCapabilities) (identityKeys : List IdentityKeyRow) :
    Setting where
  state
  requests
  admits _ _ _ _ := true
  ok := allowed calm
  db₀ := Db.empty capabilities identityKeys

variable {state : AppState} {requests : Nat → Request} {ok : Nat → Call schema → Shared schema → Prop}
  {db₀ db : Db} {h : History schema} {p : Nat} {account eventId : Uuid} {req : SubmitEventRequest}
  {snapshot : ProofSnapshot} {after : List Write}

/-- Nothing follows the last event of a chain. -/
theorem eq_of_last {before events : List EventRecord} {e : EventRecord}
    (hp : before ++ [e] <+: events) (hids : (events.map EventRecord.eventId).Nodup)
    (hlast : ∀ e', events.getLast? = some e' → e'.eventId = e.eventId) :
    events = before ++ [e] := by
  obtain ⟨rest, rfl⟩ := hp
  cases hrest : rest.getLast? with
  | none => rw [List.getLast?_eq_none_iff.mp hrest, List.append_nil]
  | some e' =>
    have hid : e'.eventId = e.eventId :=
      hlast e' (by rw [List.getLast?_append, hrest, Option.some_or])
    rw [List.append_assoc, List.map_append] at hids
    have hne := (List.nodup_append.mp hids).2.1
    rw [List.singleton_append, List.map_cons] at hne
    have hmem : e'.eventId ∈ rest.map EventRecord.eventId :=
      List.mem_map_of_mem (List.mem_of_getLast? hrest)
    rw [hid] at hmem
    exact absurd hmem (List.nodup_cons.mp hne).1

/-- The one event of a request. -/
theorem Landed.eventId_eq (hr : Recorded state requests ok db₀ db h)
    (hl : Landed state ok db₀ p account req eventId snapshot after h) {c id : Uuid}
    (hmem : .event c id ∈ effects (writesOf p h)) : id = eventId := by
  obtain ⟨tokens, heff, htok⟩ := hr.effects_of_landed hl
  obtain ⟨h₀, a, -, -, -, hafter, -, -⟩ := hl
  rw [heff] at hmem
  rcases List.mem_append.mp hmem with hmem | hmem
  · rcases hafter with rfl | ⟨r, rfl, -⟩
    all_goals
      simp only [effects, Write.effect?, List.filterMap_nil, List.filterMap_cons, List.cons_append,
        List.nil_append, List.append_nil, List.mem_cons, Effect.event.injEq, List.not_mem_nil,
        reduceCtorEq, or_false] at hmem
      exact hmem.2
  · obtain ⟨row, hrow⟩ := htok _ hmem
    exact absurd hrow (by simp)

/-- **A chain read that ends in an own event is the prefix that was signed.** -/
theorem Landed.readBack {g : Shared schema} (hr : Recorded state requests ok db₀ g.db g.history)
    (hi : LedgerInv state db₀)
    (hl : Landed state ok db₀ p account req eventId snapshot after g.history)
    (hlast : OwnLast p req.chainId g) :
    ∃ before e, chainRows g req.chainId = rows (before ++ [e]) ∧
      before ++ [e] <+: Db.eventsOf g.db req.chainId ∧ Linked none (rows (before ++ [e])) ∧
      e.eventId = eventId ∧ snapshot = snapshotOf state req.chainId eventId (before ++ [e]) := by
  obtain ⟨before, e, hp, hlinked, rfl, hs⟩ := hl.prefix hr hi
  have hinv := hr.ledgerInv hi
  have heq : Db.eventsOf g.db req.chainId = before ++ [e] :=
    eq_of_last hp (hinv.ids.sublist (List.filter_sublist.map _)) fun e' he' =>
      hl.eventId_eq hr (hlast e' he')
  refine ⟨before, e, ?_, hp, hlinked, rfl, hs⟩
  rw [chainRows, orderBySequence_linked (hinv.chains _).linked, heq]

end EvidentLedger.Ledger
