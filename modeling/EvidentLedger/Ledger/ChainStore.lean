import EvidentLedger.Ledger.Invariant
import EvidentLedger.Ledger.Requests

/-!
# The chain store

What the committed tables hold for every chain, in every state reached from tables without rows by
any number of `POST /chains`, `POST /events` and `POST /v1/events` requests, whatever the order of
their statements.

* `ChainStored`: the events of a chain in the order of their sequences pass `check_event_structure`,
  the head is the last of them, and every stored signature verifies for the prefix it ends.
* **`chain_store_invariant`**: all chains are that way, and no later step changes a committed event.
-/

namespace EvidentLedger.Ledger

open Lib.Interleave Lib.Transaction

/-- **A chain as the ledger keeps it.** -/
structure ChainStored (state : AppState) (db : Db) (c : Uuid) : Prop where
  checked : ∃ root,
    checkEventStructure state.sha (rows (orderBySequence (db.eventsOf c))) = .ok root
  sequence : ∀ (i : Nat) (h : i < (orderBySequence (db.eventsOf c)).length),
    (orderBySequence (db.eventsOf c))[i].sequence.toInt = i + 1
  parent : ∀ (i : Nat) (h : i < (orderBySequence (db.eventsOf c)).length),
    (orderBySequence (db.eventsOf c))[i].parentEventId =
      ((orderBySequence (db.eventsOf c)).take i).getLast?.elim Uuid.nil (·.eventId)
  head : db.head? c = (orderBySequence (db.eventsOf c)).getLast?.map (·.eventId)
  signature : ∀ (i : Nat) (h : i < (orderBySequence (db.eventsOf c)).length),
    (orderBySequence (db.eventsOf c))[i].signature ≠ "" ∧
      verifyRoot state.ed c.toString
        (recomputeRootFromEvents state.sha (rows ((orderBySequence (db.eventsOf c)).take (i + 1))))
        (orderBySequence (db.eventsOf c))[i].eventId.toString
        (orderBySequence (db.eventsOf c))[i].signature (state.signer.publicKeyHex state.ed) = true

variable {state : AppState} {db : Db}

/-- Linked events continue what stands before them. -/
theorem parent_of_linked {events : List EventRecord} (hl : Linked none (rows events)) (i : Nat)
    (hi : i < events.length) :
    events[i].parentEventId = (events.take i).getLast?.elim Uuid.nil (·.eventId) := by
  have hsplit : events = events.take i ++ events.drop i := (List.take_append_drop i events).symm
  have hdrop : events.drop i = events[i] :: events.drop (i + 1) := List.drop_eq_getElem_cons hi
  have hl' := hl
  rw [hsplit, hdrop, rows_append] at hl'
  have hlast := (linked_append.mp hl').2
  rw [Option.or_none] at hlast
  have hparent : events[i].parentEventId = lastEventId (rows (events.take i)).getLast? := hlast.2.1
  rw [hparent, lastEventId_rows, headId]
  cases (events.take i).getLast? with
  | none => rfl
  | some e => rfl

/-- The invariant gives all of it. -/
theorem LedgerInv.chainStored (hi : LedgerInv state db) (hed : state.ed.Correct) (c : Uuid) :
    ChainStored state db c := by
  obtain ⟨hl, hs⟩ := hi.chains c
  have hord : orderBySequence (db.eventsOf c) = db.eventsOf c := orderBySequence_linked hl
  constructor
  · rw [hord]
    by_cases hne : rows (db.eventsOf c) = []
    · exact ⟨"empty", by rw [checkEventStructure, if_pos hne]⟩
    · exact ⟨_, (checkEventStructure_ok hne).mpr ⟨hl, rfl⟩⟩
  · intro i hi'
    simp only [hord] at hi' ⊢
    have hseq := hl.sequence_eq i (by simpa [rows] using hi')
    simpa [rows, EventRecord.toRow, lastSequence] using hseq
  · intro i hi'
    simp only [hord] at hi' ⊢
    exact parent_of_linked hl i hi'
  · rw [hord]
    exact hi.heads c
  · intro i hi'
    simp only [hord] at hi' ⊢
    have htake := List.take_succ_eq_append_getElem hi'
    have hsig := hs _ _ (htake ▸ List.take_prefix (i + 1) (db.eventsOf c))
    rw [← htake, signatureOf] at hsig
    rw [hsig]
    exact ⟨signRoot_ne_empty _ _ _ _, verifyRoot_signRoot hed _ _ _ _⟩

/-- **The chain store invariant.** -/
theorem chain_store_invariant (state : AppState) (hed : state.ed.Correct)
    (requests : Nat → Request) (capabilities : Uuid → Option AccountCapabilities)
    (identityKeys : List IdentityKeyRow)
    (y z : LedgerConfig)
    (hy : Reach (system schema) (fun _ _ _ => True)
      (start state requests (Db.empty capabilities identityKeys)) y)
    (hz : Reach (system schema) (fun _ _ _ => True) y z) :
    (∀ c, ChainStored state y.shared.db c) ∧ y.shared.db.events <+: z.shared.db.events := by
  have hx : (Setting.all state requests (Db.empty capabilities identityKeys)).Reach
      (start state requests (Db.empty capabilities identityKeys)) y := hy
  obtain ⟨hinv, -⟩ := ledger_reach hx
  obtain ⟨hinv', -⟩ := ledger_reach (hx.trans hz)
  refine ⟨fun c => (hinv.ledgerInv (ledgerInv_empty _ _)).chainStored hed c, ?_⟩
  have hgrow := hinv'.events (ledger_history hx hz)
  rwa [← hinv.replayed] at hgrow

/-- A server, an account on the free plan, and two requests for one chain. -/
def sampleState : AppState := ⟨sampleSha, sampleEd [], ⟨⟨List.replicate 32 1, rfl⟩⟩⟩

def sampleCapabilities (_ : Uuid) : Option AccountCapabilities :=
  some ⟨"free", .machine, false, false, false, some 100, none⟩

def sampleRequest (idempotencyKey : String) : SubmitEventRequest where
  chainId := Uuid.small 9
  fileHash := "aa"
  idempotencyKey
  parentEventId := none
  eventId := none
  identityKeyId := none
  identitySignature := none
  identityFingerprint := none

def sampleRequests (p : Nat) : Request :=
  .submitEvent (Uuid.small 1) (sampleRequest (if p = 0 then "first" else "second"))

/-- Statements of a program, one after the other, with one fresh identifier and one token. -/
def sampleSteps (p count : Nat) (uuid : UInt8) (token : Option TsaToken) : List (Nat × Choice) :=
  List.replicate count (p, ⟨false, 0, Uuid.small uuid, token, true⟩)

def sampleStart : LedgerConfig :=
  start sampleState sampleRequests (Db.empty sampleCapabilities [])

theorem chain_store_invariant_sampleRun :
    ∃ y z : LedgerConfig, (y.shared.db.events.length, z.shared.db.events.length) = (1, 2) ∧
      (∀ c, ChainStored sampleState y.shared.db c) ∧
        y.shared.db.events <+: z.shared.db.events := by
  have hrun : ((sampleStart.run (system schema) (fun _ _ _ => True)
      (sampleSteps 0 15 20 none)).bind fun y =>
        (y.run (system schema) (fun _ _ _ => True) (sampleSteps 1 16 21 none)).map fun z =>
          (y.shared.db.events.length, z.shared.db.events.length)) = some (1, 2) := by decide +kernel
  obtain ⟨y, hy, hz⟩ := Option.bind_eq_some_iff.mp hrun
  obtain ⟨z, hz, hlen⟩ := Reach.exists_of_run hz
  exact ⟨y, z, hlen, chain_store_invariant sampleState (sampleEd_correct []) sampleRequests
    sampleCapabilities [] y z (.of_run hy) hz⟩

end EvidentLedger.Ledger
