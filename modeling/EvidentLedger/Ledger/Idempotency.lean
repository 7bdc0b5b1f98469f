import EvidentLedger.Ledger.ChainStore

/-!
# Idempotency of v1 submission

Any number of `POST /v1/events` requests carry one account and one `Idempotency-Key`, among other
requests, in any order of their statements. The lookup of the record comes first, before any lock;
its insertion comes last. Two requests that both found no record may both write an event, a usage
increment and a signature, on different chains even; the unique key of `idempotency_records` lets
one of them commit.

* `record_ne`: two requests never both have a record under one key in the history.
* **`v1_idempotency`**: one request at most has written anything, and that is one event, one usage
  increment and one record; a response is the one stored with that record; and a request that
  returned an error is not part of the tables.
-/

namespace EvidentLedger.Ledger

open Lib.Interleave Lib.Transaction

/-- The records of a list of writes. -/
def recordsOf (log : List Write) : List IdempotencyRecord := (effects log).filterMap Effect.record?

theorem mem_recordsOf {log : List Write} {r : IdempotencyRecord} :
    r ∈ recordsOf log ↔ .record r ∈ effects log := by
  unfold recordsOf
  rw [List.mem_filterMap]
  constructor
  · rintro ⟨x, hx, hr⟩
    cases x with
    | record r' =>
      obtain rfl := Option.some.inj hr
      exact hx
    | event | usage | token => exact absurd hr (by simp [Effect.record?])
  · exact fun h => ⟨_, h, rfl⟩

theorem recordsOf_append (l m : List Write) : recordsOf (l ++ m) = recordsOf l ++ recordsOf m := by
  rw [recordsOf, effects_append, List.filterMap_append, recordsOf, recordsOf]

theorem writesOf_cons (p : Nat) (entry : Nat × List Write) (h : History schema) :
    writesOf p (entry :: h : History schema) =
      (if entry.1 = p then entry.2 else []) ++ writesOf p h := List.flatMap_cons

theorem committed_cons (entry : Nat × List Write) (h : History schema) :
    committed (entry :: h) = entry.2 ++ committed h := List.flatMap_cons

/-- What a request has written is part of what is committed. -/
theorem mem_committed {p : Nat} {h : History schema} {w : Write} (hw : w ∈ writesOf p h) :
    w ∈ committed h := by
  obtain ⟨entry, he, hw⟩ := List.mem_flatMap.mp hw
  split_ifs at hw
  · exact List.mem_flatMap.mpr ⟨entry, he, hw⟩
  · exact absurd hw (by simp)

theorem recordsOf_subset {l m : List Write} (h : ∀ w ∈ l, w ∈ m) {r : IdempotencyRecord}
    (hr : r ∈ recordsOf l) : r ∈ recordsOf m := by
  rw [mem_recordsOf, effects] at hr ⊢
  obtain ⟨w, hw, he⟩ := List.mem_filterMap.mp hr
  exact List.mem_filterMap.mpr ⟨w, h w hw, he⟩

/-- A committed record was written by someone. -/
theorem exists_writer {h : History schema} {r : IdempotencyRecord}
    (hr : r ∈ recordsOf (committed h)) : ∃ p, r ∈ recordsOf (writesOf p h) := by
  rw [mem_recordsOf, effects] at hr
  obtain ⟨w, hw, he⟩ := List.mem_filterMap.mp hr
  obtain ⟨entry, hentry, hw⟩ := List.mem_flatMap.mp hw
  refine ⟨entry.1, mem_recordsOf.mpr (List.mem_filterMap.mpr ⟨w, ?_, he⟩)⟩
  exact List.mem_flatMap.mpr ⟨entry, hentry, by rwa [if_pos rfl]⟩

/-- **Two requests do not share a key.** -/
theorem record_ne {h : History schema} {p q : Nat} {r r' : IdempotencyRecord}
    (hkeys : ((recordsOf (committed h)).map IdempotencyRecord.key).Nodup) (hpq : p ≠ q)
    (hr : r ∈ recordsOf (writesOf p h)) (hr' : r' ∈ recordsOf (writesOf q h)) :
    r.key ≠ r'.key := by
  induction h with
  | nil => exact absurd hr (by simp [writesOf, recordsOf])
  | cons entry h ih =>
    rw [committed_cons, recordsOf_append, List.map_append] at hkeys
    obtain ⟨-, htail, hdisjoint⟩ := List.nodup_append.mp hkeys
    have hin : ∀ {j x}, x ∈ recordsOf (writesOf j h) →
        x.key ∈ (recordsOf (committed h)).map IdempotencyRecord.key := fun hx =>
      List.mem_map_of_mem (recordsOf_subset (fun _ => mem_committed) hx)
    rw [writesOf_cons, recordsOf_append] at hr hr'
    rcases List.mem_append.mp hr with hr | hr
    · split_ifs at hr with hp
      · rcases List.mem_append.mp hr' with hr' | hr'
        · rw [if_neg (fun hq => hpq (hp.symm.trans hq))] at hr'
          exact absurd hr' (by simp [recordsOf])
        · exact hdisjoint _ (List.mem_map_of_mem hr) _ (hin hr')
      · exact absurd hr (by simp [recordsOf])
    · rcases List.mem_append.mp hr' with hr' | hr'
      · split_ifs at hr' with hq
        · exact (hdisjoint _ (List.mem_map_of_mem hr') _ (hin hr)).symm
        · exact absurd hr' (by simp [recordsOf])
      · exact ih htail hr hr'

/-- The history without one program. -/
def without (p : Nat) (h : History schema) : History schema := h.filter fun entry => entry.1 ≠ p

/-- A program that has written nothing is not missed. -/
theorem committed_without {p : Nat} {h : History schema} (hp : writesOf p h = []) :
    committed (without p h) = committed h := by
  induction h with
  | nil => rfl
  | cons entry h ih =>
    rw [writesOf_cons] at hp
    obtain ⟨hentry, hp⟩ := List.append_eq_nil_iff.mp hp
    by_cases he : entry.1 = p
    · rw [if_pos he] at hentry
      rw [committed_cons, hentry, without, List.filter_cons_of_neg (by simpa using he)]
      exact ih hp
    · rw [committed_cons, without, List.filter_cons_of_pos (by simpa using he), committed_cons]
      exact congrArg (entry.2 ++ ·) (ih hp)

variable {state : AppState} {requests : Nat → Request} {ok : Nat → Call schema → Shared schema → Prop}
  {db₀ db : Db} {h : History schema}

/-- The records in the table are those of the history. -/
theorem Recorded.records_eq (hr : Recorded state requests ok db₀ db h)
    (h0 : db₀.idempotencyRecords = []) : db.idempotencyRecords = recordsOf (committed h) := by
  rw [hr.replayed, tables, records_replay, h0, List.nil_append, recordsOf]

/-- A request that has written anything has its record in the history. -/
theorem Recorded.exists_record (hr : Recorded state requests ok db₀ db h) {p : Nat}
    {account : Uuid} {key : String} {body : V1SubmitEventRequest}
    (hp : requests p = .submitV1Event account key body) (hne : writesOf p h ≠ []) :
    ∃ r ∈ recordsOf (writesOf p h), r.key = (account, key) := by
  rcases hr.v1Writes hp with h0 | ⟨c, eventId, r, tokens, heff, hkey, -⟩
  · exact absurd h0 hne
  · exact ⟨r, mem_recordsOf.mpr (by rw [heff]; simp [v1Effects]), hkey⟩

/-- A record found at some moment is in the history, under its key. -/
theorem Recorded.record_of_found (hr : Recorded state requests ok db₀ db h)
    (h0 : db₀.idempotencyRecords = []) {h' : History schema} (hp : h' <+: h) {account : Uuid}
    {key : String} {r : IdempotencyRecord} (hfound : (tables db₀ h').record? account key = some r) :
    r.key = (account, key) ∧ r ∈ recordsOf (committed h) := by
  have hkey : r.accountId = account ∧ r.idempotencyKey = key := by
    simpa using List.find?_some hfound
  refine ⟨Prod.ext hkey.1 hkey.2, ?_⟩
  have hmem := List.mem_of_find?_eq_some hfound
  rw [(hr.of_prefix hp).records_eq h0] at hmem
  obtain ⟨rest, rfl⟩ := hp
  rw [committed, List.flatMap_append, recordsOf_append]
  exact List.mem_append_left _ hmem

/-- **One winner under a key.** Nothing is written but by the winner: one event, one usage
increment, one record. A reply is the winner's stored response, or an error that left no trace. -/
def OneWinner (requests : Nat → Request) (db₀ : Db) (account : Uuid) (key : String)
    (y : LedgerConfig) (winner : Nat) : Prop :=
  ∀ p body, requests p = .submitV1Event account key body →
    (writesOf p y.shared.history = [] ∨ p = winner ∧ ∃ c eventId r tokens,
      effects (writesOf p y.shared.history) =
        [.event c eventId, .usage account, .record r] ++ tokens ∧
      r.key = (account, key) ∧ ∀ x ∈ tokens, ∃ row, x = .token row) ∧
    ∀ reply, (y.procs p).1.result = some reply →
      (∃ response, reply = .v1 (.ok response) ∧
        ∃ r ∈ recordsOf (writesOf winner y.shared.history),
          r.key = (account, key) ∧ r.responseJson = response) ∨
      (∃ err, reply = .v1 (.error err) ∧ writesOf p y.shared.history = [] ∧
        y.shared.db = replay (S := schema) (committed (without p y.shared.history)) db₀)

/-- **Idempotency of v1 submission.** -/
theorem v1_idempotency (state : AppState) (requests : Nat → Request)
    (capabilities : Uuid → Option AccountCapabilities) (identityKeys : List IdentityKeyRow)
    (account : Uuid) (key : String) (y : LedgerConfig)
    (hy : Reach (system schema) (fun _ _ _ => True)
      (start state requests (Db.empty capabilities identityKeys)) y) :
    ∃ winner, OneWinner requests (Db.empty capabilities identityKeys) account key y winner := by
  have hx : (Setting.all state requests (Db.empty capabilities identityKeys)).Reach
      (start state requests (Db.empty capabilities identityKeys)) y := hy
  obtain ⟨hr, hreplies⟩ := ledger_reach hx
  have hkeys := (hr.ledgerInv (ledgerInv_empty _ _)).keys
  rw [hr.records_eq rfl] at hkeys
  -- the winner is the one with a record, if any
  have hwinner : ∃ winner, ∀ p body, requests p = .submitV1Event account key body →
      writesOf p y.shared.history ≠ [] → p = winner := by
    by_cases hex : ∃ w body, requests w = .submitV1Event account key body ∧
        writesOf w y.shared.history ≠ []
    · obtain ⟨w, body, hw, hne⟩ := hex
      obtain ⟨r, hmem, hrkey⟩ := hr.exists_record hw hne
      refine ⟨w, fun p body' hp hne' => ?_⟩
      obtain ⟨r', hmem', hrkey'⟩ := hr.exists_record hp hne'
      by_contra hpw
      exact record_ne hkeys hpw hmem' hmem (hrkey'.trans hrkey.symm)
    · exact ⟨0, fun p body hp hne => absurd ⟨p, body, hp, hne⟩ hex⟩
  obtain ⟨winner, hwinner⟩ := hwinner
  refine ⟨winner, fun p body hp => ⟨?_, fun reply hreply => ?_⟩⟩
  · by_cases hne : writesOf p y.shared.history = []
    · exact Or.inl hne
    · rcases hr.v1Writes hp with h0 | hv1
      · exact absurd h0 hne
      · exact Or.inr ⟨hwinner p body hp hne, hv1⟩
  · have hok := hreplies p reply hreply
    cases reply with
    | chain result =>
      obtain ⟨a, ha, -⟩ := hok
      exact absurd (hp.symm.trans ha) (by simp)
    | event result =>
      obtain ⟨a, req, ha, -⟩ := hok
      exact absurd (hp.symm.trans ha) (by simp)
    | v1 result =>
      obtain ⟨a, k, body', hp', hresult⟩ := hok
      obtain ⟨rfl, rfl, rfl⟩ := Request.submitV1Event.inj (hp.symm.trans hp')
      cases result with
      | error err =>
        have hfresh : writesOf p y.shared.history = [] := hresult
        refine Or.inr ⟨err, rfl, hfresh, ?_⟩
        rw [committed_without hfresh]
        exact hr.replayed
      | ok response =>
        refine Or.inl ⟨response, rfl, ?_⟩
        rcases hresult with ⟨-, h', r, hp', hfound, hresp⟩ |
          ⟨req, r, eventId, snapshot, -, hrecord, hresp, -, hlanded⟩
        · -- a replay: the record found is the winner's
          obtain ⟨hrkey, hmem⟩ := hr.record_of_found rfl hp' hfound
          obtain ⟨q, hq⟩ := exists_writer hmem
          obtain ⟨body'', hbody⟩ := hr.owner_of_record (mem_recordsOf.mp hq)
          obtain ⟨ha, hk⟩ := Prod.mk.inj hrkey
          rw [ha, hk] at hbody
          have hne : writesOf q y.shared.history ≠ [] := fun h0 => by
            rw [h0] at hq
            exact absurd hq (by simp [recordsOf])
          exact ⟨r, hwinner q body'' hbody hne ▸ hq, hrkey, hresp⟩
        · obtain ⟨tokens, heff, -⟩ := hr.effects_of_landed hlanded
          have hmem : r ∈ recordsOf (writesOf p y.shared.history) :=
            mem_recordsOf.mpr (by rw [heff]; simp [effects, Write.effect?])
          refine ⟨r, hwinner p body hp hlanded.writes_ne ▸ hmem, ?_, hresp⟩
          rw [IdempotencyRecord.key, hrecord.accountId, hrecord.idempotencyKey]

/-- Two requests under one key, for two chains. -/
def sampleV1Requests (p : Nat) : Request :=
  .submitV1Event (Uuid.small 1) "key"
    { chainId := Uuid.small (if p = 0 then 9 else 10)
      fileHash := String.ofList (List.replicate 64 'a')
      eventType := "submission"
      eventId := none
      identitySignature := none }

/-- Both look the record up before the first commits. -/
theorem v1_idempotency_sampleRace :
    ∃ y : LedgerConfig, y.shared.db.events.length = 1 ∧ ∃ winner,
      OneWinner sampleV1Requests (Db.empty sampleCapabilities []) (Uuid.small 1) "key" y
        winner := by
  have hrun : ((start sampleState sampleV1Requests (Db.empty sampleCapabilities [])).run
      (system schema) (fun _ _ _ => True) (sampleSteps 0 3 20 none ++ sampleSteps 1 3 21 none ++
        sampleSteps 0 19 20 none)).map (fun y => y.shared.db.events.length) = some 1 := by
    decide +kernel
  obtain ⟨y, hy, hlen⟩ := Reach.exists_of_run hrun
  exact ⟨y, hlen, v1_idempotency sampleState sampleV1Requests sampleCapabilities [] (Uuid.small 1)
    "key" y hy⟩

end EvidentLedger.Ledger
