import EvidentLedger.Ledger.Commit

/-!
# The invariant of the ledger

What a history of commits makes of the tables.

* `ChainOk`: the events of a chain are linked, and every one carries the signature of the prefix
  that ends at it.
* `LedgerInv`: every chain is that way and its head is its last event; event ids and idempotency
  keys are unique.
* `effects` is what a log adds for good: events, usage increments, records and tokens. The other
  writes move the head, fill in the signature or claim the chain.
* **`Recorded.ledgerInv`**: tables that are that way stay that way, along every history of commits.
* `Recorded.v1Writes`, `Recorded.owner_of_record`: a v1 request writes nothing or one event, one
  usage increment and one record, and the records are of v1 requests.
* `Landed.prefix`: the event of a request that has landed ends a prefix of its chain for good, and
  its snapshot is of that prefix.
-/

namespace EvidentLedger.Ledger

open Lib.Transaction

/-! ## Chains -/

/-- The last event of a chain. -/
def headId (events : List EventRecord) : Option Uuid := events.getLast?.map (·.eventId)

variable (state : AppState)

/-- The signature of the events up to `eventId`. -/
def signatureOf (c eventId : Uuid) (events : List EventRecord) : String :=
  state.signer.signRoot state.ed c.toString (recomputeRootFromEvents state.sha (rows events))
    eventId.toString

/-- Linked, and every prefix signed. -/
structure ChainOk (c : Uuid) (events : List EventRecord) : Prop where
  linked : Linked none (rows events)
  signed : ∀ before e, before ++ [e] <+: events →
    e.signature = signatureOf state c e.eventId (before ++ [e])

variable {state}

theorem lastEventId_rows (events : List EventRecord) :
    lastEventId (rows events).getLast? = (headId events).getD Uuid.nil := by
  unfold rows headId
  rw [List.getLast?_map]
  cases events.getLast? with
  | none => rfl
  | some e => rfl

theorem chainOk_nil (c : Uuid) : ChainOk state c [] :=
  ⟨trivial, fun before e h => absurd (List.prefix_nil.mp h) (by simp)⟩

/-- **A chain grows by a linked and signed event.** -/
theorem ChainOk.append {c : Uuid} {events : List EventRecord} {e : EventRecord}
    (h : ChainOk state c events) (hl : Linked none (rows (events ++ [e])))
    (hs : e.signature = signatureOf state c e.eventId (events ++ [e])) :
    ChainOk state c (events ++ [e]) := by
  refine ⟨hl, fun before e' hp => ?_⟩
  rcases List.prefix_concat_iff.mp hp with heq | hp
  · obtain ⟨rfl, he⟩ := List.append_inj' heq rfl
    obtain rfl := (List.cons.inj he).1
    exact hs
  · exact h.signed before e' hp

/-- The sequence after a linked list. -/
theorem linked_next {events : List EventRecord} {e : EventRecord}
    (h : Linked none (rows events)) (hs : e.sequence.toInt = events.length + 1)
    (hp : e.parentEventId = (headId events).getD Uuid.nil) :
    Linked none (rows (events ++ [e])) := by
  rw [rows_append, rows, rows, List.map_singleton, linked_append_singleton]
  refine ⟨h, ?_, hp.trans (lastEventId_rows events).symm⟩
  rw [show lastSequence (List.map EventRecord.toRow events).getLast? = events.length from by
    rw [← List.length_map]
    exact h.lastSequence_eq]
  exact hs

/-- The sequences of linked events count them. -/
theorem toInt_sequence {events : List EventRecord} (hl : Linked none (rows events)) (i : Nat)
    (hi : i < events.length) : events[i].sequence.toInt = i + 1 := by
  have hi' := hl.sequence_eq i (by simpa [rows] using hi)
  simpa only [rows, List.getElem_map, EventRecord.toRow, lastSequence, Int.zero_add] using hi'

/-- Linked events stand in the order of their sequences. -/
theorem orderBySequence_linked {events : List EventRecord} (h : Linked none (rows events)) :
    orderBySequence events = events := by
  refine List.Pairwise.insertionSort_eq (List.pairwise_iff_getElem.mpr fun i j hi hj hij => ?_)
  rw [Int64.le_iff_toInt_le, toInt_sequence h i hi, toInt_sequence h j hj]
  omega

/-- Linked events up to the last sequence are all of them. -/
theorem filter_linked {events : List EventRecord} {e : EventRecord}
    (h : Linked none (rows (events ++ [e]))) :
    (events ++ [e]).filter (·.sequence ≤ e.sequence) = events ++ [e] := by
  refine List.filter_eq_self.mpr fun a ha => ?_
  obtain ⟨i, hi, rfl⟩ := List.getElem_of_mem ha
  have hlen : (events ++ [e]).length = events.length + 1 := by simp
  have hlast := toInt_sequence h events.length (by simp)
  rw [List.getElem_concat_length rfl] at hlast
  rw [decide_eq_true_iff, Int64.le_iff_toInt_le, toInt_sequence h i hi, hlast]
  omega

/-- The greatest sequence of linked events is their number. -/
theorem max_linked {events : List EventRecord} (h : Linked none (rows events)) :
    (events.map (·.sequence.toInt)).max?.getD 0 = events.length := by
  have hseq := toInt_sequence h
  by_cases hne : events = []
  · subst hne
    rfl
  · have hpos := List.length_pos_iff.mpr hne
    have hmax : (events.map (·.sequence.toInt)).max? = some (events.length : Int) := by
      refine List.max?_eq_some_iff.mpr ⟨List.mem_map.mpr ⟨events[events.length - 1],
        List.getElem_mem _, ?_⟩, fun b hb => ?_⟩
      · rw [hseq _ (by omega)]
        omega
      · obtain ⟨e, he, rfl⟩ := List.mem_map.mp hb
        obtain ⟨i, hi, rfl⟩ := List.getElem_of_mem he
        rw [hseq i hi]
        omega
    rw [hmax]
    rfl

/-! ## What a log adds -/

/-- An event, a usage increment, a record, a token. -/
inductive Effect where
  | event (chainId eventId : Uuid)
  | usage (accountId : Uuid)
  | record (r : IdempotencyRecord)
  | token (r : TsaTokenRow)
  deriving DecidableEq

def Write.effect? : Write → Option Effect
  | .insertEvent e => some (.event e.chainId e.eventId)
  | .bumpUsage a _ => some (.usage a)
  | .insertRecord r => some (.record r)
  | .insertTsaToken r => some (.token r)
  | _ => none

def effects (log : List Write) : List Effect := log.filterMap Write.effect?

def Effect.record? : Effect → Option IdempotencyRecord
  | .record r => some r
  | _ => none

def Effect.token? : Effect → Option TsaTokenRow
  | .token r => some r
  | _ => none

@[simp] theorem effects_nil : effects [] = [] := rfl

theorem effects_append (l m : List Write) : effects (l ++ m) = effects l ++ effects m :=
  List.filterMap_append

/-- Records and tokens are only ever added. -/
theorem records_replay (log : List Write) (db : Db) :
    (replay (S := schema) log db).idempotencyRecords =
      db.idempotencyRecords ++ (effects log).filterMap Effect.record? := by
  induction log generalizing db with
  | nil => exact (List.append_nil _).symm
  | cons w log ih =>
    refine (ih (w.apply db)).trans ?_
    cases w <;> simp [Write.apply, effects, Write.effect?, Effect.record?, List.filterMap_cons]

theorem tokens_replay (log : List Write) (db : Db) :
    (replay (S := schema) log db).tsaTokens =
      db.tsaTokens ++ (effects log).filterMap Effect.token? := by
  induction log generalizing db with
  | nil => exact (List.append_nil _).symm
  | cons w log ih =>
    refine (ih (w.apply db)).trans ?_
    cases w <;> simp [Write.apply, effects, Write.effect?, Effect.token?, List.filterMap_cons]

/-! ## The invariant -/

/-- The key of a record. -/
def IdempotencyRecord.key (r : IdempotencyRecord) : Uuid × String := (r.accountId, r.idempotencyKey)

/-- What a v1 request adds in its transaction. -/
def v1Effects (c eventId accountId : Uuid) (r : IdempotencyRecord) : List Effect :=
  [.event c eventId, .usage accountId, .record r]

/-- What a v1 request has written: nothing, or its event, usage and record, and maybe a token. -/
def V1Writes (accountId : Uuid) (idempotencyKey : String) (log : List Write) : Prop :=
  log = [] ∨ ∃ c eventId r tokens, effects log = v1Effects c eventId accountId r ++ tokens ∧
    r.key = (accountId, idempotencyKey) ∧ ∀ x ∈ tokens, ∃ row, x = .token row

variable (state) in
/-- **What holds of the committed tables.** -/
structure LedgerInv (db : Db) : Prop where
  chains : ∀ c, ChainOk state c (db.eventsOf c)
  heads : ∀ c, db.head? c = headId (db.eventsOf c)
  ids : (db.events.map EventRecord.eventId).Nodup
  keys : (db.idempotencyRecords.map IdempotencyRecord.key).Nodup

/-- Tables without rows satisfy it. -/
theorem ledgerInv_empty (capabilities : Uuid → Option AccountCapabilities)
    (identityKeys : List IdentityKeyRow) : LedgerInv state (Db.empty capabilities identityKeys) where
  chains c := chainOk_nil c
  heads _ := rfl
  ids := List.nodup_nil
  keys := List.nodup_nil

/-- A record with a key that is not there. -/
theorem nodup_keys {db : Db} (hi : (db.idempotencyRecords.map IdempotencyRecord.key).Nodup)
    {r : IdempotencyRecord} (hr : db.record? r.accountId r.idempotencyKey = none) :
    ((db.idempotencyRecords ++ [r]).map IdempotencyRecord.key).Nodup := by
  rw [List.map_append, List.map_singleton]
  refine List.nodup_append.mpr ⟨hi, List.nodup_singleton _, ?_⟩
  rintro x hx y hy rfl
  obtain ⟨r', hr', hkey⟩ := List.mem_map.mp hx
  rw [List.mem_singleton.mp hy] at hkey
  have hne := List.find?_eq_none.mp hr r' hr'
  obtain ⟨ha, hk⟩ := Prod.mk.inj hkey
  simp [ha, hk] at hne

theorem access_effects {row? : Option ChainRow} {account c : Uuid} {log : List Write}
    (h : Access row? account c log) : effects log = [] := by
  cases h <;> rfl

theorem meter_effects {row? : Option UsageRow} {account : Uuid} {month commits stamps : Int}
    {log : List Write} (h : Meter row? account month commits stamps log) : effects log = [] := by
  cases h <;> rfl

section Step

variable {requests : Nat → Request} {ok : Nat → Call schema → Shared schema → Prop} {db₀ db : Db}
  {h : History schema} {p : Nat} {a : Addition} {log after : List Write}

/-- An event and a usage increment, and nothing else for good. -/
theorem Addition.Valid.effects_log (ha : a.Valid db) :
    effects (a.log state db) = [.event a.event.chainId a.event.eventId, .usage a.account] := by
  have hprepared : effects a.prepared = [] := by
    rw [Addition.prepared, effects_append, access_effects ha.access, meter_effects ha.meter]
    rfl
  rw [Addition.log, Addition.unsigned, effects_append, effects_append, effects_append,
    effects_append, hprepared]
  rfl

/-- A signed event has the row of the unsigned one. -/
theorem rows_signed (events : List EventRecord) :
    rows (events ++ [a.signed state db]) = rows (events ++ [a.event]) := by
  rw [rows_append, rows_append]
  rfl

/-- **A valid event continues its chain.** -/
theorem LedgerInv.linked (hi : LedgerInv state db) (ha : a.Valid db) :
    Linked none (rows (db.eventsOf a.event.chainId ++ [a.event])) := by
  have hl := (hi.chains a.event.chainId).linked
  refine linked_next hl ?_ ?_
  · rw [ha.sequence, maxSequence, max_linked hl]
  · rw [ha.parent, hi.heads]

/-- What is read for its snapshot is the chain with it. -/
theorem LedgerInv.readRows (hi : LedgerInv state db) (ha : a.Valid db) :
    a.readRows db = rows (db.eventsOf a.event.chainId ++ [a.event]) := by
  have hl := hi.linked ha
  rw [Addition.readRows, filter_linked hl, orderBySequence_linked hl]

variable (state) in
/-- What the snapshot of a chain is made of. -/
def snapshotOf (c eventId : Uuid) (events : List EventRecord) : ProofSnapshot :=
  buildProofSnapshot state.sha state.ed state.signer c eventId (rows events)

/-- **Its snapshot is of the chain with it.** -/
theorem LedgerInv.snapshot (hi : LedgerInv state db) (ha : a.Valid db) :
    a.snapshot state db = snapshotOf state a.event.chainId a.event.eventId
      (db.eventsOf a.event.chainId ++ [a.signed state db]) := by
  rw [Addition.snapshot, hi.readRows ha, snapshotOf, rows_signed]

theorem LedgerInv.signed (hi : LedgerInv state db) (ha : a.Valid db) :
    (a.signed state db).signature = signatureOf state a.event.chainId a.event.eventId
      (db.eventsOf a.event.chainId ++ [a.signed state db]) := by
  change (a.snapshot state db).signature = _
  rw [hi.snapshot ha]
  rfl

/-- **An event keeps the invariant.** -/
theorem LedgerInv.event (hi : LedgerInv state db) (ha : a.Valid db)
    (hafter : RecordOnly db after) :
    LedgerInv state (replay (S := schema) (a.log state db ++ after) db) where
  chains c := by
    rw [ha.eventsOf_all hafter]
    split_ifs with hc
    · subst hc
      refine (hi.chains _).append ?_ (hi.signed ha)
      rw [rows_signed]
      exact hi.linked ha
    · rw [List.append_nil]
      exact hi.chains c
  heads c := by
    rw [ha.eventsOf_all hafter, Db.head?, ha.chain?_all hafter]
    split_ifs with hc
    · rw [headId, List.getLast?_concat]
      rfl
    · rw [List.append_nil]
      exact hi.heads c
  ids := by
    rw [ha.events_all hafter, List.map_append, List.map_singleton]
    refine List.nodup_append.mpr ⟨hi.ids, List.nodup_singleton _, ?_⟩
    rintro x hx y hy rfl
    obtain ⟨e, he, hid⟩ := List.mem_map.mp hx
    rw [List.mem_singleton.mp hy] at hid
    have hne := List.any_eq_false.mp ha.newId e he
    simp [hid, Addition.signed] at hne
  keys := by
    rw [records_replay, effects_append, List.filterMap_append, ha.effects_log]
    rcases hafter with rfl | ⟨r, rfl, hr⟩
    · exact (List.append_nil _).symm ▸ hi.keys
    · exact nodup_keys hi.keys hr

/-- **Every commit keeps it.** -/
theorem LedgerInv.kind (hi : LedgerInv state db) (hk : Kind state ok db₀ p db log) :
    LedgerInv state (replay (S := schema) log db) := by
  cases hk with
  | event hadds hafter => exact hi.event hadds.valid hafter
  | token => exact ⟨hi.chains, hi.heads, hi.ids, hi.keys⟩
  | @chain account c hnew =>
    refine ⟨hi.chains, fun d => ?_, hi.ids, hi.keys⟩
    refine Eq.trans ?_ (hi.heads d)
    rw [replay_write, replay_none, Db.head?, chain?_insertChain, Db.head?]
    cases Db.chain? db d with
    | some row => rfl
    | none =>
      rw [Option.none_or]
      split_ifs <;> rfl

/-- **Along every history.** -/
theorem Recorded.ledgerInv (hr : Recorded state requests ok db₀ db h) (hi : LedgerInv state db₀) :
    LedgerInv state db := by
  rw [hr.replayed]
  refine hr.induction (motive := fun h => LedgerInv state (tables db₀ h)) hi ?_
  intro h p log _ hc ih
  rw [tables_concat]
  exact ih.kind hc.kind

/-! ## What a request has written -/

theorem writesOf_concat (p q : Nat) (log : List Write) (h : History schema) :
    writesOf p (h ++ [(q, log)] : History schema) =
      writesOf p h ++ if q = p then log else [] := by
  rw [writesOf_append, writesOf_singleton]

/-- A token is one more effect. -/
theorem V1Writes.token {account : Uuid} {key : String} {log : List Write}
    (h : V1Writes account key log) (hne : log ≠ []) (row : TsaTokenRow) :
    V1Writes account key (log ++ [.insertTsaToken row]) := by
  rcases h with h | ⟨c, eventId, r, tokens, heff, hkey, htok⟩
  · exact absurd h hne
  · refine Or.inr ⟨c, eventId, r, tokens ++ [.token row], ?_, hkey, ?_⟩
    · rw [effects_append, heff, List.append_assoc]
      rfl
    · intro x hx
      rcases List.mem_append.mp hx with hx | hx
      · exact htok x hx
      · exact ⟨row, List.mem_singleton.mp hx⟩

/-- **A v1 request writes nothing, or all of its event.** -/
theorem Recorded.v1Writes (hr : Recorded state requests ok db₀ db h) {account : Uuid} {key : String}
    {body : V1SubmitEventRequest} (hp : requests p = .submitV1Event account key body) :
    V1Writes account key (writesOf p h) := by
  refine hr.induction (motive := fun h => V1Writes account key (writesOf p h)) (Or.inl rfl) ?_
  intro h q log _ hc ih
  rw [writesOf_concat]
  split_ifs with hq
  · subst hq
    cases hc with
    | chain hreq => exact absurd (hp.symm.trans hreq) (by simp)
    | legacy hreq => exact absurd (hp.symm.trans hreq) (by simp)
    | @v1 _ _ _ req a r hreq hfirst hbody hadds hrecord hnew =>
      obtain ⟨rfl, rfl, rfl⟩ := Request.submitV1Event.inj (hp.symm.trans hreq)
      refine Or.inr ⟨a.event.chainId, a.event.eventId, r, [], ?_, ?_, by simp⟩
      swap
      · rw [IdempotencyRecord.key, hrecord.accountId, hrecord.idempotencyKey]
      rw [hfirst, List.nil_append, effects_append, hadds.valid.effects_log, List.append_nil,
        hadds.owner]
      rfl
    | token _ hlanded => exact ih.token hlanded.writes_ne _
  · rw [List.append_nil]
    exact ih

/-- **A record is of a v1 request with its key.** -/
theorem Recorded.owner_of_record (hr : Recorded state requests ok db₀ db h) {r : IdempotencyRecord}
    (hmem : .record r ∈ effects (writesOf p h)) :
    ∃ body, requests p = .submitV1Event r.accountId r.idempotencyKey body := by
  refine hr.induction (motive := fun h => .record r ∈ effects (writesOf p h) →
    ∃ body, requests p = .submitV1Event r.accountId r.idempotencyKey body)
    (fun h0 => absurd h0 (by simp [writesOf])) ?_ hmem
  intro h q log _ hc ih hmem
  rw [writesOf_concat, effects_append] at hmem
  rcases List.mem_append.mp hmem with hpast | hlog
  · exact ih hpast
  by_cases hq : q = p
  swap
  · rw [if_neg hq] at hlog
    exact absurd hlog (by simp)
  subst hq
  rw [if_pos rfl] at hlog
  cases hc with
  | chain => exact absurd hlog (by simp [effects, Write.effect?])
  | legacy _ _ hadds =>
    rw [hadds.valid.effects_log] at hlog
    exact absurd hlog (by simp)
  | @v1 account key body req a r' hreq _ _ hadds hrecord _ =>
    rw [effects_append, hadds.valid.effects_log] at hlog
    obtain rfl : r = r' := by simpa [effects, Write.effect?] using hlog
    exact ⟨body, by rw [hrecord.accountId, hrecord.idempotencyKey]; exact hreq⟩
  | token => exact absurd hlog (by simp [effects, Write.effect?])

section Landed

variable {account : Uuid} {req : SubmitEventRequest} {eventId : Uuid} {snapshot : ProofSnapshot}

theorem Adds.chainId {x : Addition} (hadds : Adds ok db₀ p account req x db) :
    x.event.chainId = req.chainId := by
  obtain ⟨_, _, _, _, hrow⟩ := hadds.row
  rw [hrow]
  rfl

theorem Adds.fileHash {x : Addition} (hadds : Adds ok db₀ p account req x db) :
    x.event.fileHash = req.fileHash := by
  obtain ⟨_, _, _, _, hrow⟩ := hadds.row
  rw [hrow]
  rfl

/-- **After its event a request stores tokens only.** -/
theorem Recorded.effects_of_landed (hr : Recorded state requests ok db₀ db h)
    (hl : Landed state ok db₀ p account req eventId snapshot after h) :
    ∃ tokens, effects (writesOf p h) =
      [.event req.chainId eventId, .usage account] ++ effects after ++ tokens ∧
      ∀ x ∈ tokens, ∃ row, x = .token row := by
  obtain ⟨h₀, a, ⟨rest, rfl⟩, hfirst, hadds, -, rfl, -⟩ := hl
  obtain ⟨rfl, hcommits⟩ := hr
  have hstart : effects (writesOf p (h₀ ++ [(p, a.log state (tables db₀ h₀) ++ after)] :
      History schema)) = [.event req.chainId a.event.eventId, .usage account] ++ effects after := by
    rw [writesOf_concat, hfirst, if_pos rfl, List.nil_append, effects_append,
      hadds.valid.effects_log, hadds.chainId, hadds.owner]
  induction rest using List.reverseRecOn with
  | nil => exact ⟨[], by rw [List.append_nil, hstart, List.append_nil], by simp⟩
  | append_singleton rest entry ih =>
    obtain ⟨q, log⟩ := entry
    rw [← List.append_assoc] at hcommits ⊢
    obtain ⟨tokens, heff, htok⟩ := ih fun h' q' log' hp =>
      hcommits h' q' log' (hp.trans (List.prefix_append _ _))
    by_cases hq : q = p
    · subst hq
      have hne : writesOf q (h₀ ++ [(q, a.log state (tables db₀ h₀) ++ after)] ++ rest :
          History schema) ≠ [] := fun h0 => by
        rw [h0] at heff
        exact absurd heff (by simp)
      cases hcommits _ q log (List.prefix_refl _) with
      | chain _ hfirst => exact absurd hfirst hne
      | legacy _ hfirst => exact absurd hfirst hne
      | v1 _ hfirst => exact absurd hfirst hne
      | @token _ _ _ _ row =>
        refine ⟨tokens ++ [.token row], ?_, fun x hx => ?_⟩
        · rw [writesOf_concat, if_pos rfl, effects_append, heff, List.append_assoc]
          rfl
        · rcases List.mem_append.mp hx with hx | hx
          · exact htok x hx
          · exact ⟨row, List.mem_singleton.mp hx⟩
    · refine ⟨tokens, ?_, htok⟩
      rw [writesOf_concat, if_neg hq, List.append_nil]
      exact heff

/-- The event of a request, as it was added, is in its chain for good. -/
theorem Landed.added (hr : Recorded state requests ok db₀ db h)
    (hl : Landed state ok db₀ p account req eventId snapshot after h) :
    ∃ (h₀ : History schema) (a : Addition), Adds ok db₀ p account req a (tables db₀ h₀) ∧
      a.event.eventId = eventId ∧ a.signed state (tables db₀ h₀) ∈ db.eventsOf req.chainId := by
  obtain ⟨h₀, a, hp, -, hadds, hafter, rfl, -⟩ := hl
  refine ⟨h₀, a, hadds, rfl, ?_⟩
  have hprefix := (hr.events hp).filter (·.chainId == req.chainId)
  refine hprefix.subset ?_
  rw [tables_concat]
  change _ ∈ Db.eventsOf _ req.chainId
  rw [hadds.valid.eventsOf_all hafter, if_pos hadds.chainId.symm]
  exact List.mem_append_right _ (List.mem_singleton_self _)

/-- **The event of a request is in its chain for good.** -/
theorem Landed.event (hr : Recorded state requests ok db₀ db h)
    (hl : Landed state ok db₀ p account req eventId snapshot after h) :
    ∃ e ∈ db.eventsOf req.chainId, e.eventId = eventId ∧ e.fileHash = req.fileHash := by
  obtain ⟨h₀, a, hadds, rfl, hmem⟩ := hl.added hr
  exact ⟨_, hmem, rfl, hadds.fileHash⟩

/-- **It ends a prefix of its chain for good**, and its snapshot is of that prefix. -/
theorem Landed.prefix (hr : Recorded state requests ok db₀ db h) (hi : LedgerInv state db₀)
    (hl : Landed state ok db₀ p account req eventId snapshot after h) :
    ∃ before e, before ++ [e] <+: db.eventsOf req.chainId ∧ Linked none (rows (before ++ [e])) ∧
      e.eventId = eventId ∧ snapshot = snapshotOf state req.chainId eventId (before ++ [e]) := by
  obtain ⟨h₀, a, hp, -, hadds, hafter, rfl, rfl⟩ := hl
  have hi₀ : LedgerInv state (tables db₀ h₀) :=
    (hr.of_prefix ((List.prefix_append _ _).trans hp)).ledgerInv hi
  refine ⟨(tables db₀ h₀).eventsOf req.chainId, a.signed state (tables db₀ h₀), ?_, ?_, rfl, ?_⟩
  · have hprefix := (hr.events hp).filter (·.chainId == req.chainId)
    rw [tables_concat] at hprefix
    change Db.eventsOf _ req.chainId <+: _ at hprefix
    rw [hadds.valid.eventsOf_all hafter, if_pos hadds.chainId.symm] at hprefix
    exact hprefix
  · rw [rows_signed, ← hadds.chainId]
    exact hi₀.linked hadds.valid
  · rw [← hadds.chainId]
    exact hi₀.snapshot hadds.valid

end Landed

end Step

end EvidentLedger.Ledger
