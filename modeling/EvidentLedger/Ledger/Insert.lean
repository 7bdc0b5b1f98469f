import EvidentLedger.Ledger.Append

/-!
# Insertion, signature and commit of an event

`insert_event_in_tx` (`service/ledger.rs:258-393`), `proof_snapshot_at_event` and
`persist_event_signature` (`api/v1/proof_material.rs`) under the assertions of `Append`, up to the
commit.

* `spec_reserveUsage`: the usage row is locked, and the plan allows one event more.
* `spec_insertEventInTx`: the event continues the locked chain and is its head, and the usage of the
  account is counted once.
* `spec_signEvent`: the snapshot is of the chain with the new event, and its signature is stored.
* **`spec_commitEvent`**: the commit is one of the history's, and the event has landed.
-/

namespace EvidentLedger.Ledger

open Lib.Interleave Lib.Transaction

variable {x : Setting} {p : Nat} {now : Int} {ks : List Key} {F : Db → Prop} {log : List Write}
  {c account : Uuid} {ε : Type}

/-! ## Head and sequence

Both are read under the row lock of the chain, so what is read stays true until the commit: the assertion
after the read is about the committed tables, and `Framed` by the chain's key. -/

/-- **The head is read** from the row that the transaction holds: `SELECT head_event_id`. -/
theorem spec_selectHead {f : DbError → ε} (hF : Framed (S := schema) ks F)
    (hk : Key.chain c ∈ ks) (hrow : ∀ db, F db → ∃ owner,
      Db.chain? (replay (S := schema) log db) c = some ⟨c, db.head? c, owner⟩) :
    x.Spec p (Under p now ks F log) (statement f (.selectHead c))
      (fun head => Under p now ks (fun db => F db ∧ head = db.head? c) log) fun _ => Fresh p := by
  refine spec_read rfl hF (fun head => hF.and (framed_head hk fun h => head = h)) ?_
  intro g ch head taken ws hf _ _ he
  obtain ⟨owner, hchain⟩ := hrow g.db hf
  obtain ⟨rfl, rfl⟩ := selectHead_ok hchain he
  exact ⟨rfl, hf, rfl⟩

/-- **The next sequence**: one above the highest of the chain, none of whose events is in the log.
-/
theorem spec_selectNextSequence {f : DbError → ε} (hF : Framed (S := schema) ks F)
    (hk : Key.chain c ∈ ks) (hlog : ∀ db, F db → ∀ w ∈ log, w.offEvents = true) :
    x.Spec p (Under p now ks F log) (statement f (.selectNextSequence c))
      (fun sequence => Under p now ks
        (fun db => F db ∧ sequence.toInt = maxSequence (db.eventsOf c) + 1) log)
      fun _ => Fresh p := by
  refine spec_read rfl hF (fun sequence => hF.and
    (framed_events hk fun events => sequence.toInt = maxSequence events + 1)) ?_
  intro g ch sequence taken ws hf _ _ he
  obtain ⟨hseq, rfl⟩ := selectNextSequence_ok he
  rw [Db.eventsOf_of_events (replay_offEvents (hlog g.db hf) g.db)] at hseq
  exact ⟨rfl, hf, hseq⟩

/-- A question leaves the locks and what they keep. -/
theorem spec_questionUnder {a : Ask} (hF : Framed (S := schema) ks F) :
    x.Spec p (Under p now ks F log) (question a : Program schema ε a.Ans)
      (fun _ => Under p now ks F log) fun _ => Fresh p :=
  spec_ask (S := schema) (stable_held hF) (fun _ => stable_held hF) fun _ _ _ h => h

/-- **The id of the event** is that of the request, or a new one. -/
theorem spec_eventIdOrNew {eventId : Option Uuid} (hF : Framed (S := schema) ks F) :
    x.Spec p (Under p now ks F log) (eventIdOrNew eventId)
      (fun id => Under p now ks (fun db => F db ∧ ∀ i, eventId = some i → id = i) log)
      fun _ => Fresh p := by
  cases eventId with
  | none =>
    exact spec_post (spec_questionUnder hF)
      (fun _ _ _ h => under_mono (fun _ hf => ⟨hf, fun _ h0 => absurd h0 (by simp)⟩) h)
      fun _ _ h => h
  | some id =>
    exact spec_pure (stable_held hF) fun _ _ h =>
      under_mono (fun _ hf => ⟨hf, fun _ h0 => Option.some.inj h0⟩) h

/-! ## The quotas

The month's row may be missing: then the insertion locks its key, and otherwise the `FOR UPDATE` does. -/

/-- What is known of a usage row stays while its key is held. -/
theorem framed_usageHeld {i : Uuid} {m : Int} (hF : Framed (S := schema) ks F)
    (G : Option UsageRow → Prop) :
    Framed (S := schema) (.usage i m :: ks) fun db => F db ∧ G (Db.usage? db i m) :=
  (hF.mono (List.subset_cons_self _ _)).and
    ((framed_usage G).mono (List.cons_subset_cons _ (List.nil_subset _)))

/-- The plan is that of the tables at the start. -/
theorem spec_selectCapabilities {f : DbError → ε} (hF : Framed (S := schema) ks F) :
    x.Spec p (Under p now ks F log) (statement f (.selectCapabilities account))
      (fun capabilities => Under p now ks
        (fun db => F db ∧ x.db₀.capabilities account = some capabilities) log)
      fun _ => Fresh p := by
  refine spec_poolRead rfl hF fun g ch capabilities taken ws hi he => ?_
  obtain ⟨hcap, rfl⟩ := selectCapabilities_ok he
  rw [hi.replayed, tables_capabilities] at hcap
  exact ⟨rfl, hcap⟩

variable (x account c) in
/-- **What is known before the insertion**: the chain, the usage of the month, and one more event
allowed. -/
def Reserved (month : Int) (chainLog usageLog : List Write) (commits stamps : Int) (db : Db) :
    Prop :=
  (Access (db.chain? c) account c chainLog ∧
    Meter (db.usage? account month) account month commits stamps usageLog) ∧
    Allowance x.db₀ account commits stamps

/-- The usage and the chain are what the two keys lock. -/
theorem framed_reserved {month : Int} {chainLog usageLog : List Write} {commits stamps : Int} :
    Framed (S := schema) [.usage account month, .chain c]
      (Reserved x c account month chainLog usageLog commits stamps) :=
  (framed_usageHeld (framed_access chainLog)
    fun row? => Meter row? account month commits stamps usageLog).and framed_const

/-- **The quotas leave the usage row locked, with one more event allowed.** -/
theorem spec_reserveUsage (hF : Framed (S := schema) ks F)
    (hlog : ∀ db, F db → ∀ w ∈ log, Key.usage account (monthOf now) ∉ w.keys) :
    x.Spec p (Under p now ks F log) (reserveUsage account)
      (fun _ l g => ∃ commits stamps usageLog,
        Under p now (.usage account (monthOf now) :: ks)
          (fun db => (F db ∧ Meter (db.usage? account (monthOf now)) account (monthOf now)
            commits stamps usageLog) ∧ Allowance x.db₀ account commits stamps)
          (log ++ usageLog) l g)
      fun _ => Fresh p := by
  refine spec_bind (fun _ => steady_fresh) (spec_cases (ι := Bool) (s := .insertUsage account)
    (K := fun _ first => if first then .usage account (monthOf now) :: ks else ks)
    (G := fun _ first db => F db ∧ (first = true → db.usage? account (monthOf now) = none))
    (W := fun _ first => if first then [.insertUsage account (monthOf now)] else [])
    rfl hF ?_ ?_) fun _ => spec_exists fun first => ?_
  · intro _ first
    -- the row is that of the tables, or the one that this transaction has just inserted
    cases first with
    | false => exact hF.and fun _ _ _ _ h => absurd h (by simp)
    | true => exact framed_usageHeld hF fun row? => true = true → row? = none
  · intro g ch _ taken ws hf _ _ he
    rcases insertUsage_ok he with ⟨-, rfl⟩ | ⟨hnone, rfl, rfl⟩
    · exact ⟨false, rfl, ⟨hf, fun h => absurd h (by simp)⟩, fun k hk => Or.inl hk, by simp⟩
    · have hsame : Db.usage? (replay (S := schema) log g.db) account (monthOf now) =
          Db.usage? g.db account (monthOf now) := same_of_keys (hlog g.db hf) g.db
      refine ⟨true, rfl, ⟨hf, fun _ => hsame.symm.trans hnone⟩, fun k hk => ?_, by simp [Write.keys]⟩
      rcases List.mem_cons.mp hk with rfl | hk
      · exact Or.inr List.mem_cons_self
      · exact Or.inl hk
  have hF1 : Framed (S := schema) (if first then .usage account (monthOf now) :: ks else ks)
      fun db : Db => F db ∧ (first = true → db.usage? account (monthOf now) = none) := by
    cases first with
    | false => exact hF.and fun _ _ _ _ h => absurd h (by simp)
    | true => exact framed_usageHeld hF fun row? => true = true → row? = none
  refine spec_bind (fun _ => steady_fresh) (spec_locks (s := .selectUsageForUpdate account)
    (K := fun _ => .usage account (monthOf now) :: ks)
    (G := fun (usage : Int × Int) db => F db ∧ Meter (db.usage? account (monthOf now)) account
      (monthOf now) usage.1 usage.2 (if first then [.insertUsage account (monthOf now)] else []))
    (W := fun _ => []) rfl hF1
    (fun usage => framed_usageHeld hF fun row? => Meter row? account (monthOf now) usage.1 usage.2
      (if first then [.insertUsage account (monthOf now)] else [])) ?_) fun usage => ?_
  · rintro g ch usage taken ws ⟨hf, hnone⟩ - - he
    obtain ⟨row, hrow, rfl, rfl, rfl⟩ := selectUsageForUpdate_ok he
    have hsame : Db.usage? (replay (S := schema) log g.db) account (monthOf now) =
        Db.usage? g.db account (monthOf now) := same_of_keys (hlog g.db hf) g.db
    refine ⟨rfl, ⟨hf, ?_⟩, fun k hk => ?_, by simp⟩
    · cases first with
      | false =>
        simp only [Bool.false_eq_true, if_false, List.append_nil] at hrow
        exact .row (hsame.symm.trans hrow)
      | true =>
        simp only [if_true] at hrow
        rw [replay_append, replay_write, replay_none, usage?_insertUsage, hsame, hnone rfl] at hrow
        simp only [BEq.rfl, Bool.and_self, if_true, Option.none_or] at hrow
        obtain rfl := Option.some.inj hrow
        exact .first (hnone rfl)
    · rcases List.mem_cons.mp hk with rfl | hk
      · exact Or.inr List.mem_cons_self
      · refine Or.inl ?_
        split_ifs
        · exact List.mem_cons_of_mem _ hk
        · exact hk
  -- the three checks of the plan, each under what is known so far: the commits, the timestamps and
  -- the availability of the TSA
  have hF2 := framed_usageHeld (i := account) (m := monthOf now) hF fun row? =>
    Meter row? account (monthOf now) usage.1 usage.2
      (if first then [.insertUsage account (monthOf now)] else [])
  refine spec_bind (fun _ => steady_fresh) (spec_selectCapabilities hF2) fun capabilities => ?_
  refine spec_bind (fun _ => steady_fresh)
    (spec_requireUnder (hF2.and framed_const)) fun _ => ?_
  refine spec_bind (fun _ => steady_fresh)
    (spec_requireUnder ((hF2.and framed_const).and framed_const)) fun _ => ?_
  refine spec_post (spec_requireUnder (((hF2.and framed_const).and framed_const).and
    framed_const)) ?_ fun _ _ h => h
  intro _ l g h
  refine ⟨usage.1, usage.2, if first then [.insertUsage account (monthOf now)] else [], ?_⟩
  rw [List.append_nil] at h
  refine under_mono ?_ h
  rintro db ⟨⟨⟨⟨hfact, hcap⟩, hcommit⟩, htsa⟩, hmode⟩
  exact ⟨hfact, capabilities, hcap, hcommit, htsa, hmode⟩

/-! ## Insertion -/

variable {a : Addition}

/-- What makes an addition valid is under its keys. -/
theorem framed_valid : Framed (S := schema) a.keys fun db => a.Valid db := by
  intro db db' hs h
  obtain ⟨hchain, hevents⟩ : Db.chain? db' a.event.chainId = Db.chain? db a.event.chainId ∧
      Db.eventsOf db' a.event.chainId = Db.eventsOf db a.event.chainId :=
    hs (.chain a.event.chainId) (by simp [Addition.keys])
  have husage : Db.usage? db' a.account a.month = Db.usage? db a.account a.month :=
    hs (.usage a.account a.month) (by simp [Addition.keys])
  have hid : Db.hasEvent db' a.event.eventId = Db.hasEvent db a.event.eventId :=
    hs (.eventId a.event.eventId) (by simp [Addition.keys])
  refine ⟨?_, ?_, hid.trans h.newId, ?_, ?_, ?_⟩
  · rw [hchain]
    exact h.access
  · rw [husage]
    exact h.meter
  · rw [hevents]
    exact h.newKey
  · rw [Db.head?, hchain]
    exact h.parent
  · rw [hevents]
    exact h.sequence

/-- All that makes an event added stays while the addition's keys are held. -/
theorem framed_adds {req : SubmitEventRequest} :
    Framed (S := schema) a.keys fun db => Adds x.ok x.db₀ p account req a db := by
  intro db db' hs h
  have hc : Key.chain a.event.chainId ∈ a.keys := by simp [Addition.keys]
  have hhead : Db.head? db' a.event.chainId = Db.head? db a.event.chainId :=
    framed_head hc (fun head => head = db.head? a.event.chainId) db db' hs rfl
  refine ⟨h.owner, h.row, h.eventId, framed_valid db db' hs h.valid, h.allowance, ?_⟩
  rw [hhead]
  exact h.inserted

/-- The row a transaction sees before it moves the head. -/
theorem Addition.Valid.chain?_inserted {db : Db} (h : a.Valid db) :
    Db.chain? (replay (S := schema) (a.prepared ++ [.insertEvent a.event]) db) a.event.chainId =
      some ⟨a.event.chainId, db.head? a.event.chainId, some a.account⟩ := by
  rw [replay_append]
  exact h.chain?_prepared

/-- The usage row that a transaction sees before it counts. -/
theorem Addition.Valid.usage?_moved {db : Db} (h : a.Valid db) :
    Db.usage? (replay (S := schema) (a.prepared ++ [.insertEvent a.event] ++
      [.setHead a.event.chainId a.event.eventId]) db) a.account a.month =
        some ⟨a.account, a.month, a.commits, a.stamps⟩ := by
  rw [replay_append, replay_append]
  exact h.usage?_prepared

/-- **The three writes of `insert_event_in_tx`**: the row, the head, the usage. -/
theorem spec_insertPlanned {req : SubmitEventRequest} {chainLog usageLog : List Write}
    {commits stamps : Int} {head : Option Uuid} {sequence : Int64} {id : Uuid} :
    x.Spec p (Under p now [.usage account (monthOf now), .chain req.chainId]
        (fun db => ((Reserved x req.chainId account (monthOf now) chainLog usageLog commits stamps
          db ∧ head = db.head? req.chainId) ∧
          sequence.toInt = maxSequence (db.eventsOf req.chainId) + 1) ∧
          ∀ i, req.eventId = some i → id = i) (chainLog ++ usageLog))
      (do
        query (.insertEvent (req.row id (Option.getD head Uuid.nil) sequence 0))
        query (.updateHead id req.chainId)
        query (.updateUsage account)
        pure (id, sequence))
      (fun r l g => ∃ a : Addition, (a.event.chainId = req.chainId ∧ a.event.eventId = r.1 ∧
        a.event.sequence = r.2) ∧ Under p now a.keys
          (fun db => Adds x.ok x.db₀ p account req a db) a.unsigned l g)
      fun _ => Fresh p := by
  -- the addition, as the three writes make it
  let a : Addition := ⟨account, req.row id (Option.getD head Uuid.nil) sequence now, chainLog,
    usageLog, commits, stamps⟩
  have hadds : Framed (S := schema) a.keys fun db => Adds x.ok x.db₀ p account req a db := framed_adds
  have hc : Key.chain req.chainId ∈ [Key.usage account (monthOf now), .chain req.chainId] := by simp
  have hreserved : Framed (S := schema) [.usage account (monthOf now), .chain req.chainId]
      (Reserved x req.chainId account (monthOf now) chainLog usageLog commits stamps) :=
    framed_reserved
  have hF := ((hreserved.and (framed_head hc fun h => head = h)).and (framed_events hc fun events =>
    sequence.toInt = maxSequence events + 1)).and
      (framed_const (P := ∀ i, req.eventId = some i → id = i))
  refine spec_bind (fun _ => steady_fresh) (spec_locks (K := fun _ => a.keys)
    (G := fun _ db => Adds x.ok x.db₀ p account req a db) (W := fun _ => [.insertEvent a.event])
    rfl hF (fun _ => hadds) ?_) fun _ => ?_
  · rintro g ch _ taken ws ⟨⟨⟨⟨⟨haccess, hmeter⟩, hallow⟩, hhead⟩, hseq⟩, hid⟩ - hq he
    obtain ⟨rfl, hnew, hkey, hkeys⟩ := insertEvent_ok he
    -- neither the chain's own writes nor those of the usage are on the events
    have hevents : (replay (S := schema) (chainLog ++ usageLog) g.db).events = g.db.events := by
      refine replay_offEvents (fun w hw => ?_) g.db
      rcases List.mem_append.mp hw with hw | hw
      · exact (haccess.keys w hw).2
      · exact (hmeter.keys w hw).2
    have hvalid : a.Valid g.db :=
      { access := haccess
        meter := hmeter
        newId := by
          rw [Db.hasEvent, hevents] at hnew
          exact hnew
        newKey := by
          rw [Db.eventsOf_of_events hevents] at hkey
          exact hkey
        parent := by
          change Option.getD head Uuid.nil = _
          rw [hhead]
          rfl
        sequence := hseq }
    refine ⟨rfl, ⟨rfl, ⟨_, _, _, _, rfl⟩, hid, hvalid, hallow, g, hq, rfl⟩, fun k hk => ?_, ?_⟩
    · simp only [Addition.keys, List.mem_cons, List.not_mem_nil, or_false] at hk
      rcases hk with rfl | rfl | rfl
      -- the chain and the usage row are held, and the insertion takes the id of the event
      · exact Or.inl (by simp [a, SubmitEventRequest.row])
      · exact Or.inl (by simp [a, Addition.month, SubmitEventRequest.row])
      · rcases hkeys (.eventId id) (by simp [Write.keys, SubmitEventRequest.row]) with h | h
        · exact absurd h (by simp)
        · exact Or.inr h
    · intro w hw k hk
      rw [List.mem_singleton.mp hw] at hk
      rcases hkeys k hk with rfl | h
      · exact Or.inl (by simp [SubmitEventRequest.row])
      · exact Or.inr h
  refine spec_bind (fun _ => steady_fresh) (spec_locks (K := fun _ => a.keys)
    (G := fun _ db => Adds x.ok x.db₀ p account req a db)
    (W := fun _ => [.setHead a.event.chainId a.event.eventId])
    rfl hadds (fun _ => hadds) ?_) fun _ => ?_
  · rintro g ch _ taken ws h - - he
    obtain ⟨rfl, rfl⟩ := updateHead_ok h.valid.chain?_inserted he
    exact ⟨rfl, h, fun k hk => Or.inl hk, by simp [Write.keys]⟩
  refine spec_bind (fun _ => steady_fresh) (spec_locks (K := fun _ => a.keys)
    (G := fun _ db => Adds x.ok x.db₀ p account req a db)
    (W := fun _ => [.bumpUsage a.account a.month]) rfl hadds (fun _ => hadds) ?_) fun _ => ?_
  · rintro g ch _ taken ws h - - he
    obtain ⟨rfl, rfl⟩ := updateUsage_ok h.valid.usage?_moved he
    exact ⟨rfl, h, fun k hk => Or.inl hk, by simp [Write.keys, a, SubmitEventRequest.row]⟩
  exact spec_pure (stable_held hadds) fun _ _ h => ⟨a, ⟨rfl, rfl, rfl⟩, h⟩

/-- **`insert_event_in_tx`.** -/
theorem spec_insertEventInTx {req : SubmitEventRequest} {chainLog : List Write} :
    x.Spec p (Under p now [.chain req.chainId]
        (fun db => Access (db.chain? req.chainId) account req.chainId chainLog) chainLog)
      (insertEventInTx account req)
      (fun r l g => ∃ a : Addition, (a.event.chainId = req.chainId ∧ a.event.eventId = r.1 ∧
        a.event.sequence = r.2) ∧ Under p now a.keys
          (fun db => Adds x.ok x.db₀ p account req a db) a.unsigned l g)
      fun _ => Fresh p := by
  refine spec_bind (fun _ => steady_fresh) (spec_reserveUsage (framed_access chainLog)
    fun db h w hw => by simp [(h.keys w hw).1]) fun _ => ?_
  refine spec_exists fun commits => spec_exists fun stamps => spec_exists fun usageLog => ?_
  have hc : Key.chain req.chainId ∈ [Key.usage account (monthOf now), .chain req.chainId] := by simp
  have hF : Framed (S := schema) [.usage account (monthOf now), .chain req.chainId]
      (Reserved x req.chainId account (monthOf now) chainLog usageLog commits stamps) :=
    framed_reserved
  refine spec_bind (fun _ => steady_fresh) (spec_selectHead hF hc ?_) fun head => ?_
  · rintro db ⟨⟨haccess, hmeter⟩, -⟩
    refine ⟨some account, ?_⟩
    rw [replay_append]
    -- the usage writes do not touch the chain
    refine Eq.trans ?_ haccess.chain?
    exact (same_of_keys (k := .chain req.chainId)
      (fun w hw => by simp [(hmeter.keys w hw).1]) _).1
  refine spec_bind (fun _ => steady_fresh) (spec_selectNextSequence ?_ hc ?_) fun sequence => ?_
  · exact hF.and (framed_head hc fun h => head = h)
  · rintro db ⟨⟨⟨haccess, hmeter⟩, -⟩, -⟩ w hw
    rcases List.mem_append.mp hw with hw | hw
    · exact (haccess.keys w hw).2
    · exact (hmeter.keys w hw).2
  exact spec_bind (fun _ => steady_fresh) (spec_eventIdOrNew ((hF.and
    (framed_head hc fun h => head = h)).and (framed_events hc fun events =>
      sequence.toInt = maxSequence events + 1))) fun id => spec_insertPlanned

/-! ## Signature -/

/-- The prefix that is signed stays the same while the chain is locked. -/
theorem framed_readRows (events : List EventRow) :
    Framed (S := schema) a.keys fun db => events = a.readRows db :=
  framed_events (c := a.event.chainId) (by simp [Addition.keys]) fun committed =>
    events = rows (orderBySequence ((committed ++ [a.event]).filter
      (·.sequence ≤ a.event.sequence)))

/-- The snapshot that is signed stays the same while the chain is locked. -/
theorem framed_snapshot (snapshot : ProofSnapshot) :
    Framed (S := schema) a.keys fun db => snapshot = a.snapshot x.state db :=
  framed_events (c := a.event.chainId) (by simp [Addition.keys]) fun committed =>
    snapshot = buildProofSnapshot x.state.sha x.state.ed x.state.signer a.event.chainId
      a.event.eventId (rows (orderBySequence ((committed ++ [a.event]).filter
        (·.sequence ≤ a.event.sequence))))

/-- **Sign and store**: the snapshot is of the rows that the transaction sees. -/
theorem spec_signEvent {req : SubmitEventRequest} :
    x.Spec p (Under p now a.keys (fun db => Adds x.ok x.db₀ p account req a db) a.unsigned)
      (signEvent x.state a.event.chainId a.event.eventId a.event.sequence)
      (fun snapshot => Under p now a.keys
        (fun db => Adds x.ok x.db₀ p account req a db ∧ snapshot = a.snapshot x.state db)
        (a.unsigned ++ [.setSignature a.event.chainId a.event.eventId snapshot.signature]))
      fun _ => Fresh p := by
  have hadds : Framed (S := schema) a.keys fun db => Adds x.ok x.db₀ p account req a db := framed_adds
  refine spec_bind (fun _ => steady_fresh) (spec_bind (fun _ => steady_fresh) (spec_read
    (s := .selectEventPrefix a.event.chainId a.event.sequence)
    (G := fun (events : List EventRow) db => Adds x.ok x.db₀ p account req a db ∧
      events = a.readRows db) rfl hadds (fun events => hadds.and (framed_readRows events)) ?_)
    fun events => (spec_pure (stable_held (hadds.and (framed_readRows events))) fun l g h => ?_ :
      x.Spec p _ _ (fun snapshot => Under p now a.keys (fun db =>
        Adds x.ok x.db₀ p account req a db ∧ snapshot = a.snapshot x.state db) a.unsigned) _))
    fun snapshot => ?_
  · rintro g ch events taken ws h - - he
    obtain ⟨rfl, rfl⟩ := selectEventPrefix_ok he
    rw [h.valid.eventsOf_unsigned]
    exact ⟨rfl, h, rfl⟩
  · refine under_mono ?_ h
    rintro db ⟨hadd, rfl⟩
    exact ⟨hadd, rfl⟩
  · have hsnapshot := hadds.and (framed_snapshot (x := x) snapshot)
    refine spec_bind (fun _ => steady_fresh) (spec_locks (K := fun _ => a.keys)
      (G := fun _ db => Adds x.ok x.db₀ p account req a db ∧ snapshot = a.snapshot x.state db)
      (W := fun _ => [.setSignature a.event.chainId a.event.eventId snapshot.signature]) rfl
      hsnapshot (fun _ => hsnapshot) ?_) fun _ => spec_pure (stable_held hsnapshot) fun _ _ h => h
    rintro g ch _ taken ws ⟨h, hs⟩ - - he
    -- the id is new, so the new event is the one that the update finds
    have hfind : (replay (S := schema) a.unsigned g.db).events.find?
        (·.eventId == a.event.eventId) = some a.event := by
      rw [h.valid.events_unsigned, List.find?_append, List.find?_eq_none.mpr fun e' he' =>
        List.any_eq_false.mp h.valid.newId e' he']
      simp
    obtain ⟨rfl, rfl⟩ := updateSignature_ok hfind he
    exact ⟨rfl, ⟨h, hs⟩, fun k hk => Or.inl hk, by simp [Write.keys, Addition.keys]⟩

/-! ## Commit

All of the addition's keys are still held, so the tables at the commit are those for which the writes
were computed. -/

variable {req : SubmitEventRequest} {snapshot : ProofSnapshot} {after : List Write}

variable (x p account req) in
/-- The event has landed. -/
def After (eventId : Uuid) (snapshot : ProofSnapshot) (after : List Write) (g : Shared schema) :
    Prop :=
  Landed x.state x.ok x.db₀ p account req eventId snapshot after g.history

/-- A landed event has landed for good. -/
theorem steady_after {eventId : Uuid} :
    Steady x.Inv p (After x p account req eventId snapshot after) :=
  steady_past fun _ _ hp h => h.mono hp

/-- **The commit of an event**, with what else its transaction wrote. -/
theorem spec_commitEvent {f : DbError → ε} (hF : Framed (S := schema) ks F)
    (hadds : ∀ db, F db → Adds x.ok x.db₀ p account req a db ∧ snapshot = a.snapshot x.state db)
    (hafter : ∀ db, F db → RecordOnly db after)
    (hcommit : ∀ h : History schema, writesOf p h = [] → F (tables x.db₀ h) →
      Commit x.state x.requests x.ok x.db₀ h p (a.log x.state (tables x.db₀ h) ++ after)) :
    x.Spec p (Under p now ks F
        (a.unsigned ++ [.setSignature a.event.chainId a.event.eventId snapshot.signature] ++ after))
      (commitTx f)
      (fun _ => Outside (After x p account req a.event.eventId snapshot after))
      fun _ => Fresh p := by
  refine Lib.Transaction.spec_commit (S := schema) hF steady_after (fun _ => steady_fresh) ?_
    fun _ h => h
  intro g hfresh hf hi
  obtain ⟨h, hs⟩ := hadds g.db hf
  -- what was signed in the transaction is what the committed tables say: the chain was held
  have hlog : a.unsigned ++
      [.setSignature a.event.chainId a.event.eventId snapshot.signature] ++ after =
        a.log x.state (tables x.db₀ g.history) ++ after := by
    rw [hs, ← hi.replayed]
    rfl
  have hf' := hf
  rw [hi.replayed] at hf'
  refine ⟨?_, g.history, a, ?_, hfresh, (hadds _ hf').1, hafter _ hf', rfl, (hadds _ hf').2⟩
  · rw [hlog]
    exact hi.record fun _ => hcommit g.history hfresh hf'
  · rw [release_history, install_history, Lib.Transaction.record, hlog, if_neg (by
      simp [Addition.log])]

end EvidentLedger.Ledger
