import EvidentLedger.Ledger.Ownership

/-!
# The monthly quotas

`insert_event_in_tx` reads the usage row of its month under a lock, checks it against the plan, and
adds one to both counters after the event is in (`service/ledger.rs:258-393`,
`service/capabilities.rs:32-91`). The plan is read on another connection.

* `Quota`: the counters of a month are the number of events of that month on the account's chains,
  and within the limits of its plan; every event is on a chain with an owner.
* `Quota.kind`: every commit keeps it.
* **`quota_accounting`**: it holds in every state reached, and a submission without an event is not
  part of the tables at all.
-/

namespace EvidentLedger.Ledger

open Lib.Interleave Lib.Transaction

/-- The number of an account's events whose transactions started in a month. -/
def Db.eventsIn (db : Db) (account : Uuid) (month : Int) : Nat :=
  db.events.countP fun e => db.owner? e.chainId == some account && monthOf e.createdAt == month

/-- Within a limit, if there is one. -/
def Within (used : Int) (limit : Option Int) : Prop := ∀ n, limit = some n → used ≤ n

/-- **The usage of an account in a month**: counted by its events, within the limits of its plan. -/
structure MonthCounted (db : Db) (account : Uuid) (month : Int) : Prop where
  noRow : db.usage? account month = none → db.eventsIn account month = 0
  serverCommits : ∀ row, db.usage? account month = some row →
    row.serverCommits = db.eventsIn account month
  tsaRequests : ∀ row, db.usage? account month = some row →
    row.tsaRequests = db.eventsIn account month
  commitsLimit : ∀ row capabilities, db.usage? account month = some row →
    db.capabilities account = some capabilities →
      Within row.serverCommits capabilities.monthlyCommitsLimit
  tsaLimit : ∀ row capabilities, db.usage? account month = some row →
    db.capabilities account = some capabilities →
      Within row.tsaRequests capabilities.monthlyTsaLimit

/-- **What holds of the committed tables.** -/
structure Quota (db : Db) : Prop where
  owned : ∀ e ∈ db.events, ∃ account, db.owner? e.chainId = some account
  counted : ∀ account month, MonthCounted db account month

theorem quota_empty (capabilities : Uuid → Option AccountCapabilities)
    (identityKeys : List IdentityKeyRow) : Quota (Db.empty capabilities identityKeys) :=
  ⟨fun _ he => absurd he (by simp [Db.empty]), fun _ _ => ⟨fun _ => rfl,
    fun _ h => absurd h (by simp [Db.empty, Db.usage?]),
    fun _ h => absurd h (by simp [Db.empty, Db.usage?]),
    fun _ _ h => absurd h (by simp [Db.empty, Db.usage?]),
    fun _ _ h => absurd h (by simp [Db.empty, Db.usage?])⟩⟩

variable {state : AppState} {requests : Nat → Request} {ok : Nat → Call schema → Shared schema → Prop}
  {db₀ db db' : Db} {h : History schema} {p : Nat} {a : Addition} {log after : List Write}
  {account : Uuid} {month : Int}

/-- One more is allowed. -/
theorem Allowance.within {commits stamps : Int} {capabilities : AccountCapabilities}
    (h : Allowance db₀ account commits stamps) (hcap : db₀.capabilities account = some capabilities) :
    Within (commits + 1) capabilities.monthlyCommitsLimit ∧
      Within (stamps + 1) capabilities.monthlyTsaLimit := by
  obtain ⟨capabilities', hcap', hcommit, htsa, -⟩ := h
  obtain rfl := Option.some.inj (hcap'.symm.trans hcap)
  constructor
  · intro n hn
    rw [AccountCapabilities.canCommit, hn] at hcommit
    exact of_decide_eq_true hcommit
  · intro n hn
    rw [AccountCapabilities.canUseTsa, hn] at htsa
    exact of_decide_eq_true htsa

/-- The usage found is the number of events so far. -/
theorem Quota.found (hq : Quota db) (ha : a.Valid db) :
    a.commits = db.eventsIn a.account a.month ∧ a.stamps = db.eventsIn a.account a.month := by
  have hcounted := hq.counted a.account a.month
  have hmeter := ha.meter
  generalize a.usageLog = usageLog at hmeter
  generalize hc : a.commits = commits at hmeter ⊢
  generalize hs : a.stamps = stamps at hmeter ⊢
  cases hmeter with
  | first hnone => simp [hcounted.noRow hnone]
  | row hrow => exact ⟨hcounted.serverCommits _ hrow, hcounted.tsaRequests _ hrow⟩

/-- The chain of an event that is there keeps its owner. -/
theorem Quota.owner_kept (hq : Quota db) (ha : a.Valid db) (hafter : RecordOnly db after)
    {e : EventRecord} (he : e ∈ db.events) :
    Db.owner? (replay (S := schema) (a.log state db ++ after) db) e.chainId =
      db.owner? e.chainId := by
  obtain ⟨owner, howner⟩ := hq.owned e he
  rw [ha.owner?_all hafter]
  split_ifs with hc
  · rw [hc] at howner ⊢
    rw [howner, ha.access.owner howner]
  · rfl

/-- **One event more** in its month, none in the others. -/
theorem Quota.eventsIn_all (hq : Quota db) (ha : a.Valid db) (hafter : RecordOnly db after) :
    Db.eventsIn (replay (S := schema) (a.log state db ++ after) db) account month =
      db.eventsIn account month + if account = a.account ∧ month = a.month then 1 else 0 := by
  rw [Db.eventsIn, ha.events_all hafter, List.countP_append, List.countP_singleton]
  congr 1
  · refine List.countP_congr fun e he => ?_
    rw [hq.owner_kept ha hafter he]
  · have howner : Db.owner? (replay (S := schema) (a.log state db ++ after) db)
        (a.signed state db).chainId = some a.account := by
      rw [ha.owner?_all hafter]
      exact if_pos rfl
    rw [howner]
    refine if_congr ?_ rfl rfl
    rw [Bool.and_eq_true, beq_iff_eq, beq_iff_eq, Option.some_inj]
    exact and_congr eq_comm eq_comm

/-- An event keeps the accounts. -/
theorem Quota.event {req : SubmitEventRequest} (hq : Quota db)
    (hcap : db.capabilities = db₀.capabilities) (hadds : Adds ok db₀ p account req a db)
    (hafter : RecordOnly db after) :
    Quota (replay (S := schema) (a.log state db ++ after) db) := by
  have ha := hadds.valid
  obtain ⟨hcommits, hstamps⟩ := hq.found ha
  have hallow := hadds.allowance
  rw [← hadds.owner] at hallow
  refine ⟨fun e he => ?_, fun account' month => ?_⟩
  · rw [ha.events_all hafter] at he
    rcases List.mem_append.mp he with he | he
    · rw [hq.owner_kept ha hafter he]
      exact hq.owned e he
    · rw [List.mem_singleton.mp he, ha.owner?_all hafter]
      exact ⟨a.account, if_pos rfl⟩
  · have husage : Db.usage? (replay (S := schema) (a.log state db ++ after) db) account' month = _ :=
      ha.usage?_all hafter account' month
    have hevents :
        Db.eventsIn (replay (S := schema) (a.log state db ++ after) db) account' month = _ :=
      hq.eventsIn_all ha hafter
    have hcapabilities := capabilities_replay (a.log state db ++ after) db
    by_cases hsame : account' = a.account ∧ month = a.month
    · obtain ⟨rfl, rfl⟩ := hsame
      rw [if_pos ⟨rfl, rfl⟩] at husage hevents
      constructor
      · exact fun hnone => absurd (husage.symm.trans hnone) (by simp)
      · intro row hrow
        rw [hevents, ← Option.some.inj (husage.symm.trans hrow), hcommits]
        rfl
      · intro row hrow
        rw [hevents, ← Option.some.inj (husage.symm.trans hrow), hstamps]
        rfl
      · intro row capabilities hrow hc
        rw [hcapabilities, hcap] at hc
        rw [← Option.some.inj (husage.symm.trans hrow)]
        exact (hallow.within hc).1
      · intro row capabilities hrow hc
        rw [hcapabilities, hcap] at hc
        rw [← Option.some.inj (husage.symm.trans hrow)]
        exact (hallow.within hc).2
    · rw [if_neg hsame] at husage hevents
      obtain ⟨h1, h2, h3, h4, h5⟩ := hq.counted account' month
      exact ⟨by rw [husage, hevents]; exact h1, by rw [husage, hevents]; exact h2,
        by rw [husage, hevents]; exact h3, by rw [husage, hcapabilities]; exact h4,
        by rw [husage, hcapabilities]; exact h5⟩

/-- **Every commit keeps them.** -/
theorem Quota.kind (hq : Quota db) (hcap : db.capabilities = db₀.capabilities)
    (hk : Kind state ok db₀ p db log) : Quota (replay (S := schema) log db) := by
  have hk' := hk
  cases hk with
  | event hadds hafter => exact hq.event hcap hadds hafter
  | token =>
    refine ⟨hq.owned, fun account month => ?_⟩
    obtain ⟨h1, h2, h3, h4, h5⟩ := hq.counted account month
    exact ⟨h1, h2, h3, h4, h5⟩
  | @chain account c hnew =>
    have howner : ∀ e ∈ db.events, Db.owner? (replay (S := schema)
        [Write.insertChain ⟨c, none, some account⟩] db) e.chainId = db.owner? e.chainId := by
      intro e he
      obtain ⟨owner, howner⟩ := hq.owned e he
      rw [howner]
      exact hk'.owner howner
    have hevents : ∀ account' month, Db.eventsIn (replay (S := schema)
        [Write.insertChain ⟨c, none, some account⟩] db) account' month =
          db.eventsIn account' month := fun account' month =>
      List.countP_congr fun e he => by rw [howner e he]
    refine ⟨fun e he => ?_, fun account' month => ?_⟩
    · rw [howner e he]
      exact hq.owned e he
    · obtain ⟨h1, h2, h3, h4, h5⟩ := hq.counted account' month
      refine ⟨?_, ?_, ?_, h4, h5⟩
      · rw [hevents]
        exact h1
      · rw [hevents]
        exact h2
      · rw [hevents]
        exact h3

/-- Along every history. -/
theorem Recorded.quota (hr : Recorded state requests ok db₀ db h) (hq : Quota db₀) : Quota db := by
  rw [hr.replayed]
  refine hr.induction (motive := fun h => Quota (tables db₀ h)) hq ?_
  intro h p log _ hc ih
  rw [tables_concat]
  exact ih.kind (tables_capabilities db₀ h) hc.kind

/-- **The books of a state**: the counters are the events, within the limits, and a submission that
has not committed an event has left no trace in the tables. -/
structure Accounted (requests : Nat → Request) (db₀ : Db) (y : LedgerConfig) : Prop where
  counted : ∀ account month, MonthCounted y.shared.db account month
  traceless : ∀ p, (∀ account, requests p ≠ .createChain account) →
    (∃ c eventId, Submitted p c eventId y.shared.history) ∨
      y.shared.db = tables db₀ (without p y.shared.history)

/-- **Quota accounting.** -/
theorem quota_accounting (state : AppState) (requests : Nat → Request)
    (capabilities : Uuid → Option AccountCapabilities) (identityKeys : List IdentityKeyRow)
    (y : LedgerConfig) (hy : Reach (system schema) (fun _ _ _ => True)
      (start state requests (Db.empty capabilities identityKeys)) y) :
    Accounted requests (Db.empty capabilities identityKeys) y := by
  have hx : (Setting.all state requests (Db.empty capabilities identityKeys)).Reach
      (start state requests (Db.empty capabilities identityKeys)) y := hy
  obtain ⟨hr, -⟩ := ledger_reach hx
  exact ⟨(hr.quota (quota_empty _ _)).counted, fun p hsubmit => hr.traceless hsubmit⟩

/-- Two events of one account on one chain. -/
theorem quota_accounting_sampleRun :
    ∃ y : LedgerConfig, y.shared.db.usage? (Uuid.small 1) (monthOf 0) =
        some ⟨Uuid.small 1, monthOf 0, 2, 2⟩ ∧
      Accounted sampleRequests (Db.empty sampleCapabilities []) y := by
  have hrun : (sampleStart.run (system schema) (fun _ _ _ => True)
      (sampleSteps 0 15 20 none ++ sampleSteps 1 16 21 none)).map
        (fun y => y.shared.db.usage? (Uuid.small 1) (monthOf 0)) =
          some (some ⟨Uuid.small 1, monthOf 0, 2, 2⟩) := by decide +kernel
  obtain ⟨y, hy, husage⟩ := Reach.exists_of_run hrun
  exact ⟨y, husage, quota_accounting sampleState sampleRequests sampleCapabilities [] y hy⟩

end EvidentLedger.Ledger
