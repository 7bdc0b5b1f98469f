import EvidentLedger.Ledger.Ownership

/-!
# What `POST /events` acknowledges, checks and undoes

Three contracts of submission, each in the runs whose steps meet its condition, from any tables.

* An answer names an event with the file hash of the request. `submit_event` looks an earlier event
  up by chain and key alone (`service/ledger.rs:185-203`), so a key that was used for other content
  is answered with that content. **`acknowledged_event_recorded`**: not so where the lookup finds no
  other content (`KeyMatches`).
* A request that names a parent extends it. `parent_event_id` is never read and `ParentMismatch`
  never returned (`service/ledger.rs:258-393`). **`parent_extended`**: the parent named is extended,
  or is the head that a repeated request is told, where it is the head when the request begins, takes
  the chain, looks its key up and inserts its row (`ParentIsHead`).
* A request that fails has changed nothing. After its commit `submit_event` still propagates the
  errors of three reads (`service/ledger.rs:236-253`, `395-433`). **`submission_all_or_nothing`**:
  so it is where these reads do not fail (`noLateFailure`).
-/

namespace EvidentLedger.Ledger

open Lib.Interleave Lib.Transaction

variable (requests : Nat → Request)

/-- A legacy request. -/
def Request.legacy? : Request → Option SubmitEventRequest
  | .submitEvent _ req => some req
  | _ => none

/-- The chain and the key that a call looks up. -/
def keyLookup? : Call schema → Option (Uuid × String)
  | .sql (.selectByIdempotencyKey c key) => some (c, key)
  | _ => none

/-- The calls of `submit_event` at which a fork could be detected: it begins, takes the row of the chain,
looks for an earlier event, and inserts its own. -/
def detectsFork : Call schema → Bool
  | .begin => true
  | .sql (.insertChainOnConflict _ _) => true
  | .sql (.selectChainForUpdate _) => true
  | .sql (.selectByIdempotencyKey _ _) => true
  | .sql (.insertEvent _) => true
  | _ => false

/-- A lookup by idempotency key finds no content but the request's own. -/
def KeyMatches (p : Nat) (q : Call schema) (g : Shared schema) : Prop :=
  ∀ r ∈ keyLookup? q, ∀ req ∈ (requests p).legacy?, ∀ e ∈ Db.eventsOf g.db r.1,
    e.idempotencyKey = r.2 → e.fileHash = req.fileHash

/-- The parent that a request names, if any, is the head of its chain at each of these calls. -/
def ParentIsHead (p : Nat) (q : Call schema) (g : Shared schema) : Prop :=
  detectsFork q = true → ∀ req ∈ (requests p).legacy?, ∀ parent ∈ req.parentEventId,
    Db.head? g.db req.chainId = some parent

instance (p : Nat) (q : Call schema) (g : Shared schema) : Decidable (KeyMatches requests p q g) :=
  inferInstanceAs (Decidable (∀ r ∈ keyLookup? q, ∀ req ∈ (requests p).legacy?,
    ∀ e ∈ Db.eventsOf g.db r.1, e.idempotencyKey = r.2 → e.fileHash = req.fileHash))

instance (p : Nat) (q : Call schema) (g : Shared schema) :
    Decidable (ParentIsHead requests p q g) :=
  inferInstanceAs (Decidable (detectsFork q = true → ∀ req ∈ (requests p).legacy?,
    ∀ parent ∈ req.parentEventId, Db.head? g.db req.chainId = some parent))

/-- The reads after the commit of a legacy request do not fail. -/
def noLateFailure (p : Nat) (ch : Choice) (q : Call schema) (g : Shared schema) : Bool :=
  match q, requests p with
  | .sql s, .submitEvent _ _ =>
    !(ch.fails && s.afterCommit && !(writesOf p g.history).isEmpty)
  | _, _ => true

variable {requests}

/-- A submission that failed. -/
def Reply.failed : Reply → Bool
  | .event (.error _) => true
  | .v1 (.error _) => true
  | _ => false

/-! ## Answers -/

/-- The event and the chain that an answer names. -/
def SubmitResponse.eventId : SubmitResponse → Uuid
  | .cached eventId _ _ => eventId
  | .committed response => response.eventId

def SubmitResponse.chainId : SubmitResponse → Uuid
  | .cached _ chainId _ => chainId
  | .committed response => response.chainId

/-- The request's content is recorded under the answer. -/
def Acknowledged (req : SubmitEventRequest) (db : Db) (response : SubmitResponse) : Prop :=
  response.chainId = req.chainId ∧
    ∃ e ∈ db.eventsOf req.chainId, e.eventId = response.eventId ∧ e.fileHash = req.fileHash

instance (req : SubmitEventRequest) (db : Db) (response : SubmitResponse) :
    Decidable (Acknowledged req db response) :=
  inferInstanceAs (Decidable (response.chainId = req.chainId ∧
    ∃ e ∈ db.eventsOf req.chainId, e.eventId = response.eventId ∧ e.fileHash = req.fileHash))

/-- **A legacy answer names recorded content**, in every run where no lookup finds other content
under the key of its request. -/
theorem acknowledged_event_recorded (state : AppState) (requests : Nat → Request) (db₀ : Db)
    (p : Nat) (account : Uuid) (req : SubmitEventRequest)
    (hreq : requests p = .submitEvent account req) (y : LedgerConfig)
    (hy : Reach (system schema) (KeyMatches requests) (start state requests db₀) y)
    (response : SubmitResponse) (hreply : (y.procs p).1.result = some (.event (.ok response))) :
    Acknowledged req y.shared.db response := by
  let x : Setting := ⟨state, requests, fun _ _ _ _ => true, KeyMatches requests, db₀⟩
  have hx : x.Reach (start x.state x.requests x.db₀) y := hy
  obtain ⟨hr, hreplies⟩ := ledger_reach hx
  obtain ⟨account', req', hreq', hanswer⟩ := hreplies p _ hreply
  obtain ⟨rfl, rfl⟩ := Request.submitEvent.inj (hreq.symm.trans hreq')
  cases response with
  | cached eventId chainId head =>
    obtain ⟨-, rfl, h', e, hp, ⟨he, hkey, g, hok, hsame, -⟩, rfl, -⟩ := hanswer
    have hmatch : KeyMatches requests p
      (.sql (.selectByIdempotencyKey req.chainId req.idempotencyKey)) g := hok
    have hhash := hmatch _ rfl req (by rw [hreq]; rfl) e (by rw [hsame]; exact he) hkey
    exact ⟨rfl, e, (hr.events hp).filter _ |>.subset he, rfl, hhash⟩
  | committed response =>
    obtain ⟨eventId, snapshot, after, sequence, events, tsa, rfl, g, -, -, hp, hlanded, -⟩ :=
      hanswer
    exact ⟨rfl, (hlanded.mono hp).event hr⟩

/-- The answer that a legacy request has given. -/
def answer? (y : LedgerConfig) (p : Nat) : Option SubmitResponse :=
  match (y.procs p).1.result with
  | some (.event (.ok response)) => some response
  | _ => none

theorem result_of_answer? {y : LedgerConfig} {p : Nat} {response : SubmitResponse}
    (h : answer? y p = some response) :
    (y.procs p).1.result = some (.event (.ok response)) := by
  unfold answer? at h
  split at h
  · rw [← Option.some.inj h]
    assumption
  · exact absurd h (by simp)

/-- Requests with one key, the second of them for this file. -/
def sampleSameKey (fileHash : String) (p : Nat) : Request :=
  .submitEvent (Uuid.small 1)
    { sampleRequest "key" with fileHash := if p = 0 then "aa" else fileHash }

theorem acknowledged_event_recorded_sampleRun :
    ∃ (y : LedgerConfig) (response : SubmitResponse),
      (y.procs 1).1.result = some (.event (.ok response)) ∧
      Acknowledged { sampleRequest "key" with fileHash := "aa" } y.shared.db response := by
  have hrun : ((start sampleState (sampleSameKey "aa") (Db.empty sampleCapabilities [])).run
      (system schema) (KeyMatches (sampleSameKey "aa"))
      (sampleSteps 0 15 20 none ++ sampleSteps 1 6 21 none)).map
        (fun y => (answer? y 1).isSome) = some true := by decide +kernel
  obtain ⟨y, hy, hsome⟩ := Reach.exists_of_run hrun
  obtain ⟨response, hanswer⟩ := Option.isSome_iff_exists.mp hsome
  exact ⟨y, response, result_of_answer? hanswer, acknowledged_event_recorded sampleState
    (sampleSameKey "aa") _ 1 (Uuid.small 1) _ rfl y hy response (result_of_answer? hanswer)⟩

/-- **The second file is acknowledged with the event of the first.** -/
theorem other_content_acknowledged :
    ∃ (y : LedgerConfig) (response : SubmitResponse),
      Reach (system schema) (fun _ _ _ => True)
        (start sampleState (sampleSameKey "bb") (Db.empty sampleCapabilities [])) y ∧
      (y.procs 1).1.result = some (.event (.ok response)) ∧
      ¬ Acknowledged { sampleRequest "key" with fileHash := "bb" } y.shared.db response := by
  have hrun : ((start sampleState (sampleSameKey "bb") (Db.empty sampleCapabilities [])).run
      (system schema) (fun _ _ _ => True)
      (sampleSteps 0 15 20 none ++ sampleSteps 1 6 21 none)).map
        (fun y => (answer? y 1).map fun response => decide (Acknowledged
          { sampleRequest "key" with fileHash := "bb" } y.shared.db response)) =
            some (some false) := by decide +kernel
  obtain ⟨y, hy, hanswer⟩ := Reach.exists_of_run hrun
  obtain ⟨response, hanswer, hnot⟩ := Option.map_eq_some_iff.mp hanswer
  exact ⟨y, response, hy, result_of_answer? hanswer, of_decide_eq_false hnot⟩

/-! ## Parents -/

/-- Every commit of the request adds to the tables no event but one on this parent, while it is the
head of the chain. -/
def Extends (db₀ : Db) (p : Nat) (c parent : Uuid) (h : History schema) : Prop :=
  ∀ h₀ log e, h₀ ++ [(p, log)] <+: h → e ∈ (tables db₀ (h₀ ++ [(p, log)])).events →
    e ∉ (tables db₀ h₀).events →
      e.chainId = c ∧ e.parentEventId = parent ∧ (tables db₀ h₀).head? c = some parent

/-- What a legacy request adds is its event. -/
theorem Commit.events_new {state : AppState} {ok : Nat → Call schema → Shared schema → Prop}
    {db₀ : Db} {h : History schema} {p : Nat} {log : List Write} {e : EventRecord} {account : Uuid}
    {req : SubmitEventRequest} (hc : Commit state requests ok db₀ h p log)
    (hreq : requests p = .submitEvent account req)
    (he : e ∈ (replay (S := schema) log (tables db₀ h)).events) (hnew : e ∉ (tables db₀ h).events) :
    ∃ a, Adds ok db₀ p account req a (tables db₀ h) ∧ e = a.signed state (tables db₀ h) := by
  cases hc with
  | chain | token => exact absurd he hnew
  | v1 hreq' => exact absurd (hreq.symm.trans hreq') (by simp)
  | @legacy account' req' a hreq' _ hadds =>
    obtain ⟨rfl, rfl⟩ := Request.submitEvent.inj (hreq.symm.trans hreq')
    rw [hadds.valid.events_log] at he
    rcases List.mem_append.mp he with he | he
    · exact absurd he hnew
    · exact ⟨a, hadds, List.mem_singleton.mp he⟩

/-- An event that is inserted on the parent named. -/
theorem Adds.parent {db₀ db : Db} {p : Nat} {account : Uuid} {req : SubmitEventRequest} {a : Addition}
    (hadds : Adds (ParentIsHead requests) db₀ p account req a db)
    (hreq : requests p = .submitEvent account req) {parent : Uuid}
    (hparent : req.parentEventId = some parent) :
    a.event.parentEventId = parent ∧ db.head? req.chainId = some parent := by
  obtain ⟨g, hok, hhead⟩ := hadds.inserted
  have hok : ParentIsHead requests p (.sql (.insertEvent { a.event with createdAt := 0 })) g := hok
  have hnamed := hok rfl req (by rw [hreq]; rfl) parent hparent
  rw [hadds.chainId] at hhead
  rw [hadds.valid.parent, hadds.chainId, ← hhead, hnamed]
  exact ⟨rfl, rfl⟩

/-- **The parent that a request names is respected**: what it commits is on this parent, what it does not
commit it leaves as it is, and what it is told is an event on this parent, or one that was there with this
parent as the head of the chain. -/
structure ParentRespected (db₀ : Db) (p : Nat) (req : SubmitEventRequest) (parent : Uuid)
    (y : LedgerConfig) : Prop where
  extended : Extends db₀ p req.chainId parent y.shared.history
  unchanged : (∃ c eventId, Submitted p c eventId y.shared.history) ∨
    y.shared.db = tables db₀ (without p y.shared.history)
  committed : ∀ response, (y.procs p).1.result = some (.event (.ok (.committed response))) →
    ∃ e ∈ y.shared.db.eventsOf req.chainId, e.eventId = response.eventId ∧ e.parentEventId = parent
  cached : ∀ eventId c head, (y.procs p).1.result = some (.event (.ok (.cached eventId c head))) →
    c = req.chainId ∧ head = some parent ∧ writesOf p y.shared.history = []
  failed : ∀ err, (y.procs p).1.result = some (.event (.error err)) →
    writesOf p y.shared.history = [] ∨ err = .databaseError .io

/-- **The parent named is respected**, in every run where it is the head whenever a fork could be
detected. -/
theorem parent_extended (state : AppState) (requests : Nat → Request) (db₀ : Db)
    (p : Nat) (account : Uuid) (req : SubmitEventRequest)
    (hreq : requests p = .submitEvent account req) (parent : Uuid)
    (hparent : req.parentEventId = some parent) (y : LedgerConfig)
    (hy : Reach (system schema) (ParentIsHead requests) (start state requests db₀) y) :
    ParentRespected db₀ p req parent y := by
  let x : Setting := ⟨state, requests, fun _ _ _ _ => true, ParentIsHead requests, db₀⟩
  have hx : x.Reach (start x.state x.requests x.db₀) y := hy
  obtain ⟨hr, hreplies⟩ := ledger_reach hx
  have htold : ∀ response, (y.procs p).1.result = some (.event (.ok response)) →
      LegacyReply x p account req y.shared.history response := by
    intro response hresult
    obtain ⟨account', req', hreq', hanswer⟩ := hreplies p _ hresult
    obtain ⟨rfl, rfl⟩ := Request.submitEvent.inj (hreq.symm.trans hreq')
    exact hanswer
  have hfailed : ∀ err, (y.procs p).1.result = some (.event (.error err)) →
      LegacyError p x err y.shared.history := by
    intro err hresult
    obtain ⟨account', req', hreq', hanswer⟩ := hreplies p _ hresult
    exact hanswer
  refine ⟨fun h₀ log e hp he hnew => ?_, hr.traceless fun _ h0 => absurd (hreq.symm.trans h0) (by simp),
    fun response hresult => ?_, fun eventId c head hresult => ?_, fun err hresult => ?_⟩
  · rw [tables_concat] at he
    obtain ⟨a, hadds, rfl⟩ := (hr.commits h₀ p log hp).events_new hreq he hnew
    obtain ⟨hnamed, hhead⟩ := hadds.parent hreq hparent
    exact ⟨hadds.chainId, hnamed, hhead⟩
  · obtain ⟨eventId, snapshot, after, sequence, events, tsa, rfl, g, -, -, hp, hlanded, -⟩ :=
      htold _ hresult
    obtain ⟨h₀, a, hadds, rfl, hmem⟩ := (hlanded.mono hp).added hr
    exact ⟨_, hmem, rfl, (hadds.parent hreq hparent).1⟩
  · obtain ⟨hnone, rfl, h', e, hp, ⟨he, hkey, g, hok, -, hsame⟩, rfl, rfl⟩ := htold _ hresult
    have hok : ParentIsHead requests p
      (.sql (.selectByIdempotencyKey req.chainId req.idempotencyKey)) g := hok
    exact ⟨rfl, hsame.symm.trans (hok rfl req (by rw [hreq]; rfl) parent hparent), hnone⟩
  · exact (hfailed _ hresult).imp (fun h => h) And.right

/-- Two events for one chain, the second with a parent. -/
def sampleParent (parent : Uuid) (p : Nat) : Request :=
  .submitEvent (Uuid.small 1)
    { sampleRequest (if p = 0 then "first" else "second") with
      parentEventId := if p = 0 then none else some parent }

theorem parent_extended_sampleRun :
    ∃ y : LedgerConfig, y.shared.db.events.length = 2 ∧
      ParentRespected (Db.empty sampleCapabilities []) 1
        { sampleRequest "second" with parentEventId := some (Uuid.small 20) } (Uuid.small 20) y := by
  have hrun : ((start sampleState (sampleParent (Uuid.small 20))
      (Db.empty sampleCapabilities [])).run (system schema)
        (ParentIsHead (sampleParent (Uuid.small 20)))
        (sampleSteps 0 15 20 none ++ sampleSteps 1 16 21 none)).map
          (fun y => y.shared.db.events.length) = some 2 := by decide +kernel
  obtain ⟨y, hy, hlen⟩ := Reach.exists_of_run hrun
  exact ⟨y, hlen, parent_extended sampleState (sampleParent (Uuid.small 20)) _ 1 (Uuid.small 1) _
    rfl (Uuid.small 20) rfl y hy⟩

/-- **A request that names another parent than the head commits its event**, on the head, and
succeeds. -/
theorem parent_ignored :
    ∃ y : LedgerConfig, Reach (system schema) (fun _ _ _ => True)
        (start sampleState (sampleParent (Uuid.small 77)) (Db.empty sampleCapabilities [])) y ∧
      Submitted 1 (Uuid.small 9) (Uuid.small 21) y.shared.history ∧
      y.shared.db.events.map (fun e => (e.eventId, e.parentEventId)) =
        [(Uuid.small 20, Uuid.nil), (Uuid.small 21, Uuid.small 20)] ∧
      (y.procs 1).1.result.map Reply.failed = some false := by
  have hrun : ((start sampleState (sampleParent (Uuid.small 77))
      (Db.empty sampleCapabilities [])).run (system schema) (fun _ _ _ => True)
        (sampleSteps 0 15 20 none ++ sampleSteps 1 22 21 none)).map (fun y =>
          (decide (Submitted 1 (Uuid.small 9) (Uuid.small 21) y.shared.history),
            y.shared.db.events.map (fun e => (e.eventId, e.parentEventId)),
            (y.procs 1).1.result.map Reply.failed)) =
          some (true, [(Uuid.small 20, Uuid.nil), (Uuid.small 21, Uuid.small 20)], some false) := by
    decide +kernel
  obtain ⟨y, hy, hfacts⟩ := Reach.exists_of_run hrun
  obtain ⟨hsubmitted, hfacts⟩ := Prod.mk.inj hfacts
  obtain ⟨hevents, hreply⟩ := Prod.mk.inj hfacts
  exact ⟨y, hy, of_decide_eq_true hsubmitted, hevents, hreply⟩

/-! ## Failures -/

/-- **All or nothing**: a submission that fails has left no trace in the tables, in every run where
the reads after the commit do not fail. -/
theorem submission_all_or_nothing (state : AppState) (requests : Nat → Request) (db₀ : Db)
    (y : LedgerConfig) (hy : Reach ((system schema).restrict (noLateFailure requests))
      (fun _ _ _ => True) (start state requests db₀) y)
    (p : Nat) (reply : Reply) (hreply : (y.procs p).1.result = some reply)
    (hfailed : reply.failed = true) :
    writesOf p y.shared.history = [] ∧
      y.shared.db = tables db₀ (without p y.shared.history) := by
  let x : Setting := ⟨state, requests, noLateFailure requests, fun _ _ _ => True, db₀⟩
  have hx : x.Reach (start x.state x.requests x.db₀) y := hy
  obtain ⟨hr, hreplies⟩ := ledger_reach hx
  have hnone : writesOf p y.shared.history = [] := by
    have hok := hreplies p reply hreply
    cases reply with
    | chain result => exact absurd hfailed (by simp [Reply.failed])
    | event result =>
      obtain ⟨account, req, hreq, hresult⟩ := hok
      cases result with
      | ok response => exact absurd hfailed (by simp [Reply.failed])
      | error err =>
        rcases hresult with hnone | ⟨⟨s, hs, ch, g, hadm, hfails, hne⟩, -⟩
        · exact hnone
        · have hadm : noLateFailure requests p ch (.sql s) g = true := hadm
          have hreq : requests p = .submitEvent account req := hreq
          simp only [noLateFailure, hreq, hfails, hs] at hadm
          exact absurd hadm (by simpa using hne)
    | v1 result =>
      obtain ⟨account, key, body, hreq, hresult⟩ := hok
      cases result with
      | ok response => exact absurd hfailed (by simp [Reply.failed])
      | error err => exact hresult
  exact ⟨hnone, hr.without hnone⟩

/-- A statement of a program that fails. -/
def sampleFailure (p : Nat) : List (Nat × Choice) := [(p, ⟨true, 0, Uuid.small 0, none, true⟩)]

/-- A statement fails before the commit. -/
theorem submission_all_or_nothing_sampleRun :
    ∃ (y : LedgerConfig) (reply : Reply), (y.procs 0).1.result = some reply ∧
      reply.failed = true ∧ writesOf 0 y.shared.history = [] ∧
      y.shared.db = tables (Db.empty sampleCapabilities []) (without 0 y.shared.history) := by
  have hrun : (sampleStart.run ((system schema).restrict (noLateFailure sampleRequests))
      (fun _ _ _ => True) (sampleSteps 0 5 20 none ++ sampleFailure 0 ++ sampleSteps 0 1 20 none)).map
        (fun y => (y.procs 0).1.result.map Reply.failed) = some (some true) := by decide +kernel
  obtain ⟨y, hy, hreply⟩ := Reach.exists_of_run hrun
  obtain ⟨reply, hreply, hfailed⟩ := Option.map_eq_some_iff.mp hreply
  exact ⟨y, reply, hreply, hfailed, submission_all_or_nothing sampleState sampleRequests _ y hy 0
    reply hreply hfailed⟩

/-- **The event stays where the read of the plan fails after the commit.** -/
theorem failed_submission_committed :
    ∃ (y : LedgerConfig) (reply : Reply),
      Reach (system schema) (fun _ _ _ => True) sampleStart y ∧
      (y.procs 0).1.result = some reply ∧ reply.failed = true ∧
      y.shared.db.events.map (·.eventId) = [Uuid.small 20] := by
  have hrun : (sampleStart.run (system schema) (fun _ _ _ => True)
      (sampleSteps 0 15 20 none ++ sampleFailure 0)).map (fun y =>
        ((y.procs 0).1.result.map Reply.failed, y.shared.db.events.map (·.eventId))) =
          some (some true, [Uuid.small 20]) := by decide +kernel
  obtain ⟨y, hy, hfacts⟩ := Reach.exists_of_run hrun
  obtain ⟨hreply, hevents⟩ := Prod.mk.inj hfacts
  obtain ⟨reply, hreply, hfailed⟩ := Option.map_eq_some_iff.mp hreply
  exact ⟨y, reply, hy, hreply, hfailed, hevents⟩

end EvidentLedger.Ledger
