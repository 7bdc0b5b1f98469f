import EvidentLedger.Lib.AppendLog
import EvidentLedger.Ledger.Ownership

/-!
# The ledger is a store of logs

What the tables say at any moment is what a machine says that takes one operation at a time
(`Lib.AppendLog`): a chain is a log of the contents that clients have submitted, and nothing else.

* `Content` is what is chosen of an event; `chainOf` computes the rows of a chain from the contents in
  it, with every sequence, parent and signature.
* `logOf` reads the logs off the tables, `opOf` the operation off a transaction that was committed.
* `Asked` says that an operation is what a request asks for, and `Told` what a reply says of the
  operations.

## Results

* `LedgerInv.eventsOf`: the rows of a chain are those that `chainOf` computes.
* `Commit.step`: a commit is an operation that is enabled, or leaves the logs as they are.
* `Recorded.recordTold`: a stored v1 response names the operation that it was stored with.
* **`ledger_refines`**: along any run the logs change by the operations of the requests, each taken at
  most once, in the order of the commits, and every reply tells of them.
-/

namespace EvidentLedger.Ledger

open Lib.Interleave Lib.Transaction Lib.AppendLog

/-! ## The rows of a chain -/

/-- What is chosen of an event, by the client and by the clock. -/
structure Content where
  eventId : Uuid
  fileHash : String
  idempotencyKey : String
  createdAt : Int
  identityKeyId : Option Uuid
  identitySignature : Option String
  identityFingerprint : Option String
  deriving DecidableEq

def EventRecord.content (e : EventRecord) : Content :=
  ⟨e.eventId, e.fileHash, e.idempotencyKey, e.createdAt, e.identityKeyId, e.identitySignature,
    e.identityFingerprint⟩

/-- The event after these, with this signature. -/
def Content.follow (x : Content) (c : Uuid) (before : List EventRecord) (signature : String) :
    EventRecord where
  eventId := x.eventId
  chainId := c
  parentEventId := (headId before).getD Uuid.nil
  fileHash := x.fileHash
  idempotencyKey := x.idempotencyKey
  signature := signature
  createdAt := x.createdAt
  sequence := Int64.ofInt (before.length + 1)
  identityKeyId := x.identityKeyId
  identitySignature := x.identitySignature
  identityFingerprint := x.identityFingerprint

variable (state : AppState)

/-- A chain grows by a content: the row is linked and signed. -/
def extend (c : Uuid) (before : List EventRecord) (x : Content) : List EventRecord :=
  before ++ [x.follow c before (signatureOf state c x.eventId (before ++ [x.follow c before ""]))]

/-- **The rows of a chain of these contents.** -/
def chainOf (c : Uuid) (contents : List Content) : List EventRecord :=
  contents.foldl (extend state c) []

section Rows

variable {state} {c : Uuid} {before events : List EventRecord} {e : EventRecord} {db : Db}

/-- A linked event is the one that follows. -/
theorem follow_content (hl : Linked none (rows (before ++ [e]))) (hc : e.chainId = c) :
    e.content.follow c before e.signature = e := by
  have hseq := toInt_sequence hl before.length (by simp)
  rw [List.getElem_concat_length rfl] at hseq
  rw [rows_append, rows, rows, List.map_singleton, linked_append_singleton] at hl
  obtain ⟨-, -, hparent⟩ := hl
  have hparent' : e.parentEventId = (headId before).getD Uuid.nil :=
    hparent.trans (lastEventId_rows before)
  obtain ⟨eventId, chainId, parentEventId, fileHash, idempotencyKey, signature, createdAt, sequence,
    identityKeyId, identitySignature, identityFingerprint⟩ := e
  obtain rfl : chainId = c := hc
  obtain rfl : parentEventId = (headId before).getD Uuid.nil := hparent'
  have hs : Int64.ofInt (before.length + 1) = sequence := by
    rw [← hseq]
    exact Int64.ofInt_toInt sequence
  rw [← hs]
  rfl

theorem chainOf_concat (contents : List Content) (x : Content) :
    chainOf state c (contents ++ [x]) = extend state c (chainOf state c contents) x := by
  rw [chainOf, List.foldl_append]
  rfl

/-- **Linked and signed rows are computed from their contents.** -/
theorem ChainOk.eq_chainOf (hc : ∀ e ∈ events, e.chainId = c) (h : ChainOk state c events) :
    events = chainOf state c (events.map EventRecord.content) := by
  induction events using List.reverseRecOn with
  | nil => rfl
  | append_singleton before e ih =>
    have hl := h.linked
    have hsig := h.signed before e (List.prefix_refl _)
    have hrest : before = chainOf state c (before.map EventRecord.content) := by
      refine ih (fun e' he' => hc e' (List.mem_append_left _ he')) ⟨?_, fun b e' hp => ?_⟩
      · rw [rows_append] at hl
        exact (linked_append.mp hl).1
      · exact h.signed b e' (hp.trans (List.prefix_append _ _))
    have hrow : rows (before ++ [e.content.follow c before ""]) = rows (before ++ [e]) := by
      conv_rhs => rw [← follow_content hl (hc e (by simp))]
      rw [rows_append, rows_append]
      rfl
    rw [List.map_append, List.map_singleton, chainOf_concat, ← hrest, extend]
    refine congrArg (fun x => before ++ [x]) ?_
    have hsig' : e.signature =
        signatureOf state c e.content.eventId (before ++ [e.content.follow c before ""]) := by
      rw [hsig, signatureOf, signatureOf, hrow]
      rfl
    rw [← hsig']
    exact (follow_content hl (hc e (by simp))).symm

theorem chainId_of_mem (he : e ∈ db.eventsOf c) : e.chainId = c := by
  have h := (List.mem_filter.mp he).2
  simpa using h

/-- **The rows of a chain are a function of its contents.** -/
theorem LedgerInv.eventsOf (hi : LedgerInv state db) (c : Uuid) :
    db.eventsOf c = chainOf state c ((db.eventsOf c).map EventRecord.content) :=
  (hi.chains c).eq_chainOf fun _ he => chainId_of_mem he

end Rows

/-! ## The logs of the tables -/

abbrev Logs : Type := Store Uuid Uuid Content

abbrev LedgerOp : Type := Op Uuid Uuid Content

/-- Event ids are unique in the table, idempotency keys in their chain. -/
def names : Names Content Uuid String := ⟨Content.eventId, Content.idempotencyKey⟩

/-- The log of a chain. -/
def logOf (db : Db) : Logs := fun c =>
  (db.chain? c).map fun row => ⟨row.accountId, (db.eventsOf c).map EventRecord.content⟩

def Write.inserted? : Write → Option EventRecord
  | .insertEvent e => some e
  | _ => none

def Write.payer? : Write → Option Uuid
  | .bumpUsage account _ => some account
  | _ => none

def Write.created? : Write → Option LedgerOp
  | .insertChain ⟨c, _, some account⟩ => some (.create c account)
  | _ => none

/-- **The operation of a transaction**: its event, for the account that pays for it, or its chain. -/
def opOf (log : List Write) : Option LedgerOp :=
  match log.findSome? Write.inserted?, log.findSome? Write.payer? with
  | some e, some account => some (.append e.chainId account e.content)
  | _, _ => log.findSome? Write.created?

/-- The operations of a history, each with the number of its request. -/
def opsOf (h : History schema) : List (Nat × LedgerOp) :=
  h.filterMap fun entry => (opOf entry.2).map fun op => (entry.1, op)

theorem opsOf_append (h h' : History schema) : opsOf (h ++ h') = opsOf h ++ opsOf h' :=
  List.filterMap_append

theorem opsOf_concat (h : History schema) (p : Nat) (log : List Write) :
    opsOf (h ++ [(p, log)]) = opsOf h ++ ((opOf log).map fun op => (p, op)).toList := by
  rw [opsOf_append]
  refine congrArg (opsOf h ++ ·) ?_
  cases hop : opOf log <;> simp [opsOf, hop]

section Steps

variable {state} {requests : Nat → Request} {ok : Nat → Call schema → Shared schema → Prop}
  {db₀ db : Db} {h h' : History schema} {p : Nat} {log : List Write} {c : Uuid} {a : Addition}
  {after : List Write}

theorem logOf_owner (db : Db) (c : Uuid) : (logOf db).owner c = db.owner? c := by
  rw [Store.owner, logOf, Db.owner?]
  cases db.chain? c <;> rfl

/-- A chain that is not there has no events. -/
theorem logOf_entries (hi : LedgerInv state db) (c : Uuid) :
    (logOf db).entries c = (db.eventsOf c).map EventRecord.content := by
  rw [Store.entries, logOf]
  cases hc : db.chain? c with
  | some row => rfl
  | none =>
    have hhead : headId (db.eventsOf c) = none := by rw [← hi.heads c, Db.head?, hc]; rfl
    rw [headId, Option.map_eq_none_iff, List.getLast?_eq_none_iff] at hhead
    rw [hhead]
    rfl

/-- What comes before the insertion is neither an event nor its payment. -/
theorem quiet_prepared (ha : a.Valid db) : a.prepared.findSome? Write.inserted? = none ∧
    a.prepared.findSome? Write.payer? = none := by
  have haccess : ∀ {row? log}, Access row? a.account a.event.chainId log →
      ∀ w ∈ log, w.inserted? = none ∧ w.payer? = none := by
    intro row? log h
    cases h <;> simp [Write.inserted?, Write.payer?]
  have hmeter : ∀ {row? commits stamps log}, Meter row? a.account a.month commits stamps log →
      ∀ w ∈ log, w.inserted? = none ∧ w.payer? = none := by
    intro row? commits stamps log h
    cases h <;> simp [Write.inserted?, Write.payer?]
  have hnone : ∀ w ∈ a.prepared, w.inserted? = none ∧ w.payer? = none := by
    intro w hw
    rcases List.mem_append.mp hw with hw | hw
    · exact haccess ha.access w hw
    · exact hmeter ha.meter w hw
  exact ⟨List.findSome?_eq_none_iff.mpr fun w hw => (hnone w hw).1,
    List.findSome?_eq_none_iff.mpr fun w hw => (hnone w hw).2⟩

/-- The operation of an event. -/
theorem opOf_log (ha : a.Valid db) :
    opOf (a.log state db ++ after) =
      some (.append a.event.chainId a.account a.event.content) := by
  obtain ⟨hins, hpay⟩ := quiet_prepared ha
  have hevent : (a.log state db ++ after).findSome? Write.inserted? = some a.event := by
    rw [Addition.log, Addition.unsigned]
    simp only [List.append_assoc, List.findSome?_append, hins, Option.none_or]
    rfl
  have hpayer : (a.log state db ++ after).findSome? Write.payer? = some a.account := by
    rw [Addition.log, Addition.unsigned]
    simp only [List.append_assoc, List.findSome?_append, hpay, Option.none_or]
    rfl
  rw [opOf, hevent, hpayer]

/-- **An event is appended** to the log of its chain. -/
theorem step_event (hi : LedgerInv state db) (ha : a.Valid db) (hafter : RecordOnly db after) :
    Op.Enabled names (logOf db) (.append a.event.chainId a.account a.event.content) ∧
      logOf (replay (S := schema) (a.log state db ++ after) db) =
        Op.apply (logOf db) (.append a.event.chainId a.account a.event.content) := by
  refine ⟨⟨fun o ho => ?_, fun c x hx => ?_, fun x hx => ?_⟩, ?_⟩
  · rw [logOf_owner] at ho
    exact ha.access.owner ho
  · rw [logOf_entries hi] at hx
    obtain ⟨e, he, rfl⟩ := List.mem_map.mp hx
    have hne := List.any_eq_false.mp ha.newId e (List.mem_filter.mp he).1
    simpa [names, EventRecord.content] using hne
  · rw [logOf_entries hi] at hx
    obtain ⟨e, he, rfl⟩ := List.mem_map.mp hx
    exact ha.newKey e he
  · funext c
    by_cases hc : c = a.event.chainId
    · subst hc
      rw [Op.apply, Function.update_self, logOf_entries hi, logOf, ha.chain?_all hafter, if_pos rfl,
        ha.eventsOf_all hafter, if_pos rfl, List.map_append]
      rfl
    · rw [Op.apply, Function.update_of_ne hc, logOf, ha.chain?_all hafter, if_neg hc,
        ha.eventsOf_all hafter, if_neg hc, List.append_nil, logOf]

/-- **A commit is an operation that is enabled**, or leaves the logs as they are. -/
theorem Commit.step (hi : LedgerInv state (tables db₀ h))
    (hc : Commit state requests ok db₀ h p log) :
    match opOf log with
    | none => logOf (tables db₀ (h ++ [(p, log)])) = logOf (tables db₀ h)
    | some op => op.Enabled names (logOf (tables db₀ h)) ∧
        logOf (tables db₀ (h ++ [(p, log)])) = op.apply (logOf (tables db₀ h)) := by
  rw [tables_concat]
  have hkind := hc.kind
  cases hkind with
  | event hadds hafter =>
    rw [opOf_log hadds.valid]
    exact step_event hi hadds.valid hafter
  | token => rfl
  | @chain account d hnew =>
    have hfree : logOf (tables db₀ h) d = none := by
      rw [logOf, hnew]
      rfl
    refine ⟨hfree, ?_⟩
    funext c
    have hrow : Db.chain? (replay (S := schema) [.insertChain ⟨d, none, some account⟩]
        (tables db₀ h)) c = ((tables db₀ h).chain? c).or
          (if d == c then some ⟨d, none, some account⟩ else none) := chain?_insertChain _ _ _
    change (Db.chain? _ c).map (fun row => (⟨row.accountId, ((tables db₀ h).eventsOf c).map
      EventRecord.content⟩ : Log Uuid Content)) = Op.apply (logOf (tables db₀ h)) (.create d account) c
    rw [hrow]
    by_cases hcd : c = d
    · subst hcd
      have hnone : (logOf (tables db₀ h)).entries c = [] := by
        rw [Store.entries, hfree]
        rfl
      rw [logOf_entries hi] at hnone
      rw [hnew, hnone, Op.apply, Function.update_self]
      simp
    · rw [Op.apply, Function.update_of_ne hcd, if_neg (by simpa using Ne.symm hcd), Option.or_none]
      rfl

/-- **The logs along a history.** -/
theorem Recorded.run (hi : LedgerInv state db₀) (later : History schema)
    (hr : Recorded state requests ok db₀ db (h ++ later)) :
    Run names (logOf (tables db₀ h)) ((opsOf later).map Prod.snd)
      (logOf (tables db₀ (h ++ later))) := by
  induction later using List.reverseRecOn generalizing db with
  | nil =>
    rw [List.append_nil]
    exact .nil
  | append_singleton later entry ih =>
    obtain ⟨q, log⟩ := entry
    rw [← List.append_assoc] at hr ⊢
    have hbefore := hr.of_prefix (List.prefix_append (h ++ later) [(q, log)])
    have hstep := (hr.commits _ q log (List.prefix_refl _)).step (hbefore.ledgerInv hi)
    have hrun := ih hbefore
    rw [opsOf_concat]
    cases hop : opOf log with
    | none =>
      rw [hop] at hstep
      rw [hstep]
      simpa using hrun
    | some op =>
      rw [hop] at hstep
      obtain ⟨henabled, happly⟩ := hstep
      rw [happly]
      simpa using hrun.snoc henabled

end Steps

/-! ## Requests and replies -/

/-- **What a request asks for.** The ids and times that it leaves open are the server's. -/
inductive Asked : Request → LedgerOp → Prop
  | chain {account c : Uuid} : Asked (.createChain account) (.create c account)
  | legacy {account : Uuid} {req : SubmitEventRequest} {x : Content}
      (hid : ∀ id, req.eventId = some id → x.eventId = id) (hhash : x.fileHash = req.fileHash)
      (hkey : x.idempotencyKey = req.idempotencyKey) :
      Asked (.submitEvent account req) (.append req.chainId account x)
  | v1 {account : Uuid} {key : String} {body : V1SubmitEventRequest} {x : Content}
      (hid : ∀ id, body.eventId = some id → x.eventId = id)
      (hhash : x.fileHash = normalizedFileHash body.fileHash) (hkey : x.idempotencyKey = key) :
      Asked (.submitV1Event account key body) (.append body.chainId account x)

/-- Request `p` has taken no operation. -/
def Unrecorded (p : Nat) (ops : List (Nat × LedgerOp)) : Prop := ∀ op, (p, op) ∉ ops

/-- A v1 response names the operation that was recorded under its key: the request's own, or another's;
or it was stored before the run. -/
def Answers (db₀ : Db) (p : Nat) (account : Uuid) (key : String) (ops : List (Nat × LedgerOp))
    (response : V1Response) : Prop :=
  (∃ q, ∃ x : Content, x.eventId = response.eventId ∧ x.idempotencyKey = key ∧
      (q, .append response.chainId account x) ∈ ops ∧ (q = p ∨ Unrecorded p ops)) ∨
    Unrecorded p ops ∧ ∃ r ∈ db₀.idempotencyRecords, r.key = (account, key) ∧ r.responseJson = response

/-- **What a reply tells** of the operations: the chain or the event of the request, an event that was
there with its key, or none; a legacy request may fail with a database error after its event. -/
def Told (db₀ : Db) (p : Nat) (ops : List (Nat × LedgerOp)) (db : Db) : Request → Reply → Prop
  | .createChain account, .chain (.ok c) => (p, .create c account) ∈ ops
  | .createChain _, .chain (.error _) => Unrecorded p ops
  | .submitEvent account _, .event (.ok (.committed response)) => ∃ x : Content,
      x.eventId = response.eventId ∧ (p, .append response.chainId account x) ∈ ops
  | .submitEvent _ req, .event (.ok (.cached eventId c _)) => c = req.chainId ∧ Unrecorded p ops ∧
      ∃ x ∈ (logOf db).entries c, x.eventId = eventId ∧ x.idempotencyKey = req.idempotencyKey
  | .submitEvent account req, .event (.error err) => Unrecorded p ops ∨
      err = .databaseError .io ∧ ∃ x, (p, .append req.chainId account x) ∈ ops
  | .submitV1Event account key _, .v1 (.ok response) => Answers db₀ p account key ops response
  | .submitV1Event _ _ _, .v1 (.error _) => Unrecorded p ops
  | _, _ => False

section Replies

variable {state} {requests : Nat → Request} {ok : Nat → Call schema → Shared schema → Prop}
  {db₀ db : Db} {h h' : History schema} {p : Nat} {log : List Write}

theorem mem_opsOf {op : LedgerOp} (hp : h ++ [(p, log)] <+: h') (hop : opOf log = some op) :
    (p, op) ∈ opsOf h' := by
  obtain ⟨rest, rfl⟩ := hp
  rw [opsOf_append, opsOf_concat, hop]
  simp

/-- Whoever has written nothing has taken no operation. -/
theorem unrecorded_of_writes (hnone : writesOf p h = []) : Unrecorded p (opsOf h) := by
  intro op hmem
  obtain ⟨⟨q, log⟩, hentry, hop⟩ := List.mem_filterMap.mp hmem
  obtain ⟨op', hlog, heq⟩ := Option.map_eq_some_iff.mp hop
  obtain ⟨rfl, rfl⟩ := Prod.mk.inj heq
  obtain ⟨before, after, rfl⟩ := List.append_of_mem hentry
  rw [writesOf_append, ← List.singleton_append, writesOf_append, writesOf_singleton, if_pos rfl,
    List.append_eq_nil_iff, List.append_eq_nil_iff] at hnone
  obtain ⟨-, rfl, -⟩ := hnone
  exact absurd hlog (by simp [opOf])

/-- A commit takes what its request asks for, for the first time. -/
theorem Commit.asked (hc : Commit state requests ok db₀ h p log) {op : LedgerOp}
    (hop : opOf log = some op) : writesOf p h = [] ∧ Asked (requests p) op := by
  cases hc with
  | token => exact absurd hop (by simp [opOf, Write.inserted?, Write.created?])
  | @chain account c hreq hfirst hnew =>
    obtain rfl : .create c account = op := Option.some.inj hop
    rw [hreq]
    exact ⟨hfirst, .chain⟩
  | @legacy account req a hreq hfirst hadds =>
    rw [← List.append_nil (Addition.log _ _ _), opOf_log hadds.valid] at hop
    obtain rfl := Option.some.inj hop
    have hid := hadds.eventId
    obtain ⟨eventId, parentEventId, sequence, createdAt, hrow⟩ := hadds.row
    rw [hadds.owner, hreq]
    rw [hrow] at hid ⊢
    exact ⟨hfirst, .legacy hid rfl rfl⟩
  | @v1 account key body req a r hreq hfirst hbody hadds =>
    rw [opOf_log hadds.valid] at hop
    obtain rfl := Option.some.inj hop
    have hid := hadds.eventId
    obtain ⟨eventId, parentEventId, sequence, createdAt, hrow⟩ := hadds.row
    rw [hadds.owner, hreq]
    rw [hrow] at hid ⊢
    refine ⟨hfirst, ?_⟩
    change Asked _ (.append req.chainId _ _)
    rw [hbody.chainId]
    exact .v1 (fun id h => hid id (hbody.eventId id h)) hbody.fileHash hbody.idempotencyKey

theorem Recorded.asked (hr : Recorded state requests ok db₀ db h) :
    ((opsOf h).map Prod.fst).Nodup ∧ ∀ p op, (p, op) ∈ opsOf h → Asked (requests p) op := by
  refine hr.induction (motive := fun h => ((opsOf h).map Prod.fst).Nodup ∧
    ∀ p op, (p, op) ∈ opsOf h → Asked (requests p) op)
    ⟨List.nodup_nil, fun p op hmem => absurd hmem List.not_mem_nil⟩ ?_
  intro h p log _ hc ⟨hnodup, hasked⟩
  rw [opsOf_concat]
  cases hop : opOf log with
  | none => simpa using ⟨hnodup, hasked⟩
  | some op =>
    obtain ⟨hfirst, hnew⟩ := hc.asked hop
    refine ⟨?_, fun q op' hmem => ?_⟩
    · rw [List.map_append, List.nodup_append]
      refine ⟨hnodup, List.nodup_singleton _, ?_⟩
      rintro q hq q' hq' rfl
      obtain ⟨⟨q, op'⟩, hmem, rfl⟩ := List.mem_map.mp hq
      obtain rfl : q = p := by simpa using hq'
      exact unrecorded_of_writes hfirst op' hmem
    · rcases List.mem_append.mp hmem with hmem | hmem
      · exact hasked q op' hmem
      · obtain ⟨rfl, rfl⟩ : q = p ∧ op' = op := by simpa using hmem
        exact hnew

/-- The operation of an event that has landed. -/
theorem Landed.op {account eventId : Uuid} {req : SubmitEventRequest} {snapshot : ProofSnapshot}
    {after : List Write} (hl : Landed state ok db₀ p account req eventId snapshot after h) :
    ∃ x : Content, x.eventId = eventId ∧ x.idempotencyKey = req.idempotencyKey ∧
      (p, .append req.chainId account x) ∈ opsOf h := by
  obtain ⟨h₀, a, hp, -, hadds, -, hid, -⟩ := hl
  refine ⟨a.event.content, hid, ?_, ?_⟩
  · obtain ⟨_, _, _, _, hrow⟩ := hadds.row
    rw [hrow]
    rfl
  · have hmem := mem_opsOf hp (opOf_log hadds.valid)
    rwa [hadds.chainId, hadds.owner] at hmem

/-- **A record tells of the operation that it was stored with**, or was there at the start. -/
theorem Recorded.recordTold (hr : Recorded state requests ok db₀ db h) {r : IdempotencyRecord}
    (hmem : r ∈ db.idempotencyRecords) : r ∈ db₀.idempotencyRecords ∨ ∃ q, ∃ x : Content,
      x.eventId = r.responseJson.eventId ∧ x.idempotencyKey = r.idempotencyKey ∧
        (q, .append r.responseJson.chainId r.accountId x) ∈ opsOf h := by
  rw [hr.replayed] at hmem
  refine hr.induction (motive := fun h => r ∈ (tables db₀ h).idempotencyRecords →
    r ∈ db₀.idempotencyRecords ∨ ∃ q, ∃ x : Content, x.eventId = r.responseJson.eventId ∧
      x.idempotencyKey = r.idempotencyKey ∧
        (q, .append r.responseJson.chainId r.accountId x) ∈ opsOf h) Or.inl ?_ hmem
  intro h q log _ hc ih hmem
  have hpast : r ∈ (tables db₀ h).idempotencyRecords → r ∈ db₀.idempotencyRecords ∨
      ∃ q', ∃ x : Content, x.eventId = r.responseJson.eventId ∧ x.idempotencyKey = r.idempotencyKey ∧
        (q', .append r.responseJson.chainId r.accountId x) ∈ opsOf (h ++ [(q, log)]) := by
    refine fun hmem => (ih hmem).imp (fun h0 => h0) ?_
    rintro ⟨q', x, hid, hkey, hop⟩
    exact ⟨q', x, hid, hkey, by rw [opsOf_append]; exact List.mem_append_left _ hop⟩
  rw [tables_concat, records_replay] at hmem
  rcases List.mem_append.mp hmem with hmem | hmem
  · exact hpast hmem
  cases hc with
  | chain => exact absurd hmem (by simp [effects, Write.effect?, Effect.record?])
  | token => exact absurd hmem (by simp [effects, Write.effect?, Effect.record?])
  | legacy _ _ hadds =>
    rw [hadds.valid.effects_log] at hmem
    exact absurd hmem (by simp [Effect.record?])
  | @v1 account key body req a r' _ _ hbody hadds hrecord _ hresponse =>
    rw [effects_append, hadds.valid.effects_log] at hmem
    obtain rfl : r' = r := by simpa [effects, Write.effect?, Effect.record?] using hmem
    refine Or.inr ⟨q, a.event.content, hresponse.symm, ?_, ?_⟩
    · obtain ⟨_, _, _, _, hrow⟩ := hadds.row
      rw [hrow, hrecord.idempotencyKey]
      exact hbody.idempotencyKey
    · have hop := mem_opsOf (List.prefix_refl (h ++ [(q, a.log state (tables db₀ h) ++
        [.insertRecord r'])])) (opOf_log hadds.valid)
      rwa [hadds.chainId, hbody.chainId, ← hrecord.chainId, hadds.owner, ← hrecord.accountId] at hop

/-- What a request has recorded is an event in its chain, if it is a legacy one. -/
theorem Recorded.appended (hr : Recorded state requests ok db₀ db h) {account : Uuid}
    {req : SubmitEventRequest} (hreq : requests p = .submitEvent account req)
    (hrecorded : ¬ Unrecorded p (opsOf h)) : ∃ x, (p, .append req.chainId account x) ∈ opsOf h := by
  obtain ⟨op, hop⟩ := not_forall_not.mp hrecorded
  have hasked := hr.asked.2 p op hop
  rw [hreq] at hasked
  cases hasked with
  | @legacy _ _ x => exact ⟨x, hop⟩

/-- **Every reply tells of the operations.** -/
theorem ReplyOk.told {x : Setting} (hi : LedgerInv x.state x.db₀) (hr : x.Inv db h) {reply : Reply}
    (hok : ReplyOk x p h reply) : Told x.db₀ p (opsOf h) db (x.requests p) reply := by
  cases reply with
  | chain result =>
    obtain ⟨account, hreq, hresult⟩ := hok
    rw [hreq]
    cases result with
    | ok c =>
      obtain ⟨h₀, hp⟩ := hresult
      exact mem_opsOf hp rfl
    | error err => exact unrecorded_of_writes hresult
  | event result =>
    obtain ⟨account, req, hreq, hresult⟩ := hok
    rw [hreq]
    cases result with
    | error err =>
      by_cases hrecorded : Unrecorded p (opsOf h)
      · exact Or.inl hrecorded
      · rcases hresult with hnone | ⟨-, hio⟩
        · exact Or.inl (unrecorded_of_writes hnone)
        · exact Or.inr ⟨hio, hr.appended hreq hrecorded⟩
    | ok response =>
      cases response with
      | committed response =>
        obtain ⟨eventId, snapshot, after, sequence, events, tsa, rfl, g, -, -, hg, hlanded, -⟩ :=
          hresult
        obtain ⟨x, hid, -, hmem⟩ := (hlanded.mono hg).op
        exact ⟨x, hid, hmem⟩
      | cached eventId c head =>
        obtain ⟨hfresh, rfl, h', e, hp, ⟨hmem, hkey, -⟩, hid, -⟩ := hresult
        refine ⟨rfl, unrecorded_of_writes hfresh, e.content, ?_, hid, hkey⟩
        rw [logOf_entries (hr.ledgerInv hi)]
        refine List.mem_map_of_mem ?_
        exact ((hr.events hp).filter (·.chainId == req.chainId)).subset hmem
  | v1 result =>
    obtain ⟨account, key, body, hreq, hresult⟩ := hok
    rw [hreq]
    cases result with
    | error err => exact unrecorded_of_writes hresult
    | ok response =>
      rcases hresult with ⟨hfresh, h', r, hp, hrecord, rfl⟩ |
        ⟨req, r, eventId, snapshot, hbody, hrecord, rfl, rfl, hlanded⟩
      · have hfound := List.find?_some hrecord
        simp only [Bool.and_eq_true, beq_iff_eq] at hfound
        obtain ⟨rfl, rfl⟩ := hfound
        rcases (hr.of_prefix hp).recordTold (List.mem_of_find?_eq_some hrecord) with
          hstart | ⟨q, x, hid, hkey, hop⟩
        · exact Or.inr ⟨unrecorded_of_writes hfresh, r, hstart, rfl, rfl⟩
        · obtain ⟨rest, rfl⟩ := hp
          refine Or.inl ⟨q, x, hid, hkey, ?_, Or.inr (unrecorded_of_writes hfresh)⟩
          rw [opsOf_append]
          exact List.mem_append_left _ hop
      · obtain ⟨x, hid, hkey, hop⟩ := hlanded.op
        refine Or.inl ⟨p, x, hid, hkey.trans hbody.idempotencyKey, ?_, Or.inl rfl⟩
        rw [hrecord.chainId, ← hbody.chainId]
        exact hop

end Replies

/-! ## The refinement -/

/-- **What a run does to the logs**, between two moments `y` and `z`. -/
structure Refines (state : AppState) (requests : Nat → Request) (db₀ : Db) (y z : LedgerConfig) :
    Prop where
  start : Run names (logOf db₀) ((opsOf y.shared.history).map Prod.snd) (logOf y.shared.db)
  later : ∃ later, opsOf z.shared.history = opsOf y.shared.history ++ later ∧
    Run names (logOf y.shared.db) (later.map Prod.snd) (logOf z.shared.db) ∧
    ∀ c, (logOf z.shared.db).entries c =
      (logOf y.shared.db).entries c ++ (later.map Prod.snd).filterMap (Op.entry? c) ∧
      ∀ account, y.shared.db.owner? c = some account → z.shared.db.owner? c = some account ∧
        ∀ p account' x, (p, .append c account' x) ∈ later → account' = account
  rows : ∀ c, z.shared.db.eventsOf c = chainOf state c ((logOf z.shared.db).entries c)
  once : ((opsOf z.shared.history).map Prod.fst).Nodup
  asked : ∀ p op, (p, op) ∈ opsOf z.shared.history → Asked (requests p) op
  told : ∀ p reply, (z.procs p).1.result = some reply →
    Told db₀ p (opsOf z.shared.history) z.shared.db (requests p) reply

/-- **The ledger refines the store of logs**, from any tables that satisfy the invariant. -/
theorem ledger_refines (state : AppState) (requests : Nat → Request) (db₀ : Db)
    (hi : LedgerInv state db₀) (y z : LedgerConfig)
    (hy : Reach (system schema) (fun _ _ _ => True) (Ledger.start state requests db₀) y)
    (hz : Reach (system schema) (fun _ _ _ => True) y z) : Refines state requests db₀ y z := by
  have hx : (Setting.all state requests db₀).Reach (Ledger.start state requests db₀) y := hy
  obtain ⟨hinv, -⟩ := ledger_reach hx
  obtain ⟨hinv', hreplies⟩ := ledger_reach (hx.trans hz)
  obtain ⟨later, hlater⟩ := ledger_history hx hz
  have hrec := hinv'
  rw [← hlater] at hrec
  have hrun : Run names (logOf y.shared.db) ((opsOf later).map Prod.snd) (logOf z.shared.db) := by
    rw [hinv.replayed, hrec.replayed]
    exact hrec.run hi later
  refine ⟨?_, ⟨opsOf later, ?_, hrun, fun c => ⟨hrun.entries c, fun account howner => ?_⟩⟩,
    fun c => ?_, hinv'.asked.1, hinv'.asked.2, fun p reply hr => ?_⟩
  · have hstart := Recorded.run (h := []) hi y.shared.history hinv
    rw [hinv.replayed]
    exact hstart
  · rw [← hlater, opsOf_append]
  · rw [← logOf_owner] at howner ⊢
    obtain ⟨hkept, hall⟩ := hrun.owner howner
    exact ⟨hkept, fun p account' x hmem => hall account' x (List.mem_map_of_mem (f := Prod.snd) hmem)⟩
  · have hi' := hinv'.ledgerInv hi
    rw [logOf_entries hi']
    exact hi'.eventsOf c
  · exact (hreplies p reply hr).told hi hinv'

/-- One event, and the operation that it is. -/
theorem ledger_refines_sampleRun : ∃ z : LedgerConfig,
    (opsOf z.shared.history).map Prod.fst = [0] ∧
      Refines sampleState sampleRequests (Db.empty sampleCapabilities []) sampleStart z := by
  have hrun : (sampleStart.run (system schema) (fun _ _ _ => True) (sampleSteps 0 15 20 none)).map
      (fun z => (opsOf z.shared.history).map Prod.fst) = some [0] := by decide +kernel
  obtain ⟨z, hz, hops⟩ := Reach.exists_of_run hrun
  exact ⟨z, hops, ledger_refines sampleState sampleRequests _ (ledgerInv_empty _ _) sampleStart z
    .refl hz⟩

end EvidentLedger.Ledger
