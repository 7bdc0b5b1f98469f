import EvidentLedger.Paddle.Statement
import EvidentLedger.Merkle

/-!
# Payment events and the operations around them

The programs of `src/paddle/processor.rs`, `src/paddle/linking.rs`, `ensure_paddle_customer`
(`src/service/billing.rs:78-105, 171-235`) and `apply_lazy_billing_transitions`, statement by statement;
and one of an operator who prices a plan.

* `insert_received` is followed by the same code for a linked and for an unlinked event
  (`storeReceived`), and so is `mark_processing` for a new and for a stored row (`applyClaimed`,
  `waitClaimed`).
* `?` inside a transaction drops it (`orRollback`); `.ok()` ignores an error (`ignore`).
* A request whose signature or JSON is refused runs no statement. `State.parse` stands for `serde_json`.
-/

namespace EvidentLedger.Paddle

open Lib.Interleave Lib.Transaction Lib.Text

/-! ## Outcomes -/

inductive WebhookOutcome where
  | processed
  | idempotent
  | waitingForAccountLink
  | ignored
  deriving DecidableEq

inductive WebhookError where
  | payloadHashConflict
  | invalidStatusTransition
  | planNotFound
  | missingField (field : String)
  /-- An error of the driver, or a text of the processor. -/
  | database (e : DbError ⊕ String)
  deriving DecidableEq

inductive LinkCustomerError where
  | customerAlreadyLinkedToOtherAccount
  | accountAlreadyLinkedToOtherCustomer
  | database
  deriving DecidableEq

/-- The errors of `ensure_paddle_customer`. -/
inductive BillingError where
  | customerCreationFailed
  | accountNotFound
  | paddleUnavailable
  | internal
  deriving DecidableEq

/-! ## Programs -/

/-- A program of billing. -/
abbrev Action := Prog (Call.Answer (S := schema))

/-- One that may end early with an error. -/
abbrev Process := Program schema WebhookError

def databaseError (e : DbError) : WebhookError := .database (.inl e)

def statement (s : Sql) : Action (Except DbError s.Res) :=
  Prog.call (Call.sql (S := schema) s)

def query (s : Sql) : Process s.Res := sql (S := schema) databaseError s

/-- `.ok()`: the answer or the error is dropped. -/
def ignore {ε : Type} (q : Call schema) : Program schema ε Unit := do
  let _ ← (ExceptT.lift (Prog.call q) : Program schema ε q.Answer)
  pure ()

/-- `ok_or(WebhookError::MissingField(…))`. -/
def field {α : Type} (value : Option α) (name : String) : Process α :=
  match value with
  | some a => pure a
  | none => throw (.missingField name)

/-- `is_unique_violation`. The only other constraints of the insert are foreign keys. -/
def isUniqueViolation : DbError → Bool
  | .database (some constraint) =>
    constraint == "paddle_webhook_events_pkey" ||
      constraint == "paddle_webhook_events_paddle_event_id_key"
  | _ => false

def findByPaddleEventId (paddleEventId : String) : Process (Option WebhookEventRow) :=
  query (.selectWebhook paddleEventId)

def resolveAccountByPaddleCustomer (paddleCustomerId : String) : Process (Option Account) :=
  query (.selectAccountByCustomer paddleCustomerId)

/-! ## `webhook_store.rs` -/

def markProcessing (id : Uuid) : Process Bool := query (.markProcessing id)

def markProcessed (id : Uuid) : Process Unit := query (.finish id .processed)

/-- With `.ok()`, as its only caller has it. -/
def markFailed (id : Uuid) : Process Unit := ignore (Call.sql (Sql.finish id .failed))

def markWaitingForAccountLink (id : Uuid) : Process Unit := query (.finish id .waitingForAccountLink)

def insertPendingLink (paddleCustomerId paddleEmail : String) : Process Unit :=
  query (.insertPendingLink paddleCustomerId paddleEmail)

def lastProcessedOccurredAt (accountId : Uuid) : Process (Option Int) :=
  query (.selectLastProcessed accountId)

/-- `insert_received`, and `insert_received_unlinked` without an account. -/
def insertReceived (event : PaddleWebhookEvent) (hash : String) (accountId : Option Uuid) :
    Action (Except DbError Uuid) :=
  statement (.insertReceived event.eventId hash accountId event.occurredAt)

/-! ## Applying an event -/

def shouldSkipOutOfOrder (accountId : Uuid) (occurredAt : Int) : Process Bool := do
  let last ← lastProcessedOccurredAt accountId
  pure (last.any fun ts => decide (occurredAt < ts))

def loadPlanByPriceId (paddlePriceId : String) : Process TariffPlanRow := do
  match ← query (.selectPlanByPrice paddlePriceId) with
  | some plan => pure plan
  | none => throw .planNotFound

def loadPlanById (planId : Uuid) : Process TariffPlanRow := query (.selectPlanById planId)

def subscriptionCreated (account : Account) (event : PaddleWebhookEvent) : Process Unit := do
  let plan ← field event.priceId "price_id" >>= loadPlanByPriceId
  let periodEnd ← field event.periodEnd "current_period_end"
  query (.updateAccount account (.activate plan.planId periodEnd event.subscriptionId))

def subscriptionUpdated (account : Account) (event : PaddleWebhookEvent) : Process Unit := do
  let newPlan ← field event.priceId "price_id" >>= loadPlanByPriceId
  let currentPlan ← loadPlanById account.tariffPlanId
  let periodEnd ← field event.periodEnd "current_period_end"
  if isUpgrade currentPlan newPlan then
    query (.updateAccount account (.activate newPlan.planId periodEnd event.subscriptionId))
  else if isDowngrade currentPlan newPlan then
    query (.updateAccount account (.schedule newPlan.planId))
  else query (.updateAccount account (.renew periodEnd event.subscriptionId))

def subscriptionPastDue (account : Account) : Process Unit := query (.updateAccount account .pastDue)

def subscriptionCanceled (account : Account) (event : PaddleWebhookEvent) : Process Unit := do
  let periodEnd ← field event.periodEnd "current_period_end"
  query (.updateAccount account (.cancel periodEnd))

def applyEvent (account : Account) (event : PaddleWebhookEvent) : Process Unit :=
  match event.handledEventType with
  | some .subscriptionCreated => subscriptionCreated account event
  | some .subscriptionUpdated => subscriptionUpdated account event
  | some .subscriptionPastDue => subscriptionPastDue account
  | some .subscriptionCanceled => subscriptionCanceled account event
  | none => throw (.database (.inr ("unsupported event_type: " ++ event.normalizedEventType)))

/-! ## Claiming a row -/

/-- `if !skip_state { if let Err(e) = apply_event(…).await`: its error is looked at. -/
def applyUnless (skip : Bool) (account : Account) (event : PaddleWebhookEvent) :
    Process (Except WebhookError Unit) :=
  if skip then pure (.ok ()) else ExceptT.lift (applyEvent account event).run

def markApplied (id : Uuid) : Except WebhookError Unit → Process Unit
  | .ok _ => markProcessed id
  | .error _ => markFailed id

/-- From `mark_processing` to the commit, for a linked event (`processor.rs:188-213`, `372-397`): the
result of `apply_event`, or nothing where the row is not to be had. -/
def applyInTx (account : Account) (event : PaddleWebhookEvent) (id : Uuid) :
    Process (Option (Except WebhookError Unit)) := do
  if ← markProcessing id then
    let skip ← shouldSkipOutOfOrder account.accountId event.occurredAt
    let applied ← applyUnless skip account event
    markApplied id applied
    pure (some applied)
  else pure none

/-- The same for an unlinked event (`processor.rs:233-262`, `305-330`). -/
def waitInTx (event : PaddleWebhookEvent) (customerId : String) (id : Uuid) : Process Bool := do
  if ← markProcessing id then
    insertPendingLink customerId (event.customerEmail.getD "")
    markWaitingForAccountLink id
    pure true
  else pure false

def resolveLostProcessingRace (paddleEventId : String) : Process WebhookOutcome := do
  match ← findByPaddleEventId paddleEventId with
  | some row =>
    if row.status = .processed ∨ row.status = .waitingForAccountLink then pure .idempotent
    else throw .invalidStatusTransition
  | none => throw .invalidStatusTransition

def applyClaimed (account : Account) (event : PaddleWebhookEvent) (id : Uuid) :
    Process WebhookOutcome := do
  match ← orRollback (applyInTx account event id) with
  | none =>
    rollbackTx
    resolveLostProcessingRace event.eventId
  | some (.ok ()) =>
    commitTx databaseError
    pure .processed
  | some (.error e) =>
    ignore .commit
    throw e

def waitClaimed (event : PaddleWebhookEvent) (customerId : String) (id : Uuid) :
    Process WebhookOutcome := do
  if ← orRollback (waitInTx event customerId id) then
    commitTx databaseError
    pure .waitingForAccountLink
  else
    rollbackTx
    resolveLostProcessingRace event.eventId

def reprocessUnlinkedWebhook (event : PaddleWebhookEvent) (existing : WebhookEventRow)
    (customerId : String) : Process WebhookOutcome := do
  beginTx databaseError
  waitClaimed event customerId existing.id

def reprocessExistingWebhook (event : PaddleWebhookEvent) (existing : WebhookEventRow) :
    Process WebhookOutcome := do
  let customerId ← field event.customerId "customer_id"
  match ← resolveAccountByPaddleCustomer customerId with
  | some account =>
    beginTx databaseError
    applyClaimed account event existing.id
  | none => reprocessUnlinkedWebhook event existing customerId

inductive ExistingEventAction where
  | idempotent (outcome : WebhookOutcome)
  | reprocess

def classifyExistingEvent (existing : WebhookEventRow) (hash : String) :
    Except WebhookError ExistingEventAction :=
  if existing.payloadHash ≠ hash then .error .payloadHashConflict
  else
    match existing.status with
    | .processed | .waitingForAccountLink => .ok (.idempotent .idempotent)
    | .failed | .received => .ok .reprocess
    | .processing => .error .invalidStatusTransition

/-- `match classify_existing_event(…)?` -/
def classified (event : PaddleWebhookEvent) (hash : String) (existing : WebhookEventRow) :
    Process WebhookOutcome :=
  match classifyExistingEvent existing hash with
  | .ok (.idempotent outcome) => pure outcome
  | .ok .reprocess => reprocessExistingWebhook event existing
  | .error e => throw e

/-! ## Storing a row -/

/-- `begin`, the insert, and what follows its errors; `next` is what follows an insert. -/
def storeReceived (event : PaddleWebhookEvent) (hash : String) (accountId : Option Uuid)
    (next : Uuid → Process WebhookOutcome) : Process WebhookOutcome := do
  beginTx databaseError
  match ← (ExceptT.lift (insertReceived event hash accountId) : Process (Except DbError Uuid)) with
  | .ok id => next id
  | .error e =>
    rollbackTx
    if isUniqueViolation e then
      match ← findByPaddleEventId event.eventId with
      | some existing => classified event hash existing
      | none => throw (databaseError e)
    else throw (databaseError e)

def storeUnlinkedWebhook (event : PaddleWebhookEvent) (hash customerId : String) :
    Process WebhookOutcome :=
  storeReceived event hash none (waitClaimed event customerId)

def processLinkedWebhook (event : PaddleWebhookEvent) (hash : String) (account : Account) :
    Process WebhookOutcome :=
  storeReceived event hash (some account.accountId) (applyClaimed account event)

/-- The functions of the server, and how it reads a body. -/
structure State where
  sha : Sha256
  parse : List UInt8 → Option PaddleWebhookEvent

/-- `payload_hash`. -/
def payloadHash (state : State) (rawBody : List UInt8) : String := hexEncode (state.sha rawBody)

def processPaddleWebhook (state : State) (event : PaddleWebhookEvent) (rawBody : List UInt8) :
    Process WebhookOutcome :=
  if event.handledEventType.isNone then pure .ignored
  else do
    let hash := payloadHash state rawBody
    match ← findByPaddleEventId event.eventId with
    | some existing => classified event hash existing
    | none =>
      let customerId ← field event.customerId "customer_id"
      match ← resolveAccountByPaddleCustomer customerId with
      | some account => processLinkedWebhook event hash account
      | none => storeUnlinkedWebhook event hash customerId

/-! ## Linking -/

section Linking

variable {ε : Type} (err : ε) (pool : Bool)

/-- The three statements that `linking.rs` runs on the pool and `billing.rs` in its transaction. -/
def selectOwner (paddleCustomerId : String) : Program schema ε (Option Uuid) :=
  sql (S := schema) (fun _ => err) (Sql.selectOwner pool paddleCustomerId)

def linkCustomer (paddleCustomerId : String) (accountId : Uuid) : Program schema ε Bool :=
  sql (S := schema) (fun _ => err) (Sql.linkCustomer pool paddleCustomerId accountId)

def selectCustomer (accountId : Uuid) : Program schema ε (Option String) :=
  sql (S := schema) (fun _ => err) (Sql.selectCustomer pool accountId)

end Linking

def linkPaddleCustomerToAccount (accountId : Uuid) (paddleCustomerId : String) :
    Program schema LinkCustomerError Unit := do
  match ← selectOwner .database true paddleCustomerId with
  | some other =>
    if other = accountId then pure () else throw .customerAlreadyLinkedToOtherAccount
  | none =>
    if ← linkCustomer .database true paddleCustomerId accountId then pure ()
    else
      let current ← selectCustomer LinkCustomerError.database true accountId
      if current = some paddleCustomerId then pure ()
      else if current.isSome then throw .accountAlreadyLinkedToOtherCustomer
      else throw .database

/-- `lock_account_paddle_row`: the customer id of the row, if there is one. -/
def lockAccountPaddleRow (accountId : Uuid) : Program schema BillingError (Option (Option String)) :=
  sql (S := schema) (fun _ => .internal) (Sql.selectAccountForUpdate accountId)

def savePaddleCustomerId (accountId : Uuid) (paddleCustomerId : String) :
    Program schema BillingError Unit := do
  match ← selectOwner .internal false paddleCustomerId with
  | some other => if other = accountId then pure () else throw .internal
  | none =>
    if ← linkCustomer .internal false paddleCustomerId accountId then pure ()
    else
      let current ← selectCustomer BillingError.internal false accountId
      if current = some paddleCustomerId then pure () else throw .internal

def paddleClientErrorIsUnavailable : PaddleClientError → Bool
  | .timeout | .networkError => true
  | .apiError status => decide (500 ≤ status)
  | .invalidResponse => false

def mapCreateCustomerError (e : PaddleClientError) : BillingError :=
  if paddleClientErrorIsUnavailable e then .paddleUnavailable else .customerCreationFailed

/-- The inside of the transaction. -/
def ensureInTx (accountId : Uuid) (email : String) : Program schema BillingError String := do
  match ← lockAccountPaddleRow accountId with
  | none => throw .accountNotFound
  | some (some customerId) => pure customerId
  | some none =>
    match ← (ask (S := schema) (.createCustomer email) :
      Program schema BillingError (Except PaddleClientError String)) with
    | .error e => throw (mapCreateCustomerError e)
    | .ok customerId =>
      savePaddleCustomerId accountId customerId
      pure customerId

def ensurePaddleCustomer (accountId : Uuid) (email : String) :
    Program schema BillingError String := do
  beginTx fun _ => .internal
  let customerId ← orRollback (ensureInTx accountId email)
  commitTx fun _ => .internal
  pure customerId

/-! ## Requests -/

inductive Request where
  /-- A webhook with a valid signature. -/
  | webhook (rawBody : List UInt8)
  | link (accountId : Uuid) (paddleCustomerId : String)
  | ensureCustomer (accountId : Uuid) (email : String)
  /-- `apply_lazy_billing_transitions`, before a request of the account. -/
  | lazyTransitions (accountId : Uuid)
  | setPrice (planName priceId : String)
  deriving DecidableEq

inductive Reply where
  | webhook (result : Except WebhookError WebhookOutcome)
  | invalidPayload
  | link (result : Except LinkCustomerError Unit)
  | customer (result : Except BillingError String)
  | done (result : Except DbError Unit)
  deriving DecidableEq

def Request.run (state : State) : Request → Action Reply
  | webhook rawBody =>
    match state.parse rawBody with
    | some event => Reply.webhook <$> (processPaddleWebhook state event rawBody).run
    | none => pure .invalidPayload
  | link accountId paddleCustomerId =>
    Reply.link <$> (linkPaddleCustomerToAccount accountId paddleCustomerId).run
  | ensureCustomer accountId email =>
    Reply.customer <$> (ensurePaddleCustomer accountId email).run
  | lazyTransitions accountId =>
    Reply.done <$> statement (.applyLazyBillingTransitions accountId)
  | setPrice planName priceId => Reply.done <$> statement (.updatePrice priceId planName)

end EvidentLedger.Paddle
