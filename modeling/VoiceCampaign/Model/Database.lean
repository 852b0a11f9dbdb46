import VoiceCampaign.Concurrency.Program
import VoiceCampaign.Concurrency.Rows
import VoiceCampaign.Model.BusinessHours
import Mathlib.Data.List.Sort

/-!
# The database and the statements the service runs on it

The tables of `schema.sql`, the SQL of `app/persistence/repositories.py`, `app/state` and
`app/scheduler`, and what one statement does at READ COMMITTED. A transaction keeps its own row
versions and its row locks to itself until it commits; a statement that needs a row another
transaction has locked does not run (`none`) until that transaction ends, and then sees the row as
committed. `SKIP LOCKED` passes over such rows instead.
-/

namespace VoiceCampaign

open Concurrency

/-! ### Tables -/

/-- `retry_config`, as `RetryConfig` validates it. -/
structure RetryConfig where
  maxAttempts : Nat
  backoffBaseSeconds : Nat
  maxAttempts_le : maxAttempts ≤ 10
  one_le_base : 1 ≤ backoffBaseSeconds
  base_le : backoffBaseSeconds ≤ 3600

structure CampaignRow where
  id : CampaignId
  name : String
  status : CampaignStatus
  timezone : String
  schedule : Schedule
  maxConcurrent : Nat
  retryConfig : RetryConfig
  createdAt : Time
  updatedAt : Time

structure CallRow where
  id : CallId
  campaignId : CampaignId
  phone : String
  status : CallStatus
  attemptEpoch : Nat
  retriesRemaining : Nat
  nextAttemptAt : Option Time
  providerCallId : Option Handle
  createdAt : Time
  updatedAt : Time
  deriving DecidableEq, Repr

/-- A row of `webhook_inbox`; `headers` is stored but never read back. -/
structure InboxRow where
  id : InboxId
  provider : String
  providerEventId : String
  payload : Payload
  receivedAt : Time
  processedAt : Option Time

/-- A row of `scheduler_campaign_state`. -/
structure CursorRow where
  campaignId : CampaignId
  lastDispatchAt : Time

structure Db where
  campaigns : List CampaignRow := []
  calls : List CallRow := []
  cursors : List CursorRow := []
  inbox : List InboxRow := []
  audit : List AuditRow := []

/-- `CampaignRowWithCursor`. -/
structure CampaignRowWithCursor where
  campaign : CampaignRow
  lastDispatchAt : Option Time

/-- `TerminalAggregate`. -/
structure TerminalAggregate where
  completed : Nat
  failed : Nat
  noAnswer : Nat
  busy : Nat

/-! ### Row predicates -/

/-- `next_attempt_at IS NULL OR next_attempt_at <= NOW()`. -/
def CallRow.dueOrUnset (now : Time) (call : CallRow) : Bool :=
  match call.nextAttemptAt with
  | none => true
  | some t => t ≤ now

/-- `next_attempt_at IS NOT NULL AND next_attempt_at <= NOW()`. -/
def CallRow.due (now : Time) (call : CallRow) : Bool :=
  match call.nextAttemptAt with
  | none => false
  | some t => t ≤ now

/-- What `claim_next_queued` looks for. -/
def CallRow.claimable (campaignId : CampaignId) (now : Time) (call : CallRow) : Bool :=
  call.campaignId = campaignId && call.status = .queued && call.dueOrUnset now

/-- What `_requeue_oldest_retry_due` looks for. -/
def CallRow.requeueable (campaignId : CampaignId) (now : Time) (call : CallRow) : Bool :=
  call.campaignId = campaignId && call.status = .retryPending && call.due now

/-- What `find_retry_due_campaign_ids` counts as due. -/
def CallRow.retryDue (now : Time) (call : CallRow) : Bool :=
  call.status = .retryPending && call.dueOrUnset now

/-- What `find_stuck_dialing` looks for. -/
def CallRow.stuckDialing (thresholdSeconds : Nat) (now : Time) (call : CallRow) : Bool :=
  call.status = .dialing && call.updatedAt < now - thresholdSeconds * second

/-! ### Queries -/

namespace Db

def call? (db : Db) (id : CallId) : Option CallRow := lookup CallRow.id db.calls id

def campaign? (db : Db) (id : CampaignId) : Option CampaignRow := lookup CampaignRow.id db.campaigns id

def inFlightCount (db : Db) (campaignId : CampaignId) : Nat :=
  db.calls.countP fun call => call.campaignId = campaignId && call.status.inFlight

def countActive (db : Db) (campaignId : CampaignId) : Nat :=
  db.calls.countP fun call => call.campaignId = campaignId && !call.status.isTerminal

def countStatus (db : Db) (campaignId : CampaignId) (status : CallStatus) : Nat :=
  db.calls.countP fun call => call.campaignId = campaignId && call.status = status

def terminalAggregate (db : Db) (campaignId : CampaignId) : TerminalAggregate where
  completed := db.countStatus campaignId .completed
  failed := db.countStatus campaignId .failed
  noAnswer := db.countStatus campaignId .noAnswer
  busy := db.countStatus campaignId .busy

def lastDispatchAt (db : Db) (campaignId : CampaignId) : Option Time :=
  (lookup CursorRow.campaignId db.cursors campaignId).map CursorRow.lastDispatchAt

/-- `status IN ('PENDING', 'ACTIVE')` with at least one `QUEUED` or `RETRY_PENDING` call. -/
def eligible (db : Db) (campaign : CampaignRow) : Bool :=
  !campaign.status.isTerminal && db.calls.any fun call =>
    call.campaignId = campaign.id && (call.status = .queued || call.status = .retryPending)

def listEligibleForTick (db : Db) : List CampaignRowWithCursor :=
  ((db.campaigns.filter db.eligible).insertionSort fun a b => a.id ≤ b.id).map fun campaign =>
    { campaign, lastDispatchAt := db.lastDispatchAt campaign.id }

/-- The dict of `in_flight_counts_by_campaign`, read with `.get(id, 0)`. -/
def inFlightCountsByCampaign (db : Db) (campaignIds : List CampaignId) (campaignId : CampaignId) :
    Nat :=
  if campaignId ∈ campaignIds then db.inFlightCount campaignId else 0

def findRetryDueCampaignIds (db : Db) (now : Time) : List CampaignId :=
  ((db.calls.filter (CallRow.retryDue now)).map CallRow.campaignId).dedup

def countRetriesDueSystem (db : Db) (now : Time) : Nat := db.calls.countP (CallRow.retryDue now)

def findStuckDialing (db : Db) (thresholdSeconds : Nat) (now : Time) : List CallRow :=
  db.calls.filter (CallRow.stuckDialing thresholdSeconds now)

/-- The rows `get_by_provider_call_id` may return: the column is not unique. -/
def withHandle (db : Db) (handle : Handle) : List CallRow :=
  db.calls.filter fun call => call.providerCallId = some handle

end Db

/-- The plain `SELECT`s. -/
inductive Query where
  | listEligibleForTick
  | inFlightCountsByCampaign (campaignIds : List CampaignId)
  | findRetryDueCampaignIds
  | countRetriesDueSystem
  | inFlightCount (campaignId : CampaignId)
  | getLastDispatchAt (campaignId : CampaignId)
  | getCampaign (campaignId : CampaignId)
  | getByProviderCallId (handle : Handle)
  | countActive (campaignId : CampaignId)
  | terminalAggregate (campaignId : CampaignId)

def Query.Result : Query → Type
  | listEligibleForTick => List CampaignRowWithCursor
  | inFlightCountsByCampaign _ => CampaignId → Nat
  | findRetryDueCampaignIds => List CampaignId
  | countRetriesDueSystem => Nat
  | inFlightCount _ => Nat
  | getLastDispatchAt _ => Option Time
  | getCampaign _ => Option CampaignRow
  | getByProviderCallId _ => Option CallRow
  | countActive _ => Nat
  | terminalAggregate _ => TerminalAggregate

/-- `pick` chooses among rows an unordered or tied `SELECT` may return. -/
def Query.eval (db : Db) (now : Time) (pick : Nat) : (query : Query) → query.Result
  | listEligibleForTick => db.listEligibleForTick
  | inFlightCountsByCampaign campaignIds => db.inFlightCountsByCampaign campaignIds
  | findRetryDueCampaignIds => db.findRetryDueCampaignIds now
  | countRetriesDueSystem => db.countRetriesDueSystem now
  | inFlightCount campaignId => db.inFlightCount campaignId
  | getLastDispatchAt campaignId => db.lastDispatchAt campaignId
  | getCampaign campaignId => db.campaign? campaignId
  | getByProviderCallId handle => oldest (fun _ => 0) pick (db.withHandle handle)
  | countActive campaignId => db.countActive campaignId
  | terminalAggregate campaignId => db.terminalAggregate campaignId

/-! ### Transactions -/

inductive RowLock where
  | inbox (id : InboxId)
  | call (id : CallId)
  | campaign (id : CampaignId)
  | cursor (campaignId : CampaignId)
  deriving DecidableEq

/-- An open transaction: its `NOW()`, the row locks it holds, its own row versions and the audit
rows it has written. -/
structure Txn where
  startedAt : Time
  locks : List RowLock := []
  calls : List CallRow := []
  campaigns : List CampaignRow := []
  cursors : List CursorRow := []
  inbox : List InboxRow := []
  audit : List AuditRow := []

/-- The database as a transaction sees it, and what its commit makes of it. -/
def Db.apply (db : Db) (txn : Txn) : Db where
  campaigns := overlay CampaignRow.id txn.campaigns db.campaigns
  calls := overlay CallRow.id txn.calls db.calls
  cursors := txn.cursors.foldl (upsert CursorRow.campaignId) db.cursors
  inbox := overlay InboxRow.id txn.inbox db.inbox
  audit := db.audit ++ txn.audit

/-- The `column_updates` `state.transition` may carry: its allow-list, so that an unauthorized
column cannot be written down. -/
structure ColumnUpdates where
  providerCallId : Option (Option Handle) := none
  nextAttemptAt : Option Time := none
  retriesRemaining : Option Nat := none

/-- The compare-and-set `UPDATE` of `state.transition`. -/
structure CallUpdate where
  callId : CallId
  expectedStatus : CallStatus
  newStatus : CallStatus
  expectedEpoch : Nat
  newEpoch : Option Nat := none
  columnUpdates : ColumnUpdates := {}

namespace CallUpdate

/-- `WHERE id = $2 AND status = $3 AND attempt_epoch = $4`. -/
def hits (update : CallUpdate) (call : CallRow) : Bool :=
  call.id = update.callId && call.status = update.expectedStatus &&
    call.attemptEpoch = update.expectedEpoch

/-- The `SET` clause. -/
def set (update : CallUpdate) (now : Time) (call : CallRow) : CallRow :=
  { call with
    status := update.newStatus
    updatedAt := now
    attemptEpoch := update.newEpoch.getD call.attemptEpoch
    providerCallId := update.columnUpdates.providerCallId.getD call.providerCallId
    nextAttemptAt := update.columnUpdates.nextAttemptAt <|> call.nextAttemptAt
    retriesRemaining := update.columnUpdates.retriesRemaining.getD call.retriesRemaining }

end CallUpdate

/-- The `SET` clause of `claim_next_queued`. -/
def CallRow.claim (now : Time) (call : CallRow) : CallRow :=
  { call with
    status := .dialing
    attemptEpoch := call.attemptEpoch + 1
    providerCallId := none
    updatedAt := now }

/-! ### Statements -/

/-- What a coroutine can ask of the world around it, one step each. -/
inductive Stmt where
  | begin
  | commit
  | rollback
  | datetimeNow
  | uniform
  | notify
  | select (query : Query)
  | emitAudit (event : AuditEvent)
  | updateCall (update : CallUpdate)
  | claimNextQueued (campaignId : CampaignId)
  | selectRetryDue (campaignId : CampaignId)
  | lockCampaign (campaignId : CampaignId)
  | updateCampaign (campaignId : CampaignId) (expected new : CampaignStatus)
  | updateLastDispatchAt (campaignId : CampaignId) (ts : Time)
  | claimUnprocessedOne
  | markProcessed (inboxId : InboxId)
  | placeCall (key : IdempotencyKey) (phone : String)
  | getStatus (handle : Handle)

def Reply : Stmt → Type
  | .begin | .commit | .rollback | .notify | .emitAudit _ => Unit
  | .datetimeNow => Time
  | .uniform => Jitter
  | .select query => query.Result
  | .updateCall _ | .claimNextQueued _ => Except Err (Option CallRow)
  | .selectRetryDue _ => Option CallRow
  | .lockCampaign _ | .updateLastDispatchAt _ _ | .markProcessed _ => Unit
  | .updateCampaign _ _ _ => Bool
  | .claimUnprocessedOne => Option InboxRow
  | .placeCall _ _ => PlaceOutcome
  | .getStatus _ => StatusOutcome

/-- A coroutine of the service. -/
abbrev Co := Program Stmt Reply Err

/-- Everything the coroutines share: the clock, the committed tables, the audit id sequence, the
dials the provider has accepted, and the scheduler's wake flag. -/
structure Shared where
  now : Time := 0
  db : Db := {}
  auditSeq : Nat := 1
  issued : List Dial := []
  wake : Bool := false

/-- What the code leaves open: which of several tied rows a statement returns, the jitter, and how
the provider answers. `accepted` is the handle of a dial the provider took although `place_call`
did not return it. -/
structure Choice where
  pick : Nat := 0
  jitter : Jitter := ⟨0, zero_jitter⟩
  place : PlaceOutcome := .unavailable
  accepted : Option Handle := none
  status : StatusOutcome := .timedOut

/-- Another transaction holds the lock. -/
def held (others : List Txn) (lock : RowLock) : Bool := others.any fun other => lock ∈ other.locks

/-- Another transaction is moving a row with the same phone into or out of the partial unique index:
the index insertion waits for it. -/
def phoneContended (others : List Txn) (db : Db) (call : CallRow) : Bool :=
  others.any fun other => other.calls.any fun version =>
    version.id ≠ call.id && version.phone = call.phone &&
      (version.status.holdsPhone || (db.call? version.id).any fun row => row.status.holdsPhone)

/-- Another row already holds the phone in `calls_phone_in_flight_uk`. -/
def phoneTaken (db : Db) (call : CallRow) : Bool :=
  db.calls.any fun other =>
    other.id ≠ call.id && other.phone = call.phone && other.status.holdsPhone

/-- Write a new version of a call row: lock it, then insert it into the unique index if its status
is one the index covers. -/
def writeCall (others : List Txn) (db : Db) (txn : Txn) (call : CallRow) :
    Option (Except Err Txn) :=
  if held others (.call call.id) then none
  else if call.status.holdsPhone && phoneContended others db call then none
  else if call.status.holdsPhone && phoneTaken (db.apply txn) call then some (.error .uniqueViolation)
  else some (.ok { txn with
    locks := .call call.id :: txn.locks
    calls := put CallRow.id call txn.calls })

/-- The dials the provider has accepted, after one more `place_call`. -/
def Choice.issue (choice : Choice) (key : IdempotencyKey) (issued : List Dial) :
    List Dial :=
  match choice.place, choice.accepted with
  | .handle handle, _ => ⟨key, handle, true⟩ :: issued
  | _, some handle => ⟨key, handle, false⟩ :: issued
  | _, none => issued

/-- One statement of a coroutine whose open transaction is `txn`, next to the open transactions
`others`. `none`: it cannot run now. -/
def exec (others : List Txn) (choice : Choice) (s : Shared) (txn : Option Txn) :
    (stmt : Stmt) → Option (Reply stmt × Shared × Option Txn)
  | .begin => if txn.isNone then some ((), s, some { startedAt := s.now }) else none
  | .commit => txn.map fun t => ((), { s with db := s.db.apply t }, none)
  | .rollback => some ((), s, none)
  | .datetimeNow => some (s.now, s, txn)
  | .uniform => some (choice.jitter, s, txn)
  | .notify => some ((), { s with wake := true }, txn)
  | .select query =>
      some (query.eval (txn.elim s.db s.db.apply) (txn.elim s.now Txn.startedAt) choice.pick, s, txn)
  | .emitAudit event => txn.map fun t =>
      ((), { s with auditSeq := s.auditSeq + 1 },
        some { t with audit := t.audit ++ [{ id := s.auditSeq, ts := t.startedAt, event }] })
  | .updateCall update => txn.bind fun t =>
      match (s.db.apply t).calls.find? update.hits with
      | none => some (.ok none, s, txn)
      | some call =>
          let version := update.set t.startedAt call
          (writeCall others s.db t version).map fun
            | .error error => (.error error, s, txn)
            | .ok t' => (.ok (some version), s, some t')
  | .claimNextQueued campaignId => txn.bind fun t =>
      match oldest CallRow.createdAt choice.pick ((s.db.apply t).calls.filter fun call =>
          call.claimable campaignId t.startedAt && !held others (.call call.id)) with
      | none => some (.ok none, s, txn)
      | some call =>
          let version := call.claim t.startedAt
          (writeCall others s.db t version).map fun
            | .error error => (.error error, s, txn)
            | .ok t' => (.ok (some version), s, some t')
  | .selectRetryDue campaignId => txn.map fun t =>
      match oldest CallRow.createdAt choice.pick ((s.db.apply t).calls.filter fun call =>
          call.requeueable campaignId t.startedAt && !held others (.call call.id)) with
      | none => (none, s, txn)
      | some call => (some call, s, some { t with locks := .call call.id :: t.locks })
  | .lockCampaign campaignId => txn.bind fun t =>
      if held others (.campaign campaignId) then none
      else some ((), s, some { t with locks := .campaign campaignId :: t.locks })
  | .updateCampaign campaignId expected new => txn.bind fun t =>
      match (s.db.apply t).campaign? campaignId with
      | none => some (false, s, txn)
      | some campaign =>
          if campaign.status ≠ expected then some (false, s, txn)
          else if held others (.campaign campaignId) then none
          else some (true, s, some { t with
            locks := .campaign campaignId :: t.locks
            campaigns := put CampaignRow.id { campaign with status := new, updatedAt := t.startedAt }
              t.campaigns })
  | .updateLastDispatchAt campaignId ts => txn.bind fun t =>
      if held others (.cursor campaignId) then none
      else some ((), s, some { t with
        locks := .cursor campaignId :: t.locks
        cursors := put CursorRow.campaignId { campaignId, lastDispatchAt := ts } t.cursors })
  | .claimUnprocessedOne => txn.map fun t =>
      match oldest InboxRow.receivedAt choice.pick ((s.db.apply t).inbox.filter fun row =>
          row.processedAt.isNone && !held others (.inbox row.id)) with
      | none => (none, s, txn)
      | some row => (some row, s, some { t with locks := .inbox row.id :: t.locks })
  | .markProcessed inboxId => txn.bind fun t =>
      match lookup InboxRow.id (s.db.apply t).inbox inboxId with
      | none => some ((), s, txn)
      | some row =>
          if held others (.inbox inboxId) then none
          else some ((), s, some { t with
            locks := .inbox inboxId :: t.locks
            inbox := put InboxRow.id { row with processedAt := some t.startedAt } t.inbox })
  | .placeCall key _ => some (choice.place, { s with issued := choice.issue key s.issued }, txn)
  | .getStatus _ => some (choice.status, s, txn)

/-! ### Coroutine wrappers -/

def perform (stmt : Stmt) : Co (Reply stmt) := Program.perform stmt

def select (query : Query) : Co query.Result := perform (.select query)

def datetimeNow : Co Time := perform .datetimeNow

def emitAudit (event : AuditEvent) : Co Unit := perform (.emitAudit event)

def raise {α : Type} (error : Err) : Co α := .fail error

/-- Let an exception raised by the code reach the coroutine. -/
def ofExcept {α : Type} : Except Err α → Co α
  | .ok value => .done value
  | .error error => .fail error

/-- `async with conn.transaction(): body`: commit at the end, roll back and re-raise on an
exception. -/
def transaction {α : Type} (body : Co α) : Co α := do
  perform .begin
  let value ← body.catching fun error => do
    perform .rollback
    raise error
  perform .commit
  pure value

end VoiceCampaign
