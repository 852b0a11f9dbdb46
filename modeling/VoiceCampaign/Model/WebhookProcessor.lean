import VoiceCampaign.Model.StateMachine

/-!
# The webhook processor

`app/scheduler/webhook_processor.py`, with `parse_event` of `app/provider/mock.py`.
-/

namespace VoiceCampaign

open Concurrency

/-- What the coroutines are built with. -/
structure Deps where
  settings : Settings := {}
  zoneInfo : ZoneInfo

/-! ### `parse_event` -/

/-- `payload[key]`. -/
def Payload.item (payload : Payload) (key : String) : Except Err Json :=
  match payload.get? key with
  | some value => .ok value
  | none => .error (.keyError key)

/-- `CallStatus(value)`. -/
def callStatusOf : Json → Except Err CallStatus
  | .str value =>
      match CallStatus.ofValue value with
      | some status => .ok status
      | none => .error (.valueError s!"{value} is not a valid CallStatus")
  | _ => .error (.valueError "not a valid CallStatus")

def parseEvent (payload : Payload) : Except Err ProviderEvent := do
  let providerEventId ← payload.item "provider_event_id"
  let providerCallId ← payload.item "provider_call_id"
  let statusEnum ← callStatusOf (← payload.item "status")
  pure { providerEventId, providerCallId, statusEnum }

/-! ### `_process_one_row` -/

inductive RowOutcome where
  | applied
  | stale
  | empty
  | error
  deriving DecidableEq, Repr

/-- `CallRepo.get_by_provider_call_id`: SQL `NULL` matches nothing, and a parameter that is not a
string does not encode as `TEXT`. -/
def getByProviderCallId : Json → Co (Option CallRow)
  | .str handle => select (.getByProviderCallId handle)
  | .null => pure none
  | _ => raise .dataError

def markProcessed (inboxId : InboxId) : Co Unit := perform (.markProcessed inboxId)

def unknownHandle (event : ProviderEvent) : AuditEvent where
  eventType := .webhookIgnoredStale
  reason := "unknown provider_call_id"
  extra := [("provider_event_id", event.providerEventId),
    ("provider_call_id", event.providerCallId)]

def terminalWins (event : ProviderEvent) (call : CallRow) : AuditEvent where
  eventType := .webhookIgnoredStale
  reason := s!"terminal-wins: {call.status.value} ← {event.statusEnum.value}"
  campaignId := some call.campaignId
  callId := some call.id
  phone := some call.phone
  attemptEpoch := some call.attemptEpoch
  extra := [("current_status", .str call.status.value),
    ("event_status", .str event.statusEnum.value), ("provider_event_id", event.providerEventId)]

def casNoOp (event : ProviderEvent) (call : CallRow) : AuditEvent where
  eventType := .webhookIgnoredStale
  reason := s!"CAS no-op: expected {call.status.value}/{call.attemptEpoch}"
  campaignId := some call.campaignId
  callId := some call.id
  phone := some call.phone
  attemptEpoch := some call.attemptEpoch
  extra := [("expected_status", .str call.status.value),
    ("expected_epoch", .num call.attemptEpoch), ("event_status", .str event.statusEnum.value),
    ("provider_event_id", event.providerEventId)]

/-- The outcome arguments of a terminal disposition. -/
def webhookOutcome (event : ProviderEvent) (call : CallRow) : RetryableOutcome where
  callId := call.id
  expectedStatus := call.status
  expectedEpoch := call.attemptEpoch
  retriesRemaining := call.retriesRemaining
  outcome := event.statusEnum
  reasonPrefix := "webhook"

/-- The write-through of an intermediate status. -/
def webhookTransition (event : ProviderEvent) (call : CallRow) : Transition where
  callId := call.id
  expectedStatus := call.status
  newStatus := event.statusEnum
  expectedEpoch := call.attemptEpoch
  eventType := .transition
  reason := s!"webhook {event.statusEnum.value}"
  extra := [("provider_event_id", event.providerEventId),
    ("provider_call_id", event.providerCallId)]

section

variable (deps : Deps)

/-- `float(retry_config.get("backoff_base_seconds", settings.retry_backoff_base_seconds))`. -/
def backoffBaseSeconds (campaign : Option CampaignRow) : ℚ :=
  match campaign with
  | some row => row.retryConfig.backoffBaseSeconds
  | none => deps.settings.retryBackoffBaseSeconds

/-- The transition an event asks for on the call row that was read. -/
def applyEvent (event : ProviderEvent) (call : CallRow) : Co TransitionResult :=
  if event.statusEnum.isTerminal = true then do
    let campaign : Option CampaignRow ← select (.getCampaign call.campaignId)
    applyRetryableOutcome (webhookOutcome event call) (backoffBaseSeconds deps campaign)
  else
    transition (webhookTransition event call)

/-- The transaction body once a row is claimed. -/
def processRow (row : InboxRow) : Co RowOutcome := do
  let event ← ofExcept (parseEvent row.payload)
  match ← getByProviderCallId event.providerCallId with
  | none =>
      emitAudit (unknownHandle event)
      markProcessed row.id
      pure .stale
  | some call =>
      if event.statusEnum = call.status then
        markProcessed row.id
        pure .stale
      else
        match ← applyEvent deps event call with
        | .terminalRegression =>
            emitAudit (terminalWins event call)
            markProcessed row.id
            pure .stale
        | .noOp =>
            emitAudit (casNoOp event call)
            markProcessed row.id
            pure .stale
        | .applied _ =>
            markProcessed row.id
            pure .applied

def processOneRow : Co RowOutcome :=
  (transaction do
    match ← perform .claimUnprocessedOne with
    | none => pure .empty
    | some row => processRow deps row).catching fun _ => pure .error

theorem processOneRow_eq : processOneRow deps = (transaction (perform .claimUnprocessedOne >>= fun found =>
    found.elim (pure .empty) (processRow deps))).catching fun _ => pure .error := by
  rw [processOneRow]
  congr 3
  funext found
  cases found <;> rfl

/-! ### `process_pending_inbox` -/

/-- The loop-drain: at most `fuel` rows, returning whether any applied and how many were tried. -/
def drainInbox : Nat → Bool → Nat → Co (Bool × Nat)
  | 0, appliedAny, processed => pure (appliedAny, processed)
  | fuel + 1, appliedAny, processed => do
      let outcome ← processOneRow deps
      if outcome = .empty then
        pure (appliedAny, processed)
      else
        drainInbox fuel (appliedAny || outcome = .applied) (processed + 1)

def processPendingInbox : Co Nat := do
  let (appliedAny, processed) ← drainInbox deps deps.settings.webhookProcessorBatchMax false 0
  if appliedAny = true then
    perform .notify
    pure processed
  else
    pure processed

end

end VoiceCampaign
