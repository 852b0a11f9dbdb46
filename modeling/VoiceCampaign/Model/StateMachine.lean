import VoiceCampaign.Model.Database

/-!
# The state machine

`app/state`: the compare-and-set `transition`, the two campaign-level side effects, and the shared
retry-or-terminal branch.
-/

namespace VoiceCampaign

open Concurrency

/-! ### `campaign_terminal.py` -/

def campaignPromoted (campaignId : CampaignId) : AuditEvent where
  eventType := .campaignPromotedActive
  reason := "first call entered DIALING"
  campaignId := some campaignId
  stateBefore := some "PENDING"
  stateAfter := some "ACTIVE"

def maybePromoteToActive (campaignId : CampaignId) : Co Unit := do
  let updated : Bool ← perform (.updateCampaign campaignId .pending .active)
  if updated = true then
    emitAudit (campaignPromoted campaignId)
  else
    pure ()

def campaignCompleted (campaignId : CampaignId) (counts : TerminalAggregate)
    (target : CampaignStatus) : AuditEvent where
  eventType := .campaignCompleted
  reason := s!"all calls terminal; rolling up to {target.value}"
  campaignId := some campaignId
  stateBefore := some "ACTIVE"
  stateAfter := some target.value
  extra := [("terminal", .str target.value), ("completed", .num counts.completed),
    ("failed", .num counts.failed), ("no_answer", .num counts.noAnswer), ("busy", .num counts.busy)]

/-- What the campaign folds to once all its calls are terminal. -/
def TerminalAggregate.target (counts : TerminalAggregate) : CampaignStatus :=
  if counts.completed > 0 then .completed else .failed

def maybeTransitionCampaignTerminal (campaignId : CampaignId) : Co Unit := do
  perform (.lockCampaign campaignId)
  let active : Nat ← select (.countActive campaignId)
  if active > 0 then
    pure ()
  else
    let counts : TerminalAggregate ← select (.terminalAggregate campaignId)
    let updated : Bool ← perform (.updateCampaign campaignId .active counts.target)
    if updated = true then
      emitAudit (campaignCompleted campaignId counts counts.target)
    else
      pure ()

/-! ### `machine.py` -/

/-- The keyword arguments of `transition`. -/
structure Transition extends CallUpdate where
  eventType : EventType
  reason : String
  extra : Payload := []

inductive TransitionResult where
  | applied (row : CallRow)
  | noOp
  | terminalRegression

def TransitionResult.isNoOp : TransitionResult → Bool
  | applied _ => false
  | noOp | terminalRegression => true

/-- The terminal guard: a terminal row may not be moved to another status. -/
def Transition.regresses (args : Transition) : Bool :=
  args.expectedStatus.isTerminal && args.newStatus ≠ args.expectedStatus

def Transition.auditEvent (args : Transition) (row : CallRow) : AuditEvent where
  eventType := args.eventType
  reason := args.reason
  campaignId := some row.campaignId
  callId := some args.callId
  phone := some row.phone
  attemptEpoch := some row.attemptEpoch
  stateBefore := some args.expectedStatus.value
  stateAfter := some args.newStatus.value
  extra := args.extra

def transition (args : Transition) : Co TransitionResult :=
  if args.regresses = true then
    pure .terminalRegression
  else do
    match ← ofExcept (← perform (.updateCall args.toCallUpdate)) with
    | none => pure .noOp
    | some row =>
        emitAudit (args.auditEvent row)
        if args.newStatus.isTerminal = true then
          maybeTransitionCampaignTerminal row.campaignId
          pure (.applied row)
        else
          pure (.applied row)

/-! ### `retry_classification.py` -/

inductive RetryOutcome where
  | terminal
  | transientRetryable
  | noAnswer
  | busy
  deriving DecidableEq

inductive ClassifierInput where
  | status (status : CallStatus)
  | providerRejected
  | providerUnavailable

def classify : ClassifierInput → Except Err RetryOutcome
  | .providerRejected => .ok .terminal
  | .providerUnavailable => .ok .transientRetryable
  | .status .noAnswer => .ok .noAnswer
  | .status .busy => .ok .busy
  | .status .completed | .status .failed => .ok .terminal
  | .status outcome => .error (.valueError s!"classify() got non-terminal outcome: {outcome.value}")

/-! ### `retry_apply.py` -/

/-- Round half to even, as `timedelta` rounds to whole microseconds. -/
def roundHalfEven (q : ℚ) : Int :=
  let floor := ⌊q⌋
  let rest := q - floor
  if rest < 1 / 2 then floor
  else if 1 / 2 < rest then floor + 1
  else if floor % 2 = 0 then floor else floor + 1

/-- `timedelta.max`, in microseconds. -/
def timedeltaMax : Int := 1000000000 * 86400 * second - 1

/-- `datetime.max`, in microseconds since the Unix epoch. -/
def datetimeMax : Time := 253402300799999999

/-- `timedelta(seconds=base_seconds * (2**exponent) * jitter)`. -/
def backoffDelta (attemptEpoch : Nat) (baseSeconds : ℚ) (u : Jitter) : Except Err Int :=
  let exponent := if attemptEpoch < 1 then 0 else attemptEpoch - 1
  let delta := roundHalfEven (baseSeconds * 2 ^ exponent * (1 + u.1) * second)
  if delta ≤ timedeltaMax then .ok delta else .error .overflow

/-- `datetime + timedelta`. -/
def addTimedelta (now : Time) (delta : Int) : Except Err Time :=
  if now + delta ≤ datetimeMax then .ok (now + delta) else .error .overflow

def computeBackoff (attemptEpoch : Nat) (baseSeconds : ℚ) : Co Int := do
  let u : Jitter ← perform .uniform
  ofExcept (backoffDelta attemptEpoch baseSeconds u)

/-- `datetime.now(tz=UTC) + compute_backoff(..)`. -/
def nextAttempt (attemptEpoch : Nat) (baseSeconds : ℚ) : Co Time := do
  let now ← datetimeNow
  let delta ← computeBackoff attemptEpoch baseSeconds
  ofExcept (addTimedelta now delta)

/-- The arguments `apply_retryable_outcome` is called with. -/
structure RetryableOutcome where
  callId : CallId
  expectedStatus : CallStatus
  expectedEpoch : Nat
  retriesRemaining : Nat
  outcome : CallStatus
  reasonPrefix : String

namespace RetryableOutcome

def terminalTransition (args : RetryableOutcome) : Transition where
  callId := args.callId
  expectedStatus := args.expectedStatus
  newStatus := args.outcome
  expectedEpoch := args.expectedEpoch
  eventType := .transition
  reason := s!"{args.reasonPrefix} {args.outcome.value}"

def retryTransition (args : RetryableOutcome) (nextAttempt : Time) : Transition where
  callId := args.callId
  expectedStatus := args.expectedStatus
  newStatus := .retryPending
  expectedEpoch := args.expectedEpoch
  eventType := .transition
  reason := s!"{args.reasonPrefix} {args.outcome.value}; backoff scheduled"
  columnUpdates :=
    { nextAttemptAt := some nextAttempt, retriesRemaining := some (args.retriesRemaining - 1) }

def exhaustedTransition (args : RetryableOutcome) : Transition where
  callId := args.callId
  expectedStatus := args.expectedStatus
  newStatus := .failed
  expectedEpoch := args.expectedEpoch
  eventType := .transition
  reason := s!"{args.reasonPrefix} {args.outcome.value}; retries exhausted"

end RetryableOutcome

def applyRetryableOutcome (args : RetryableOutcome) (backoffBaseSeconds : ℚ) :
    Co TransitionResult := do
  let retryDecision ← ofExcept (classify (.status args.outcome))
  if retryDecision = .terminal then
    transition args.terminalTransition
  else if args.retriesRemaining > 0 then
    let nextAttempt ← nextAttempt args.expectedEpoch backoffBaseSeconds
    transition (args.retryTransition nextAttempt)
  else
    transition args.exhaustedTransition

end VoiceCampaign
