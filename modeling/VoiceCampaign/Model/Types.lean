import Mathlib.Data.Rat.Defs
import Mathlib.Data.Rat.Floor
import Mathlib.Algebra.Order.Ring.Rat

/-!
# Statuses, rows and events

The value types of `app/state/types.py`, `app/provider/types.py`, `app/audit/events.py` and the row
types of `app/persistence/repositories.py`. Timestamps are microseconds, as in `timestamptz` and
`datetime`; UUIDs are natural numbers, of which only equality and order matter.
-/

namespace VoiceCampaign

abbrev CallId := Nat
abbrev CampaignId := Nat
abbrev InboxId := Nat

/-- An instant, in microseconds since the Unix epoch. -/
abbrev Time := Int

/-- `provider_call_id`. -/
abbrev Handle := String

/-! ### Statuses -/

inductive CallStatus where
  | queued
  | dialing
  | inProgress
  | retryPending
  | completed
  | failed
  | noAnswer
  | busy
  deriving DecidableEq, Repr

inductive CampaignStatus where
  | pending
  | active
  | completed
  | failed
  deriving DecidableEq, Repr

namespace CallStatus

def value : CallStatus → String
  | queued => "QUEUED"
  | dialing => "DIALING"
  | inProgress => "IN_PROGRESS"
  | retryPending => "RETRY_PENDING"
  | completed => "COMPLETED"
  | failed => "FAILED"
  | noAnswer => "NO_ANSWER"
  | busy => "BUSY"

/-- `CallStatus(value)`: `none` where the enum constructor raises `ValueError`. -/
def ofValue (value : String) : Option CallStatus :=
  [queued, dialing, inProgress, retryPending, completed, failed, noAnswer, busy].find?
    fun status => status.value = value

theorem ofValue_value (status : CallStatus) : ofValue status.value = some status := by
  cases status <;> decide

/-- `TERMINAL_CALL_STATUSES`. -/
def isTerminal : CallStatus → Bool
  | completed | failed | noAnswer | busy => true
  | _ => false

/-- The predicate of `calls_phone_in_flight_uk`. -/
def holdsPhone : CallStatus → Bool
  | queued | dialing | inProgress => true
  | _ => false

/-- `status IN ('DIALING', 'IN_PROGRESS')`. -/
def inFlight : CallStatus → Bool
  | dialing | inProgress => true
  | _ => false

end CallStatus

namespace CampaignStatus

def value : CampaignStatus → String
  | pending => "PENDING"
  | active => "ACTIVE"
  | completed => "COMPLETED"
  | failed => "FAILED"

def isTerminal : CampaignStatus → Bool
  | completed | failed => true
  | _ => false

end CampaignStatus

/-! ### JSON

What a webhook body or an audit `extra` may hold once `json.loads` has read it. -/

inductive Json where
  | null
  | bool (value : Bool)
  | num (value : Rat)
  | str (value : String)
  | arr (items : List Json)
  | obj (fields : List (String × Json))

/-- A JSON object, as the `dict[str, Any]` it is decoded to. -/
abbrev Payload := List (String × Json)

/-- `payload.get(key)`. -/
def Payload.get? (payload : Payload) (key : String) : Option Json :=
  (payload.find? fun field => field.1 = key).map Prod.snd

/-! ### Exceptions -/

/-- The exceptions the modelled code can raise. -/
inductive Err where
  | keyError (key : String)
  | valueError (message : String)
  | typeError (message : String)
  | invalidSchedule (message : String)
  | overflow
  | dataError
  | uniqueViolation
  | provider
  deriving DecidableEq, Repr

/-! ### Settings -/

/-- The fields of `app/config.py` the modelled code reads. -/
structure Settings where
  maxConcurrentDefault : Nat := 5
  maxCallDurationSeconds : Nat := 600
  retryBackoffBaseSeconds : Nat := 30
  webhookProcessorBatchMax : Nat := 50

/-- Grace window of the reclaim sweep: `max_call_duration + 30s`. -/
def Settings.stuckReclaimSeconds (settings : Settings) : Nat := settings.maxCallDurationSeconds + 30

/-- Microseconds in a second. -/
def second : Int := 1000000

/-! ### Audit events -/

inductive EventType where
  | claimed
  | dispatch
  | retryDue
  | skipBusinessHour
  | skipConcurrency
  | webhookIgnoredStale
  | transition
  | reclaimSkippedTerminal
  | reclaimExecuted
  | campaignPromotedActive
  | campaignCompleted
  deriving DecidableEq, Repr

structure AuditEvent where
  eventType : EventType
  reason : String
  campaignId : Option CampaignId := none
  callId : Option CallId := none
  phone : Option String := none
  attemptEpoch : Option Nat := none
  stateBefore : Option String := none
  stateAfter : Option String := none
  extra : Payload := []

/-- A row of `scheduler_audit`: the event, its `BIGSERIAL` id and the `NOW()` it was written at. -/
structure AuditRow where
  id : Nat
  ts : Time
  event : AuditEvent

/-! ### The provider port -/

/-- `f"{call_id}:{attempt_epoch}"`. A UUID holds no colon, so the pair and its rendering determine
each other. -/
structure IdempotencyKey where
  callId : CallId
  attemptEpoch : Nat
  deriving DecidableEq, Repr

/-- How `place_call` ends: a handle, one of its two domain exceptions, or any other exception. -/
inductive PlaceOutcome where
  | handle (providerCallId : Handle)
  | rejected (reasonCode : String)
  | unavailable
  | raised
  deriving DecidableEq, Repr

/-- A dial the provider has accepted: the handle it issued for the key, and whether `place_call` came
to return it. -/
structure Dial where
  key : IdempotencyKey
  handle : Handle
  returned : Bool
  deriving DecidableEq, Repr

/-- How `get_status` ends within the sweep's timeout. -/
inductive StatusOutcome where
  | reported (status : CallStatus)
  | timedOut
  | raised
  deriving DecidableEq, Repr

/-- `ProviderEvent`. The identifier is whatever JSON value the payload carried: `parse_event` does
not check it. -/
structure ProviderEvent where
  providerEventId : Json
  providerCallId : Json
  statusEnum : CallStatus

/-- `random.uniform(-0.2, 0.2)`. -/
abbrev Jitter := { u : ℚ // -(1 / 5) ≤ u ∧ u ≤ 1 / 5 }

theorem zero_jitter : -(1 / 5) ≤ (0 : ℚ) ∧ (0 : ℚ) ≤ 1 / 5 := by norm_num

end VoiceCampaign
