import VoiceCampaign.Model.WebhookProcessor

/-!
# The scheduler tick

`app/scheduler/tick.py`: the gates, the round-robin pick, and the three-phase dispatch.
-/

namespace VoiceCampaign

open Concurrency

structure TickDecision where
  campaignId : Option CampaignId
  isRetry : Bool
  deriving DecidableEq, Repr

/-! ### The round-robin key -/

/-- `datetime.min`, in microseconds since the Unix epoch. -/
def datetimeMin : Time := -62135596800000000

/-- `_rr_sort_key`: a campaign that has never dispatched sorts as `datetime.min`, ties go by id. -/
def rrSortKey (row : CampaignRowWithCursor) : Time × CampaignId :=
  (row.lastDispatchAt.getD datetimeMin, row.campaign.id)

/-- Tuple order on sort keys. -/
def rrLe (a b : CampaignRowWithCursor) : Bool :=
  (rrSortKey a).1 < (rrSortKey b).1 ||
    ((rrSortKey a).1 = (rrSortKey b).1 && (rrSortKey a).2 ≤ (rrSortKey b).2)

/-- `min(rows, key=_rr_sort_key)`, and the head of `sorted(rows, key=_rr_sort_key)`. -/
def rrFirst : List CampaignRowWithCursor → Option CampaignRowWithCursor
  | [] => none
  | row :: rest =>
      match rrFirst rest with
      | none => some row
      | some best => if rrLe row best then some row else some best

/-! ### `_requeue_oldest_retry_due` -/

def retryDueTransition (call : CallRow) : Transition where
  callId := call.id
  expectedStatus := .retryPending
  newStatus := .queued
  expectedEpoch := call.attemptEpoch
  eventType := .retryDue
  reason := "backoff elapsed; requeueing for dispatch"

def requeueOldestRetryDue (campaignId : CampaignId) : Co Unit :=
  transaction do
    match ← perform (.selectRetryDue campaignId) with
    | none => pure ()
    | some call =>
        let _ ← transition (retryDueTransition call)
        pure ()

/-! ### `_dispatch_one` -/

def claimedEvent (campaign : CampaignRow) (claimed : CallRow) (inFlightAtClaim : Nat)
    (retriesPendingSystem : Nat) (rrCursorBefore : Option Time) : AuditEvent where
  eventType := .claimed
  reason := "claim for dispatch"
  campaignId := some campaign.id
  callId := some claimed.id
  phone := some claimed.phone
  attemptEpoch := some claimed.attemptEpoch
  stateBefore := some "QUEUED"
  stateAfter := some "DIALING"
  extra := [("in_flight_at_claim", .num inFlightAtClaim),
    ("max_concurrent", .num campaign.maxConcurrent),
    ("retries_pending_system", .num retriesPendingSystem),
    ("rr_cursor_before", rrCursorBefore.elim .null fun t => .num t)]

/-- Phase 1: claim, `CLAIMED` audit and promotion in one transaction. -/
def claimPhase (campaign : CampaignRow) : Co (Option CallRow) :=
  transaction do
    let retriesPendingSystem : Nat ← select .countRetriesDueSystem
    let inFlightAtClaim : Nat ← select (.inFlightCount campaign.id)
    let rrCursorBefore : Option Time ← select (.getLastDispatchAt campaign.id)
    match ← ofExcept (← perform (.claimNextQueued campaign.id)) with
    | none => pure none
    | some claimed =>
        emitAudit (claimedEvent campaign claimed inFlightAtClaim retriesPendingSystem rrCursorBefore)
        if campaign.status = .pending then
          maybePromoteToActive campaign.id
          pure (some claimed)
        else
          pure (some claimed)

def dispatchTransition (claimed : CallRow) (handle : Handle) : Transition where
  callId := claimed.id
  expectedStatus := .dialing
  newStatus := .dialing
  expectedEpoch := claimed.attemptEpoch
  eventType := .dispatch
  reason := "dispatched to provider"
  extra := [("provider_call_id", .str handle)]
  columnUpdates := { providerCallId := some (some handle) }

def rejectedTransition (claimed : CallRow) (reasonCode : String) : Transition where
  callId := claimed.id
  expectedStatus := .dialing
  newStatus := .failed
  expectedEpoch := claimed.attemptEpoch
  eventType := .transition
  reason := s!"provider_rejected:{reasonCode}"
  extra := [("reason_code", .str reasonCode)]

def unavailableTransition (claimed : CallRow) (nextAttempt : Time) : Transition where
  callId := claimed.id
  expectedStatus := .dialing
  newStatus := .retryPending
  expectedEpoch := claimed.attemptEpoch
  eventType := .transition
  reason := "provider_unavailable"
  columnUpdates :=
    { nextAttemptAt := some nextAttempt, retriesRemaining := some (claimed.retriesRemaining - 1) }

def unavailableExhaustedTransition (claimed : CallRow) : Transition where
  callId := claimed.id
  expectedStatus := .dialing
  newStatus := .failed
  expectedEpoch := claimed.attemptEpoch
  eventType := .transition
  reason := "provider_unavailable, retries exhausted"

/-- What `place_call` settled, as Phase 2 hands it to Phase 3. -/
inductive DialOutcome where
  | ok (handle : Handle)
  | rejected (reasonCode : String)
  | unavailable

/-- Phase 2: the outbound call, outside any transaction. Any exception other than the two domain
ones escapes the tick. -/
def placePhase (claimed : CallRow) : Co DialOutcome := do
  match ← perform (.placeCall ⟨claimed.id, claimed.attemptEpoch⟩ claimed.phone) with
  | .handle handle => pure (.ok handle)
  | .rejected reasonCode => pure (.rejected reasonCode)
  | .unavailable => pure .unavailable
  | .raised => raise .provider

/-- The transition of Phase 3. -/
def recordDial (campaign : CampaignRow) (claimed : CallRow) : DialOutcome → Co TransitionResult
  | .ok handle => transition (dispatchTransition claimed handle)
  | .rejected reasonCode => transition (rejectedTransition claimed reasonCode)
  | .unavailable =>
      if claimed.retriesRemaining > 0 then do
        let nextAttempt ← nextAttempt claimed.attemptEpoch campaign.retryConfig.backoffBaseSeconds
        transition (unavailableTransition claimed nextAttempt)
      else
        transition (unavailableExhaustedTransition claimed)

/-- Phase 3: record the result and advance the round-robin cursor. -/
def recordPhase (campaign : CampaignRow) (claimed : CallRow) (outcome : DialOutcome) : Co Unit :=
  transaction do
    let _ ← recordDial campaign claimed outcome
    let now ← datetimeNow
    perform (.updateLastDispatchAt campaign.id now)

def dispatchOne (campaign : CampaignRow) : Co (Option CampaignId) := do
  match ← claimPhase campaign with
  | none => pure none
  | some claimed =>
      let outcome ← placePhase claimed
      recordPhase campaign claimed outcome
      pure (some campaign.id)

/-! ### `tick` -/

def skipBusinessHour (campaign : CampaignRow) : AuditEvent where
  eventType := .skipBusinessHour
  reason := "outside configured business-hour window"
  campaignId := some campaign.id
  extra := [("timezone", .str campaign.timezone)]

def skipConcurrency (campaign : CampaignRow) (current : Nat) : AuditEvent where
  eventType := .skipConcurrency
  reason := s!"in-flight {current} >= max_concurrent {campaign.maxConcurrent}"
  campaignId := some campaign.id
  extra := [("in_flight", .num current), ("max_concurrent", .num campaign.maxConcurrent)]

/-- Step 2a: split the eligible campaigns by the business-hour predicate. -/
def splitByHours (deps : Deps) (nowUtc : Time) : List CampaignRowWithCursor →
    Except Err (List CampaignRowWithCursor × List CampaignRowWithCursor)
  | [] => .ok ([], [])
  | row :: rest => do
      let inside ← isInWindow deps.zoneInfo row.campaign.schedule row.campaign.timezone nowUtc
      let (inHours, outOfHours) ← splitByHours deps nowUtc rest
      if inside then
        pure (row :: inHours, outOfHours)
      else
        pure (inHours, row :: outOfHours)

/-- Below its cap at the counts read. -/
def belowCap (inFlight : CampaignId → Nat) (row : CampaignRowWithCursor) : Bool :=
  inFlight row.campaign.id < row.campaign.maxConcurrent

/-- An audit row outside any transaction commits on its own. -/
def emitAlone (event : AuditEvent) : Co Unit := transaction (emitAudit event)

/-- Steps 3 and 4: the round-robin first of the gate survivors with a due retry, else of all of them,
and whether it is a retry. -/
def pickCampaign (capped : List CampaignRowWithCursor) (retryDueCampaigns : List CampaignId) :
    Option (CampaignRowWithCursor × Bool) :=
  match rrFirst (capped.filter fun row => row.campaign.id ∈ retryDueCampaigns) with
  | some picked => some (picked, true)
  | none => (rrFirst capped).map fun picked => (picked, false)

/-- Step 5, for the picked campaign. -/
def dispatchPicked (picked : CampaignRowWithCursor) (isRetry : Bool) : Co TickDecision := do
  if isRetry = true then
    requeueOldestRetryDue picked.campaign.id
    let dispatched ← dispatchOne picked.campaign
    pure ⟨dispatched, isRetry⟩
  else
    let dispatched ← dispatchOne picked.campaign
    pure ⟨dispatched, isRetry⟩

def noDispatch : TickDecision := ⟨none, false⟩

def tick (deps : Deps) : Co TickDecision := do
  let nowUtc ← datetimeNow
  let allEligible : List CampaignRowWithCursor ← select .listEligibleForTick
  if allEligible = [] then
    pure noDispatch
  else
    let (inHours, outOfHours) ← ofExcept (splitByHours deps nowUtc allEligible)
    outOfHours.forM fun row => emitAlone (skipBusinessHour row.campaign)
    if inHours = [] then
      pure noDispatch
    else
      let inFlight : CampaignId → Nat ←
        select (.inFlightCountsByCampaign (inHours.map fun row => row.campaign.id))
      (inHours.filter fun row => !belowCap inFlight row).forM fun row =>
        emitAlone (skipConcurrency row.campaign (inFlight row.campaign.id))
      let capped := inHours.filter (belowCap inFlight)
      if capped = [] then
        pure noDispatch
      else
        let retryDueCampaigns : List CampaignId ← select .findRetryDueCampaignIds
        match pickCampaign capped retryDueCampaigns with
        | none => pure noDispatch
        | some (picked, isRetry) => dispatchPicked picked isRetry

end VoiceCampaign
