import VoiceCampaign.Model.WebhookProcessor

/-!
# The stuck-call reclaim sweep

`app/scheduler/reclaim.py`: the per-row task of the sweep. The sweep itself finds the stuck rows and
starts one such task for each of them.
-/

namespace VoiceCampaign

open Concurrency

inductive ReclaimKind where
  | terminalApplied
  | executed
  | skippedNoOp
  | failed
  deriving DecidableEq, Repr

structure ReclaimOutcome where
  callId : CallId
  kind : ReclaimKind
  deriving DecidableEq, Repr

def reclaimTerminalTransition (row : CallRow) (terminalStatus : CallStatus) : Transition where
  callId := row.id
  expectedStatus := .dialing
  newStatus := terminalStatus
  expectedEpoch := row.attemptEpoch
  eventType := .reclaimSkippedTerminal
  reason := s!"provider confirmed {terminalStatus.value}"
  extra := [("provider_call_id", row.providerCallId.elim .null .str)]

def applyTerminal (row : CallRow) (terminalStatus : CallStatus) : Co ReclaimOutcome := do
  let result ← transaction (transition (reclaimTerminalTransition row terminalStatus))
  if result.isNoOp then
    pure ⟨row.id, .skippedNoOp⟩
  else
    pure ⟨row.id, .terminalApplied⟩

def reclaimTransition (row : CallRow) : Transition where
  callId := row.id
  expectedStatus := .dialing
  newStatus := .queued
  expectedEpoch := row.attemptEpoch
  newEpoch := some (row.attemptEpoch + 1)
  eventType := .reclaimExecuted
  reason := "DIALING exceeded grace window; bumping epoch"
  extra := [("previous_epoch", .num row.attemptEpoch),
    ("provider_call_id", row.providerCallId.elim .null .str)]
  columnUpdates := { providerCallId := some none }

def applyReclaim (row : CallRow) : Co ReclaimOutcome := do
  let result ← transaction (transition (reclaimTransition row))
  if result.isNoOp then
    pure ⟨row.id, .skippedNoOp⟩
  else
    pure ⟨row.id, .executed⟩

/-- `None` on a timeout or any exception of the provider. -/
def bestEffortGetStatus (handle : Handle) : Co (Option CallStatus) := do
  match ← perform (.getStatus handle) with
  | .reported status => pure (some status)
  | .timedOut | .raised => pure none

def reclaimOneInner (row : CallRow) : Co ReclaimOutcome :=
  match row.providerCallId with
  | none => applyReclaim row
  | some handle => do
      match ← bestEffortGetStatus handle with
      | none => applyReclaim row
      | some reported =>
          if reported.isTerminal = true then
            applyTerminal row reported
          else
            applyReclaim row

def reclaimOne (row : CallRow) : Co ReclaimOutcome :=
  (reclaimOneInner row).catching fun _ => pure ⟨row.id, .failed⟩

end VoiceCampaign
