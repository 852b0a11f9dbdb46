import VoiceCampaign.Concurrency.LockOrder
import VoiceCampaign.Model.Tick
import VoiceCampaign.Model.Reclaim

/-!
# The locks of the statements

Which row locks a statement takes, and in which order, where `Database.lean` says only that it cannot run. An
`UPDATE` of a call locks the row and then waits for the index entry of its phone, and keeps the row locked
meanwhile. A plain `SELECT` and an audit row lock nothing; the `KEY SHARE` locks of foreign keys are in nobody's
way.
-/

namespace VoiceCampaign

open Concurrency

/-- A row, or a phone in `calls_phone_in_flight_uk`. -/
inductive Resource where
  | row (lock : RowLock)
  | phone (phone : String)
  deriving DecidableEq

/-- Inbox row, call with its index entry, campaign, cursor. -/
@[simp] def Resource.rank : Resource → Nat
  | row (.inbox _) => 0
  | row (.call _) => 1
  | phone _ => 2
  | row (.campaign _) => 3
  | row (.cursor _) => 4

/-- A row version that is in the index waits for the other transactions with its phone; one that leaves the index
has others wait. -/
def phoneRequest (status : CallStatus) (phone : String) : Request Resource :=
  if status.holdsPhone = true then .wait (.phone phone) else .mark (.phone phone)

/-- What a statement with a given reply locks. A compare-and-set that misses may have waited for its row first,
and then keeps it. -/
def Stmt.asks : (stmt : Stmt) → Reply stmt → List (Request Resource) → Prop
  | .updateCall update, .ok (some version), requests =>
      requests = [.wait (.row (.call update.callId)), phoneRequest update.newStatus version.phone]
  | .updateCall update, .ok none, requests => requests = [] ∨ requests = [.wait (.row (.call update.callId))]
  | .updateCall update, .error _, requests =>
      ∃ phone, requests = [.wait (.row (.call update.callId)), .wait (.phone phone)]
  | .claimNextQueued _, .ok (some version), requests =>
      requests = [.skip (.row (.call version.id)), .wait (.phone version.phone)]
  | .claimNextQueued _, .ok none, requests => requests = []
  | .claimNextQueued _, .error _, requests =>
      ∃ id phone, requests = [.skip (.row (.call id)), .wait (.phone phone)]
  | .selectRetryDue _, some call, requests => requests = [.skip (.row (.call call.id))]
  | .lockCampaign id, _, requests => requests = [.wait (.row (.campaign id))]
  | .updateCampaign id _ _, updated, requests =>
      requests = [.wait (.row (.campaign id))] ∨ (updated = false ∧ requests = [])
  | .updateLastDispatchAt id _, _, requests => requests = [.wait (.row (.cursor id))]
  | .claimUnprocessedOne, some row, requests => requests = [.skip (.row (.inbox row.id))]
  | .markProcessed id, _, requests => requests = [.wait (.row (.inbox id))] ∨ requests = []
  | _, _, requests => requests = []

/-- `COMMIT` and `ROLLBACK` give all locks back. -/
def Stmt.releases : Stmt → Bool
  | .commit | .rollback => true
  | _ => false

def rowLocking : Locking Stmt Reply Resource where
  rank := Resource.rank
  asks := Stmt.asks
  releases := Stmt.releases

abbrev Session := Locker Stmt Reply Err Resource

/-- A coroutine on a connection of its own. -/
def session {α : Type} (program : Co α) : Session where
  code := do
    let _ ← program
    pure ()

/-- The transactions that change the state. The ingest of a webhook is a single `INSERT .. ON CONFLICT DO UPDATE`,
which waits for the row of its event. -/
inductive StateChanging : Session → Prop
  | claim (campaign : CampaignRow) : StateChanging (session (claimPhase campaign))
  | requeue (campaignId : CampaignId) : StateChanging (session (requeueOldestRetryDue campaignId))
  | record (campaign : CampaignRow) (claimed : CallRow) (outcome : DialOutcome) :
      StateChanging (session (recordPhase campaign claimed outcome))
  | process (deps : Deps) : StateChanging (session (processOneRow deps))
  | applyTerminal (row : CallRow) (terminalStatus : CallStatus) :
      StateChanging (session (applyTerminal row terminalStatus))
  | applyReclaim (row : CallRow) : StateChanging (session (applyReclaim row))
  | ingest (inboxId : InboxId) : StateChanging ⟨.done (), [], [.wait (.row (.inbox inboxId))]⟩

end VoiceCampaign
