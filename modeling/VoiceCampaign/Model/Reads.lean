import VoiceCampaign.Concurrency.Keyset
import VoiceCampaign.Model.Database
import Mathlib.Data.Prod.Lex

/-!
# The read side

The aggregate of `CampaignRepo.stats`, and the two paged lists (`app/persistence/repositories.py`).
-/

namespace VoiceCampaign

open Concurrency

/-! ### Aggregates -/

/-- `status IN ('FAILED', 'NO_ANSWER', 'BUSY')`. -/
def CallStatus.isFailure : CallStatus → Bool
  | failed | noAnswer | busy => true
  | _ => false

/-- `status IN ('QUEUED', 'DIALING', 'IN_PROGRESS', 'RETRY_PENDING')`. -/
def CallStatus.isLive : CallStatus → Bool
  | queued | dialing | inProgress | retryPending => true
  | _ => false

structure CampaignStats where
  total : Nat
  completed : Nat
  failed : Nat
  retriesAttempted : Nat
  inProgress : Nat
  deriving DecidableEq, Repr

def Db.callsOf (db : Db) (campaignId : CampaignId) : List CallRow :=
  db.calls.filter fun call => call.campaignId = campaignId

/-- `CampaignRepo.stats`. `GREATEST(attempt_epoch - 1, 0)` is the truncated subtraction of `Nat`. -/
def Db.stats (db : Db) (campaignId : CampaignId) : CampaignStats where
  total := (db.callsOf campaignId).length
  completed := (db.callsOf campaignId).countP fun call => call.status = .completed
  failed := (db.callsOf campaignId).countP fun call => call.status.isFailure
  retriesAttempted := ((db.callsOf campaignId).map fun call => call.attemptEpoch - 1).sum
  inProgress := (db.callsOf campaignId).countP fun call => call.status.isLive

/-! ### Lists -/

/-- What `_encode_campaign_cursor` and `_encode_call_cursor` render. -/
abbrev ListCursor := Time ×ₗ Nat

def CampaignRow.listKey (row : CampaignRow) : ListCursor := toLex (row.createdAt, row.id)

def CallRow.listKey (row : CallRow) : ListCursor := toLex (row.updatedAt, row.id)

/-- `CampaignRepo.list_page`. -/
def listPage (campaigns : List CampaignRow) (cursor : Option ListCursor) (limit : Int) :
    Except Err (List CampaignRow × Option ListCursor) :=
  if limit ≤ 0 then .error (.valueError "limit must be positive")
  else .ok (Keyset.answer CampaignRow.listKey campaigns limit.toNat cursor)

/-- `CallRepo.list_for_campaign`. -/
def listForCampaign (db : Db) (campaignId : CampaignId) (cursor : Option ListCursor) (limit : Int) :
    Except Err (List CallRow × Option ListCursor) :=
  if limit ≤ 0 then .error (.valueError "limit must be positive")
  else .ok (Keyset.answer CallRow.listKey (db.callsOf campaignId) limit.toNat cursor)

end VoiceCampaign
