import VoiceCampaign.Model.WebhookProcessor

/-!
# The write endpoints

`POST /campaigns` (`app/api/routers/campaigns.py`, `CampaignCreate`) and webhook ingest
(`app/api/webhooks_ingest.py`). Each is one transaction whose rows nobody sees before it commits, so
each is one step here.
-/

namespace VoiceCampaign

open Concurrency

/-! ### `POST /campaigns` -/

/-- `TimeWindow`, with what its validator checked. -/
structure TimeWindow where
  start : ClockTime
  stop : ClockTime
  start_lt_stop : start.lt stop = .ok true

/-- `CampaignCreate`, with what its validators checked. The timezone is already canonical and the
phones are the normalised E.164 list. -/
structure CampaignCreate where
  name : String
  timezone : String
  schedule : Weekday → List TimeWindow
  maxConcurrent : Option Nat
  retryConfig : RetryConfig
  phones : List String
  maxConcurrent_range : ∀ n ∈ maxConcurrent, 1 ≤ n ∧ n ≤ 100
  phones_ne_nil : phones ≠ []
  phones_nodup : phones.Nodup

/-- `w.model_dump(mode="json")`. -/
def TimeWindow.dump (window : TimeWindow) : RawWindow := ⟨window.start, window.stop⟩

/-- The row `CampaignRepo.create` inserts. -/
def CampaignCreate.campaignRow (body : CampaignCreate) (settings : Settings) (now : Time)
    (id : CampaignId) : CampaignRow where
  id := id
  name := body.name
  status := .pending
  timezone := body.timezone
  schedule := fun day => (body.schedule day).map TimeWindow.dump
  maxConcurrent := body.maxConcurrent.getD settings.maxConcurrentDefault
  retryConfig := body.retryConfig
  createdAt := now
  updatedAt := now

/-- One row of the `CallRepo.create_batch` insert. -/
def CampaignCreate.callRow (body : CampaignCreate) (now : Time) (campaignId : CampaignId)
    (id : CallId) (phone : String) : CallRow where
  id := id
  campaignId := campaignId
  phone := phone
  status := .queued
  attemptEpoch := 0
  retriesRemaining := body.retryConfig.maxAttempts
  nextAttemptAt := none
  providerCallId := none
  createdAt := now
  updatedAt := now

def CampaignCreate.callRows (body : CampaignCreate) (now : Time) (campaignId : CampaignId)
    (callIds : List CallId) : List CallRow :=
  callIds.zipWith (body.callRow now campaignId) body.phones

/-- `create_campaign`: the two inserts next to the open transactions `others`. `none` while an index
insertion has to wait; a phone already in flight fails the request and leaves the tables alone. The
ids are what `gen_random_uuid()` drew, so they are new. -/
def createCampaign (settings : Settings) (others : List Txn) (db : Db) (body : CampaignCreate)
    (now : Time) (campaignId : CampaignId) (callIds : List CallId) : Option (Except Err Db) :=
  let rows := body.callRows now campaignId callIds
  if db.campaigns.any (fun row => row.id = campaignId) || db.calls.any (fun row => row.id ∈ callIds) ||
      !(callIds.Nodup && callIds.length = body.phones.length) then none
  else if rows.any (phoneContended others db) then none
  else if rows.any (phoneTaken db) then some (.error .uniqueViolation)
  else some (.ok { db with
    campaigns := db.campaigns ++ [body.campaignRow settings now campaignId]
    calls := db.calls ++ rows })

/-! ### `POST /webhooks/provider` -/

/-- The event id ingest requires: a non-empty string. -/
def ingestEventId (payload : Payload) : Option String :=
  match payload.get? "provider_event_id" with
  | some (.str eventId) => if eventId = "" then none else some eventId
  | _ => none

/-- The row of a `(provider, provider_event_id)` pair. -/
def Db.inboxRow? (db : Db) (provider eventId : String) : Option InboxRow :=
  db.inbox.find? fun row => row.provider = provider && row.providerEventId = eventId

/-- `WebhookInboxRepo.insert`: a new row, or the existing one left as it is. `none` while another
transaction holds the existing row. -/
def insertInbox (others : List Txn) (db : Db) (provider eventId : String) (payload : Payload)
    (receivedAt : Time) (inboxId : InboxId) : Option Db :=
  match db.inboxRow? provider eventId with
  | some row => if held others (.inbox row.id) then none else some db
  | none =>
      if db.inbox.any (fun row => row.id = inboxId) then none
      else some { db with inbox := db.inbox ++
        [{ id := inboxId, provider, providerEventId := eventId, payload, receivedAt,
           processedAt := none }] }

end VoiceCampaign
