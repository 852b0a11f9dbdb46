import VoiceCampaign.Formats.Iso8601
import VoiceCampaign.Model.Api
import VoiceCampaign.Model.Reads

/-!
# The read endpoints

What a client gets to see of the tables: `app/api/routers/campaigns.py`, `app/api/routers/calls.py` and the
response models of `app/api/schemas/campaigns.py`. An endpoint that runs two queries may see two states.
-/

namespace VoiceCampaign

/-- How a request fails: an `HTTPException`, or an exception of another kind. -/
inductive HttpError where
  | notFound (detail : String)
  | internal (detail : String)
  | raised (error : Err)
  deriving DecidableEq, Repr

/-! ### Statuses -/

inductive ExternalCampaignStatus where
  | pending
  | inProgress
  | completed
  | failed
  deriving DecidableEq, Repr

def ExternalCampaignStatus.value : ExternalCampaignStatus → String
  | pending => "pending"
  | inProgress => "in_progress"
  | completed => "completed"
  | failed => "failed"

/-- `_EXTERNAL_STATUS_MAP` of the campaigns router. -/
def CampaignStatus.external : CampaignStatus → ExternalCampaignStatus
  | pending => .pending
  | active => .inProgress
  | completed => .completed
  | failed => .failed

inductive ExternalCallStatus where
  | inProgress
  | completed
  | failed
  deriving DecidableEq, Repr

def ExternalCallStatus.value : ExternalCallStatus → String
  | inProgress => "in_progress"
  | completed => "completed"
  | failed => "failed"

/-- `_EXTERNAL_STATUS_MAP` of the calls router. -/
def CallStatus.external : CallStatus → ExternalCallStatus
  | queued | dialing | inProgress | retryPending => .inProgress
  | completed => .completed
  | failed | noAnswer | busy => .failed

/-! ### Campaigns -/

/-- `time.isoformat`. -/
def ClockTime.isoformat (time : ClockTime) : String :=
  String.ofList (Formats.ZonedClock.text ⟨Formats.Clock.ofMicros time.micros.toNat, time.utcoffset⟩)

/-- `TimeWindow(**w)`: the validator runs again on what is stored. -/
def TimeWindow.load (raw : RawWindow) : Except Err TimeWindow :=
  match h : raw.start.lt raw.stop with
  | .ok true => .ok ⟨raw.start, raw.stop, h⟩
  | .ok false => .error (.valueError s!"TimeWindow.start ({raw.start.isoformat}) must be strictly less than end ({raw.stop.isoformat})")
  | .error error => .error error

structure CampaignResponse where
  id : CampaignId
  name : String
  status : ExternalCampaignStatus
  timezone : String
  schedule : Weekday → List TimeWindow
  maxConcurrent : Nat
  retryConfig : RetryConfig
  createdAt : Time
  updatedAt : Time

/-- The seven entries of `{key: [TimeWindow(**w) for w in ..] for key in _WEEKDAY_KEYS}`. -/
def loadSchedule (schedule : Schedule) : Except Err (Weekday → List TimeWindow) := do
  let mon ← (schedule .mon).mapM TimeWindow.load
  let tue ← (schedule .tue).mapM TimeWindow.load
  let wed ← (schedule .wed).mapM TimeWindow.load
  let thu ← (schedule .thu).mapM TimeWindow.load
  let fri ← (schedule .fri).mapM TimeWindow.load
  let sat ← (schedule .sat).mapM TimeWindow.load
  let sun ← (schedule .sun).mapM TimeWindow.load
  pure fun
    | .mon => mon
    | .tue => tue
    | .wed => wed
    | .thu => thu
    | .fri => fri
    | .sat => sat
    | .sun => sun

/-- `_row_to_response`. -/
def rowToResponse (row : CampaignRow) : Except Err CampaignResponse := do
  let schedule ← loadSchedule row.schedule
  pure {
    id := row.id
    name := row.name
    status := row.status.external
    timezone := row.timezone
    schedule
    maxConcurrent := row.maxConcurrent
    retryConfig := row.retryConfig
    createdAt := row.createdAt
    updatedAt := row.updatedAt }

/-- An exception that no endpoint catches. -/
def raising {α : Type} : Except Err α → Except HttpError α
  | .ok value => .ok value
  | .error error => .error (.raised error)

/-- `POST /campaigns` next to the open transactions `others`, and its answer. -/
def postCampaign (settings : Settings) (others : List Txn) (db : Db) (body : CampaignCreate) (now : Time)
    (campaignId : CampaignId) (callIds : List CallId) : Option (Except HttpError CampaignResponse) :=
  match createCampaign settings others db body now campaignId callIds with
  | none => none
  | some (.error error) => some (.error (.raised error))
  | some (.ok inserted) =>
      match inserted.campaign? campaignId with
      | none => some (.error (.internal "campaign disappeared after insert"))
      | some row => some (raising (rowToResponse row))

/-- `GET /campaigns/{campaign_id}`. -/
def getCampaign (db : Db) (campaignId : CampaignId) : Except HttpError CampaignResponse :=
  match db.campaign? campaignId with
  | none => .error (.notFound "campaign not found")
  | some row => raising (rowToResponse row)

/-- `GET /campaigns/{campaign_id}/stats`: whether the campaign exists is read from `db`, the aggregate from
`later`. `CampaignStatsResponse` has the fields of `CampaignStats`. -/
def getCampaignStats (db later : Db) (campaignId : CampaignId) : Except HttpError CampaignStats :=
  match db.campaign? campaignId with
  | none => .error (.notFound "campaign not found")
  | some _ => .ok (later.stats campaignId)

/-! ### Calls -/

structure CallResponse where
  id : CallId
  campaignId : CampaignId
  phone : String
  status : ExternalCallStatus
  deriving DecidableEq, Repr

/-- `GET /calls/{call_id}`. -/
def getCall (db : Db) (callId : CallId) : Except HttpError CallResponse :=
  match db.call? callId with
  | none => .error (.notFound "call not found")
  | some row => .ok { id := row.id, campaignId := row.campaignId, phone := row.phone, status := row.status.external }

end VoiceCampaign
