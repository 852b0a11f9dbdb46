import VoiceCampaign.Formats.Base64
import VoiceCampaign.Model.AuditReader
import VoiceCampaign.Model.JsonText
import VoiceCampaign.Model.Phones
import VoiceCampaign.Model.Routers

/-!
# The list endpoints

`GET /campaigns`, `GET /campaigns/{id}/calls` and `GET /audit`, with the cursors as the text that a client gets and
sends back: `app/api/routers/campaigns.py`, `app/api/routers/audit.py`, and the cursors of
`app/persistence/repositories.py` and `app/audit/reader.py`. What `asyncpg` makes of a `timestamptz` is a parameter.
-/

namespace VoiceCampaign

open Concurrency Formats

/-! ### Cursors -/

/-- `base64.urlsafe_b64encode(json.dumps(fields).encode("utf-8")).decode("ascii")`. -/
def renderCursor (fields : List (String × Scalar)) : String :=
  String.ofList (Base64.encode (String.ofList (dumps fields)).toByteArray.data.toList)

/-- `json.loads(base64.urlsafe_b64decode(cursor.encode("ascii")).decode("utf-8"))`: `none` where one of the four
raises. -/
def openCursor (cursor : String) : Option Json :=
  if cursor.toList.all fun c => c.toNat < 128 then do
    let raw ← Base64.decode cursor.toList
    let text ← ByteArray.utf8Decode? ⟨raw.toArray⟩
    loads text.toList
  else none

namespace Json

/-- `obj[key]`. -/
def item? (key : String) : Json → Option Json
  | obj fields => Payload.get? fields key
  | _ => none

/-- `datetime.fromisoformat(value)`. -/
def datetime? : Json → Option DateTime
  | str text => DateTime.fromisoformat text.toList
  | _ => none

/-- `UUID(value)`. -/
def uuid? : Json → Option Nat
  | str text => readUuid text.toList
  | _ => none

/-- `int(value)`: a number is cut off towards zero. -/
def int? : Json → Option Int
  | num value => some (value.num.tdiv value.den)
  | bool value => some (if value = true then 1 else 0)
  | str text => readInt 10 text.toList
  | _ => none

end Json

/-- A cursor that holds a time under `field`, and an identifier. -/
def encodeKey (field : String) (stamp : DateTime) (id : Scalar) : String :=
  renderCursor [(field, .str (String.ofList stamp.isoformat)), ("id", id)]

def decodeKey {ι : Type} (field : String) (readId : Json → Option ι) (cursor : String) : Option (DateTime × ι) := do
  let obj ← openCursor cursor
  let stamp ← (obj.item? field).bind Json.datetime?
  let id ← (obj.item? "id").bind readId
  pure (stamp, id)

/-- `str(id)`. -/
def uuidScalar (id : Nat) : Scalar := .str (String.ofList (uuidText id))

/-- `_encode_campaign_cursor`. -/
def encodeCampaignCursor (createdAt : DateTime) (campaignId : CampaignId) : String :=
  encodeKey "created_at" createdAt (uuidScalar campaignId)

/-- `_decode_campaign_cursor`. -/
def decodeCampaignCursor (cursor : String) : Option (DateTime × CampaignId) :=
  decodeKey "created_at" Json.uuid? cursor

/-- `_encode_call_cursor`. -/
def encodeCallCursor (updatedAt : DateTime) (callId : CallId) : String :=
  encodeKey "updated_at" updatedAt (uuidScalar callId)

/-- `_decode_call_cursor`. -/
def decodeCallCursor (cursor : String) : Option (DateTime × CallId) :=
  decodeKey "updated_at" Json.uuid? cursor

/-- `encode_cursor` of the audit reader. -/
def encodeCursor (ts : DateTime) (auditId : Nat) : String := encodeKey "ts" ts (.int auditId)

/-- `decode_cursor` of the audit reader. -/
def decodeCursor (cursor : String) : Option (DateTime × Int) := decodeKey "ts" Json.int? cursor

/-! ### Parameters of a query -/

/-- What `asyncpg` makes of a `timestamptz`, and of a `datetime` bound to one: `none` where it raises. -/
structure Timestamptz where
  decode : Time → DateTime
  encode : DateTime → Option Time

namespace Timestamptz

variable (codec : Timestamptz)

/-- Bind a time and a UUID. -/
def bindUuid (cursor : DateTime × Nat) : Option ListCursor :=
  (codec.encode cursor.1).map fun time => toLex (time, cursor.2)

/-- Bind a time and a `bigint`. The ids compared with it are not negative, so that a negative one is as good as
zero. -/
def bindInt (cursor : DateTime × Int) : Option AuditCursor :=
  if -2 ^ 63 ≤ cursor.2 ∧ cursor.2 < 2 ^ 63 then
    (codec.encode cursor.1).map fun time => toLex (time, cursor.2.toNat)
  else none

end Timestamptz

/-! ### Endpoints -/

/-- How a request for a page fails: its parameters are refused with 422, its cursor makes the decoder or the
driver raise, or as other requests do. -/
inductive ListError where
  | unprocessable
  | cursor
  | http (error : HttpError)
  deriving DecidableEq, Repr

/-- A list whose cursors are text. -/
def pagedText {α κ : Type} (decode : String → Option κ) (encode : κ → String)
    (list : Option κ → Except Err (List α × Option κ)) (cursor : Option String) :
    Except ListError (List α × Option String) :=
  match cursor.mapM decode with
  | none => .error .cursor
  | some bound =>
      match list bound with
      | .error error => .error (.http (.raised error))
      | .ok (rows, nextCursor) => .ok (rows, nextCursor.map encode)

/-- `GET /campaigns`, on `list_page`. -/
def listCampaigns (codec : Timestamptz) (db : Db) (cursor : Option String) (limit : Int) :
    Except ListError (List CampaignResponse × Option String) :=
  if limit < 1 ∨ 200 < limit then .error .unprocessable
  else do
    let (rows, nextCursor) ← pagedText (fun text => (decodeCampaignCursor text).bind codec.bindUuid)
      (fun key => encodeCampaignCursor (codec.decode (ofLex key).1) (ofLex key).2)
      (fun bound => listPage db.campaigns bound limit) cursor
    match rows.mapM rowToResponse with
    | .error error => .error (.http (.raised error))
    | .ok campaigns => pure (campaigns, nextCursor)

structure CampaignCallResponse where
  id : CallId
  phone : String
  status : CallStatus
  attemptEpoch : Nat
  retriesRemaining : Nat
  nextAttemptAt : Option Time
  updatedAt : Time
  deriving DecidableEq, Repr

def CallRow.campaignCallResponse (row : CallRow) : CampaignCallResponse where
  id := row.id
  phone := row.phone
  status := row.status
  attemptEpoch := row.attemptEpoch
  retriesRemaining := row.retriesRemaining
  nextAttemptAt := row.nextAttemptAt
  updatedAt := row.updatedAt

/-- `GET /campaigns/{campaign_id}/calls`, on `list_for_campaign`: whether the campaign exists is read from `db`,
the page from `later`. -/
def listCampaignCalls (codec : Timestamptz) (db later : Db) (campaignId : CampaignId) (cursor : Option String)
    (limit : Int) : Except ListError (List CampaignCallResponse × Option String) :=
  if limit < 1 ∨ 200 < limit then .error .unprocessable
  else match db.campaign? campaignId with
    | none => .error (.http (.notFound "campaign not found"))
    | some _ => do
        let (rows, nextCursor) ← pagedText (fun text => (decodeCallCursor text).bind codec.bindUuid)
          (fun key => encodeCallCursor (codec.decode (ofLex key).1) (ofLex key).2)
          (fun bound => listForCampaign later campaignId bound limit) cursor
        pure (rows.map CallRow.campaignCallResponse, nextCursor)

/-! ### The audit log -/

/-- The value of the `EventType` literal. -/
def EventType.value : EventType → String
  | claimed => "CLAIMED"
  | dispatch => "DISPATCH"
  | retryDue => "RETRY_DUE"
  | skipBusinessHour => "SKIP_BUSINESS_HOUR"
  | skipConcurrency => "SKIP_CONCURRENCY"
  | webhookIgnoredStale => "WEBHOOK_IGNORED_STALE"
  | transition => "TRANSITION"
  | reclaimSkippedTerminal => "RECLAIM_SKIPPED_TERMINAL"
  | reclaimExecuted => "RECLAIM_EXECUTED"
  | campaignPromotedActive => "CAMPAIGN_PROMOTED_ACTIVE"
  | campaignCompleted => "CAMPAIGN_COMPLETED"

/-- The columns that `emit_audit` has written for an event. -/
def AuditRow.record (row : AuditRow) : AuditRecord where
  id := row.id
  ts := row.ts
  eventType := row.event.eventType.value
  campaignId := row.event.campaignId
  callId := row.event.callId
  phone := row.event.phone
  attemptEpoch := row.event.attemptEpoch
  reason := row.event.reason
  stateBefore := row.event.stateBefore
  stateAfter := row.event.stateAfter
  extra := row.event.extra

/-- The query string of `GET /audit`; the times are the instants they are bound as. -/
structure AuditParams where
  campaignId : Option CampaignId := none
  callId : Option CallId := none
  eventType : Option String := none
  fromTs : Option Time := none
  toTs : Option Time := none
  reasonContains : Option String := none
  phone : Option String := none
  limit : Int := 100

/-- `[s.strip() for s in event_type.split(",") if s.strip()]`. -/
def eventItems (eventType : String) : List String :=
  ((eventType.toList.splitOn ',').map fun item => strip (String.ofList item)).filter fun item => item ≠ ""

/-- A single name, several, or no filter. -/
def eventFilter (eventType : Option String) : Option EventTypeFilter :=
  match eventType with
  | none => none
  | some eventType =>
      match eventItems eventType with
      | [] => none
      | [item] => some (.one item)
      | items => some (.anyOf items)

/-- `normalize_phone_query`. -/
def normalizePhoneQuery (text : Text) (raw : Option String) : Option String :=
  match raw with
  | none => none
  | some raw =>
      if (digitsOf text raw).length < phoneFilterMinDigits then none else some (String.ofList (digitsOf text raw))

/-- What `list_audit` asks the reader for. -/
def AuditParams.query (text : Text) (params : AuditParams) : AuditQuery where
  campaignId := params.campaignId
  callId := params.callId
  eventType := eventFilter params.eventType
  fromTs := params.fromTs
  toTs := params.toTs
  reasonContains := params.reasonContains
  phone := normalizePhoneQuery text params.phone
  limit := params.limit

/-- `GET /audit`. The fields of `AuditEventResponse` are those of the rows. -/
def listAudit (text : Text) (codec : Timestamptz) (audit : List AuditRecord) (params : AuditParams)
    (cursor : Option String) : Except ListError (List AuditRecord × Option String) :=
  if params.limit < 1 ∨ 500 < params.limit then .error .unprocessable
  else pagedText (fun text => (decodeCursor text).bind codec.bindInt)
    (fun key => encodeCursor (codec.decode (ofLex key).1) (ofLex key).2)
    (fun bound => queryAudit text audit { params.query text with cursor := bound }) cursor

end VoiceCampaign
