import VoiceCampaign.Concurrency.Keyset
import VoiceCampaign.Model.Types
import Mathlib.Data.Prod.Lex

/-!
# The audit reader

`app/audit/reader.py`: the filters of `query_audit`, the patterns it builds for `LIKE`, and its pages. What
Unicode and the locale of the database decide is a parameter.
-/

namespace VoiceCampaign

open Concurrency

/-! ### Patterns -/

/-- A character with a meaning of its own in a `LIKE` pattern. -/
def isLikeMeta (c : Char) : Bool := c = '\\' || c = '%' || c = '_'

/-- What Python and Postgres take from Unicode and the locale: the characters `\d` matches, and the case
folding of `ILIKE`, which concerns letters only. -/
structure Text where
  isDecimal : Char → Bool
  lower : Char → Char
  lower_meta : ∀ c, isLikeMeta c = true → lower c = c
  meta_of_lower : ∀ c, isLikeMeta (lower c) = true → isLikeMeta c = true

inductive LikeToken where
  | literal (c : Char)
  | anyOne
  | anyMany
  deriving DecidableEq, Repr

/-- Read a `LIKE` pattern with the default escape: a backslash takes the next character literally, and may
not come last. -/
def likeTokens : List Char → Except Err (List LikeToken)
  | [] => .ok []
  | '\\' :: c :: rest => do
      let tokens ← likeTokens rest
      pure (.literal c :: tokens)
  | ['\\'] => .error .dataError
  | '%' :: rest => do
      let tokens ← likeTokens rest
      pure (.anyMany :: tokens)
  | '_' :: rest => do
      let tokens ← likeTokens rest
      pure (.anyOne :: tokens)
  | c :: rest => do
      let tokens ← likeTokens rest
      pure (.literal c :: tokens)

/-- The whole text matches. -/
def likeMatches : List LikeToken → List Char → Bool
  | [], text => text.isEmpty
  | .literal c :: tokens, text =>
      match text with
      | [] => false
      | first :: rest => first = c && likeMatches tokens rest
  | .anyOne :: tokens, text =>
      match text with
      | [] => false
      | _ :: rest => likeMatches tokens rest
  | .anyMany :: tokens, text => text.tails.any (likeMatches tokens)

/-- `text.replace(old, new)` for a single character `old`. -/
def replaceChar (old : Char) (new : List Char) (text : List Char) : List Char :=
  text.flatMap fun c => if c = old then new else [c]

/-- The three replaces that escape `LIKE` meta-characters, one after the other. -/
def escapeLike (text : List Char) : List Char :=
  replaceChar '_' ['\\', '_'] (replaceChar '%' ['\\', '%'] (replaceChar '\\' ['\\', '\\'] text))

/-- `f"%{escaped}%"`. -/
def containsPattern (text : List Char) : List Char := '%' :: (escapeLike text ++ ['%'])

/-! ### Filters -/

def phoneFilterMinDigits : Nat := 3

/-- `re.compile(r"\D+").sub("", raw)`. -/
def digitsOf (text : Text) (raw : String) : List Char := raw.toList.filter text.isDecimal

/-- `AuditRow`: the columns of `scheduler_audit`. -/
structure AuditRecord where
  id : Nat
  ts : Time
  eventType : String
  campaignId : Option CampaignId
  callId : Option CallId
  phone : Option String
  attemptEpoch : Option Nat
  reason : String
  stateBefore : Option String
  stateAfter : Option String
  extra : Payload

/-- `event_type: str | Sequence[str]`. -/
inductive EventTypeFilter where
  | one (eventType : String)
  | anyOf (eventTypes : List String)

/-- `encode_cursor`: the payload it renders. -/
abbrev AuditCursor := Time ×ₗ Nat

/-- The keyword arguments of `query_audit`. -/
structure AuditQuery where
  campaignId : Option CampaignId := none
  callId : Option CallId := none
  eventType : Option EventTypeFilter := none
  fromTs : Option Time := none
  toTs : Option Time := none
  reasonContains : Option String := none
  phone : Option String := none
  cursor : Option AuditCursor := none
  limit : Int := 100

def maxLimit : Int := 500

def AuditRecord.key (row : AuditRecord) : AuditCursor := toLex (row.ts, row.id)

def EventTypeFilter.selects (eventType : String) : EventTypeFilter → Bool
  | one wanted => eventType = wanted
  | anyOf wanted => eventType ∈ wanted

namespace AuditQuery

variable (text : Text) (query : AuditQuery)

/-- The pattern of the reason clause, where there is one: an empty string is no filter. -/
def reasonPattern : Except Err (Option (List LikeToken)) :=
  match query.reasonContains with
  | some reason =>
      if reason = "" then .ok none
      else (likeTokens ((containsPattern reason.toList).map text.lower)).map some
  | none => .ok none

/-- The pattern of the phone clause, where there is one: too few digits are no filter. -/
def phonePattern : Except Err (Option (List LikeToken)) :=
  match query.phone with
  | some phone =>
      if phone = "" ∨ (digitsOf text phone).length < phoneFilterMinDigits then .ok none
      else (likeTokens (containsPattern (digitsOf text phone))).map some
  | none => .ok none

/-- The `WHERE` clause, but for the cursor. A comparison with `NULL` selects nothing. -/
def selects (reasonPattern phonePattern : Option (List LikeToken)) (row : AuditRecord) : Bool :=
  query.campaignId.all (fun campaignId => row.campaignId = some campaignId) &&
  query.callId.all (fun callId => row.callId = some callId) &&
  query.eventType.all (EventTypeFilter.selects row.eventType) &&
  query.fromTs.all (fun fromTs => fromTs ≤ row.ts) &&
  query.toTs.all (fun toTs => row.ts ≤ toTs) &&
  reasonPattern.all (fun tokens => likeMatches tokens (row.reason.toList.map text.lower)) &&
  phonePattern.all (fun tokens => row.phone.any fun phone => likeMatches tokens phone.toList)

end AuditQuery

/-- `query_audit` on the rows of `scheduler_audit`. -/
def queryAudit (text : Text) (audit : List AuditRecord) (query : AuditQuery) :
    Except Err (List AuditRecord × Option AuditCursor) :=
  if query.limit ≤ 0 ∨ query.limit > maxLimit then
    .error (.valueError s!"limit must be in (0, {maxLimit}]; got {query.limit}")
  else do
    let reasonPattern ← query.reasonPattern text
    let phonePattern ← query.phonePattern text
    pure (Keyset.answer AuditRecord.key (audit.filter (query.selects text reasonPattern phonePattern))
      query.limit.toNat query.cursor)

end VoiceCampaign
