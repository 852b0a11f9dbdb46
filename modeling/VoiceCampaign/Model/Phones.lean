import VoiceCampaign.Model.Api

/-!
# The phones of a new campaign

`CampaignCreate._normalize_phones` (`app/api/schemas/campaigns.py`). The `phonenumbers` library is a parameter.
-/

namespace VoiceCampaign

open Concurrency

/-- What the validator calls of `phonenumbers`. -/
structure PhoneNumbers where
  PhoneNumber : Type
  /-- `parse(text, None)`: a number, or the text of the `NumberParseException`. -/
  parse : String → Except String PhoneNumber
  isValidNumber : PhoneNumber → Bool
  /-- `format_number(number, PhoneNumberFormat.E164)`. -/
  formatNumber : PhoneNumber → String

/-! ### `str.strip` -/

/-- `str.isspace`, of one character. -/
def isSpace (c : Char) : Bool :=
  let n := c.toNat
  (9 ≤ n && n ≤ 13) || (28 ≤ n && n ≤ 32) || n = 0x85 || n = 0xA0 || n = 0x1680 ||
    (0x2000 ≤ n && n ≤ 0x200A) || n = 0x2028 || n = 0x2029 || n = 0x202F || n = 0x205F || n = 0x3000

def strip (raw : String) : String :=
  .ofList (((raw.toList.dropWhile isSpace).reverse.dropWhile isSpace).reverse)

/-- `text.startswith("+")`. -/
def startsWithPlus (text : String) : Bool := text.toList.head? = some '+'

/-! ### `_normalize_phones` -/

/-- An entry of `errors`. -/
structure PhoneError where
  index : Nat
  input : String
  reason : String
  deriving DecidableEq, Repr

/-- The exceptions of the validator: `PydanticCustomError("invalid_phones", summary, ..)`, and `ValueError`. -/
inductive PhonesError where
  | invalidPhones (summary : String) (errors : List PhoneError)
  | valueError (message : String)
  deriving DecidableEq, Repr

/-- The local variables of the loop. The items of `seen_e164` stand in the order of insertion. -/
structure PhoneScan where
  errors : List PhoneError := []
  normalized : List String := []
  seenE164 : List (String × Nat) := []

def PhoneScan.reject (scan : PhoneScan) (idx : Nat) (raw reason : String) : PhoneScan :=
  { scan with errors := scan.errors ++ [{ index := idx, input := raw, reason }] }

def missingCountryCode : String := "missing country code; expected +cc... (e.g. +1... or +91...)"

def duplicateOf (firstSeen : Nat) (e164 : String) : String :=
  s!"duplicate of line {firstSeen + 1} (same E.164: {e164})"

/-- `f"line {first_idx + 1}: {first['reason']}"`, and how many more there are. -/
def invalidPhonesSummary (first : PhoneError) (errors : List PhoneError) : String :=
  s!"line {first.index + 1}: {first.reason}" ++
    if errors.length > 1 then s!" (+{errors.length - 1} more)" else ""

namespace PhoneNumbers

variable (lib : PhoneNumbers)

/-- The body of the loop. -/
def scanPhone (scan : PhoneScan) (idx : Nat) (raw : String) : PhoneScan :=
  let stripped := strip raw
  if startsWithPlus stripped = false then scan.reject idx raw missingCountryCode
  else
    match lib.parse stripped with
    | .error exc => scan.reject idx raw exc
    | .ok parsed =>
        if lib.isValidNumber parsed = false then scan.reject idx raw "invalid"
        else
          let e164 := lib.formatNumber parsed
          match scan.seenE164.lookup e164 with
          | some firstSeen => scan.reject idx raw (duplicateOf firstSeen e164)
          | none => { scan with
              seenE164 := scan.seenE164 ++ [(e164, idx)], normalized := scan.normalized ++ [e164] }

/-- `for idx, raw in enumerate(v)`, from `idx` on. -/
def scanPhones (scan : PhoneScan) (idx : Nat) : List String → PhoneScan
  | [] => scan
  | raw :: rest => scanPhones (lib.scanPhone scan idx raw) (idx + 1) rest

def normalizePhones (v : List String) : Except PhonesError (List String) :=
  let scan := lib.scanPhones {} 0 v
  match scan.errors with
  | first :: _ => .error (.invalidPhones (invalidPhonesSummary first scan.errors) scan.errors)
  | [] =>
      if scan.normalized = [] then .error (.valueError "zero valid phones after normalization")
      else .ok scan.normalized

end PhoneNumbers

end VoiceCampaign
