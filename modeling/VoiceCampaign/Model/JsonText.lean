import VoiceCampaign.Formats.Hex
import VoiceCampaign.Model.Types

/-!
# JSON as text

Python's `json.dumps` of the objects the service renders itself, whose values are strings and integers, and
`json.loads`. A number with a fraction or an exponent is read exactly; a surrogate without its pair, which is no
character, and `NaN` and the infinities, which are no JSON, are not read.
-/

namespace VoiceCampaign

open Formats

/-! ### Writing -/

/-- The escapes that are one character long. -/
def shortEscapes : List (Char × Char) :=
  [('"', '"'), ('\\', '\\'), ('n', '\n'), ('r', '\r'), ('t', '\t'), ('b', Char.ofNat 8), ('f', Char.ofNat 12)]

/-- `\uXXXX`. -/
def escapeUnit (unit : Nat) : List Char := '\\' :: 'u' :: hexFixed 4 unit

/-- A character as `ensure_ascii` writes it: a character beyond the basic plane as a pair of surrogates. -/
def jsonEscape (c : Char) : List Char :=
  match shortEscapes.find? fun escape => escape.2 = c with
  | some escape => ['\\', escape.1]
  | none =>
      if 32 ≤ c.toNat ∧ c.toNat ≤ 126 then [c]
      else if c.toNat < 0x10000 then escapeUnit c.toNat
      else escapeUnit (0xD800 + (c.toNat - 0x10000) / 0x400) ++ escapeUnit (0xDC00 + (c.toNat - 0x10000) % 0x400)

def quote (text : String) : List Char := '"' :: (text.toList.flatMap jsonEscape ++ ['"'])

/-- A value of an object the service renders. -/
inductive Scalar where
  | str (value : String)
  | int (value : Nat)
  deriving DecidableEq, Repr

def Scalar.json : Scalar → Json
  | str value => .str value
  | int value => .num value

@[simp] theorem Scalar.json_str (value : String) : (Scalar.str value).json = .str value := rfl

@[simp] theorem Scalar.json_int (value : Nat) : (Scalar.int value).json = .num value := rfl

def Scalar.dumps : Scalar → List Char
  | str value => quote value
  | int value => Nat.toDigits 10 value

def dumpField (field : String × Scalar) : List Char := quote field.1 ++ ':' :: ' ' :: field.2.dumps

/-- The fields after the first. -/
def dumpFields : List (String × Scalar) → List Char
  | [] => []
  | field :: rest => ',' :: ' ' :: (dumpField field ++ dumpFields rest)

/-- `json.dumps(fields)`. -/
def dumps : List (String × Scalar) → List Char
  | [] => ['{', '}']
  | field :: rest => '{' :: (dumpField field ++ dumpFields rest ++ ['}'])

/-! ### Reading -/

def isJsonSpace (c : Char) : Bool := c = ' ' || c = '\t' || c = '\n' || c = '\r'

def skipSpace (text : List Char) : List Char := text.dropWhile isJsonSpace

def readUnit (text : List Char) : Option (Nat × List Char) :=
  if (text.take 4).length = 4 then (readHex (text.take 4)).map fun unit => (unit, text.drop 4) else none

/-- What follows a backslash. -/
def readEscape : List Char → Option (Char × List Char)
  | [] => none
  | c :: rest =>
      if c = 'u' then do
        let (unit, rest) ← readUnit rest
        if unit < 0xD800 ∨ 0xE000 ≤ unit then
          pure (Char.ofNat unit, rest)
        else if unit < 0xDC00 then
          match rest with
          | '\\' :: 'u' :: rest => do
              let (low, rest) ← readUnit rest
              if 0xDC00 ≤ low ∧ low < 0xE000 then
                pure (Char.ofNat (0x10000 + (unit - 0xD800) * 0x400 + (low - 0xDC00)), rest)
              else none
          | _ => none
        else none
      else if c = '/' then some ('/', rest)
      else (shortEscapes.find? fun escape => escape.1 = c).map fun escape => (escape.2, rest)

/-- The characters up to the closing quote. -/
def readString : Nat → List Char → Option (List Char × List Char)
  | 0, _ => none
  | _ + 1, [] => none
  | fuel + 1, c :: rest =>
      if c = '"' then some ([], rest)
      else if c = '\\' then do
        let (c, rest) ← readEscape rest
        let (more, rest) ← readString fuel rest
        pure (c :: more, rest)
      else if c.toNat < 32 then none
      else do
        let (more, rest) ← readString fuel rest
        pure (c :: more, rest)

def digitsValue (digits : List Char) : Nat := Nat.ofDigitChars 10 digits 0

/-- A fraction, where there is one. -/
def readDecimals : List Char → Rat × List Char
  | '.' :: text =>
      let digits := text.takeWhile Char.isDigit
      if digits = [] then (0, '.' :: text)
      else ((digitsValue digits : Rat) / 10 ^ digits.length, text.dropWhile Char.isDigit)
  | text => (0, text)

/-- A power of ten, where there is one. -/
def readExponent : List Char → Rat × List Char
  | [] => (1, [])
  | e :: text =>
      if e = 'e' ∨ e = 'E' then
        let (negative, unsigned) := readSign text
        let digits := unsigned.takeWhile Char.isDigit
        if digits = [] then (1, e :: text)
        else
          let power : Rat := 10 ^ digitsValue digits
          (if negative = true then 1 / power else power, unsigned.dropWhile Char.isDigit)
      else (1, e :: text)

/-- A number without its sign: no digit follows a leading zero. -/
def readUnsigned (text : List Char) : Option (Rat × List Char) := do
  let (whole, rest) ← match text with
    | [] => none
    | c :: rest =>
        if c = '0' then some (0, rest)
        else if c.isDigit = true then some (digitsValue (text.takeWhile Char.isDigit), text.dropWhile Char.isDigit)
        else none
  let (decimals, rest) := readDecimals rest
  let (power, rest) := readExponent rest
  pure (((whole : Rat) + decimals) * power, rest)

def readNumber : List Char → Option (Rat × List Char)
  | '-' :: text => (readUnsigned text).map fun (value, rest) => (-value, rest)
  | text => readUnsigned text

/-- `fields[key] = value`. -/
def setField (fields : Payload) (key : String) (value : Json) : Payload :=
  if fields.any fun field => field.1 = key then fields.map fun field => if field.1 = key then (key, value) else field
  else fields ++ [(key, value)]

/-- The rest of a word. -/
def readWord (word : List Char) (value : Json) (text : List Char) : Option (Json × List Char) :=
  if word.isPrefixOf text then some (value, text.drop word.length) else none

mutual

/-- `scan_once`. -/
def readValue : Nat → List Char → Option (Json × List Char)
  | 0, _ => none
  | _ + 1, [] => none
  | fuel + 1, c :: rest =>
      if c = '"' then
        (readString (fuel + 1) rest).map fun (text, rest) => (.str (String.ofList text), rest)
      else if c = '{' then
        match skipSpace rest with
        | '}' :: rest => some (.obj [], rest)
        | rest => (readFields fuel [] rest).map fun (fields, rest) => (.obj fields, rest)
      else if c = '[' then
        match skipSpace rest with
        | ']' :: rest => some (.arr [], rest)
        | rest => (readItems fuel rest).map fun (items, rest) => (.arr items, rest)
      else if c = 'n' then readWord ['u', 'l', 'l'] .null rest
      else if c = 't' then readWord ['r', 'u', 'e'] (.bool true) rest
      else if c = 'f' then readWord ['a', 'l', 's', 'e'] (.bool false) rest
      else (readNumber (c :: rest)).map fun (value, rest) => (.num value, rest)

/-- The fields from here on, after those in `fields`. -/
def readFields : Nat → Payload → List Char → Option (Payload × List Char)
  | 0, _, _ => none
  | _ + 1, _, [] => none
  | fuel + 1, fields, c :: rest =>
      if c = '"' then do
        let (key, rest) ← readString (fuel + 1) rest
        match skipSpace rest with
        | ':' :: rest => do
            let (value, rest) ← readValue fuel (skipSpace rest)
            match skipSpace rest with
            | ',' :: rest => readFields fuel (setField fields (String.ofList key) value) (skipSpace rest)
            | '}' :: rest => pure (setField fields (String.ofList key) value, rest)
            | _ => none
        | _ => none
      else none

def readItems : Nat → List Char → Option (List Json × List Char)
  | 0, _ => none
  | fuel + 1, text => do
      let (value, rest) ← readValue fuel text
      match skipSpace rest with
      | ',' :: rest => do
          let (more, rest) ← readItems fuel (skipSpace rest)
          pure (value :: more, rest)
      | ']' :: rest => pure ([value], rest)
      | _ => none

end

/-- `json.loads(text)`: one value and nothing else. -/
def loads (text : List Char) : Option Json := do
  let (value, rest) ← readValue (text.length + 1) (skipSpace text)
  if skipSpace rest = [] then pure value else none

/-! ### What was written is read back -/

section

variable {fuel : Nat} {rest : List Char}

theorem readUnit_hexFixed {unit : Nat} (h : unit < 0x10000) :
    readUnit (hexFixed 4 unit ++ rest) = some (unit, rest) := by
  have htake : (hexFixed 4 unit ++ rest).take 4 = hexFixed 4 unit := by
    rw [List.take_append_of_le_length (length_hexFixed 4 unit).ge, List.take_of_length_le (length_hexFixed 4 unit).le]
  have hdrop : (hexFixed 4 unit ++ rest).drop 4 = rest := by
    rw [List.drop_append_of_le_length (length_hexFixed 4 unit).ge, List.drop_of_length_le (length_hexFixed 4 unit).le,
      List.nil_append]
  rw [readUnit, htake, hdrop, length_hexFixed, if_pos rfl, readHex_hexFixed h]
  rfl

theorem readEscape_short {escape : Char × Char} (h : escape ∈ shortEscapes) :
    readEscape (escape.1 :: rest) = some (escape.2, rest) := by
  simp only [shortEscapes, List.mem_cons, List.not_mem_nil, or_false] at h
  rcases h with rfl | rfl | rfl | rfl | rfl | rfl | rfl <;> rfl

theorem readEscape_unit {unit : Nat} (h : unit < 0xD800 ∨ 0xE000 ≤ unit) (hmax : unit < 0x10000) :
    readEscape ('u' :: (hexFixed 4 unit ++ rest)) = some (Char.ofNat unit, rest) := by
  rw [readEscape, if_pos rfl, readUnit_hexFixed hmax, Option.bind_eq_bind, Option.bind_some]
  dsimp only
  rw [if_pos h]
  rfl

theorem readEscape_pair {high low : Nat} (hhigh : high < 0x400) (hlow : low < 0x400) :
    readEscape ('u' :: (hexFixed 4 (0xD800 + high) ++ escapeUnit (0xDC00 + low) ++ rest)) =
      some (Char.ofNat (0x10000 + high * 0x400 + low), rest) := by
  rw [List.append_assoc, readEscape, if_pos rfl, readUnit_hexFixed (by omega), Option.bind_eq_bind, Option.bind_some]
  dsimp only
  rw [if_neg (by omega), if_pos (by omega), escapeUnit, List.cons_append, List.cons_append]
  show (readUnit (hexFixed 4 (0xDC00 + low) ++ rest)).bind _ = _
  rw [readUnit_hexFixed (by omega), Option.bind_some, if_pos (by omega), Nat.add_sub_cancel_left,
    Nat.add_sub_cancel_left]
  rfl

/-- A character is read as it was written. -/
theorem readString_jsonEscape (c : Char) : readString (fuel + 1) (jsonEscape c ++ rest) =
    (readString fuel rest).map fun result => (c :: result.1, result.2) := by
  have hescape : ∀ {text more : List Char}, readEscape text = some (c, more) →
      readString (fuel + 1) ('\\' :: text) = (readString fuel more).map fun result => (c :: result.1, result.2) := by
    intro text more hread
    rw [readString, if_neg (by decide), if_pos rfl, hread, Option.bind_eq_bind, Option.bind_some]
    dsimp only
    cases readString fuel more <;> rfl
  rw [jsonEscape]
  split
  · next escape hfound =>
      have hsame : escape.2 = c := by
        have hholds := List.find?_some hfound
        exact of_decide_eq_true hholds
      rw [← hsame] at hescape ⊢
      exact hescape (readEscape_short (List.mem_of_find?_eq_some hfound))
  · next hnone =>
      rw [List.find?_eq_none] at hnone
      have hquote : c ≠ '"' := fun he => hnone ('"', '"') (by decide) (decide_eq_true he.symm)
      have hslash : c ≠ '\\' := fun he => hnone ('\\', '\\') (by decide) (decide_eq_true he.symm)
      split
      · next hplain =>
          rw [List.singleton_append, readString, if_neg hquote, if_neg hslash, if_neg (by omega)]
          cases readString fuel rest <;> rfl
      · have hvalid : c.toNat < 0xD800 ∨ (0xDFFF < c.toNat ∧ c.toNat < 0x110000) := c.valid
        split
        · next hbasic =>
            refine hescape ?_
            have hread := @readEscape_unit rest c.toNat (by omega) hbasic
            rw [Char.ofNat_toNat] at hread
            exact hread
        · next hbeyond =>
            refine hescape ?_
            have hread := @readEscape_pair rest ((c.toNat - 0x10000) / 0x400) ((c.toNat - 0x10000) % 0x400) (by omega)
              (by omega)
            have hsame : 0x10000 + (c.toNat - 0x10000) / 0x400 * 0x400 + (c.toNat - 0x10000) % 0x400 = c.toNat := by
              omega
            rw [hsame, Char.ofNat_toNat] at hread
            exact hread

theorem readString_quote {text : List Char} (h : text.length < fuel) :
    readString fuel (text.flatMap jsonEscape ++ '"' :: rest) = some (text, rest) := by
  induction text generalizing fuel with
  | nil =>
      obtain ⟨fuel, rfl⟩ := Nat.exists_eq_succ_of_ne_zero (Nat.ne_of_gt h)
      exact if_pos rfl
  | cons c more ih =>
      obtain ⟨fuel, rfl⟩ := Nat.exists_eq_succ_of_ne_zero (Nat.ne_of_gt (Nat.zero_lt_of_lt h))
      rw [List.flatMap_cons, List.append_assoc, readString_jsonEscape, ih (Nat.lt_of_succ_lt_succ h)]
      rfl

/-- A number comes to its end. -/
def endsNumber : List Char → Bool
  | [] => true
  | c :: _ => !c.isDigit && c ≠ '.' && c ≠ 'e' && c ≠ 'E'

theorem takeWhile_digits {digits : List Char} (hdigits : ∀ c ∈ digits, c.isDigit = true)
    (hrest : endsNumber rest = true) :
    (digits ++ rest).takeWhile Char.isDigit = digits ∧ (digits ++ rest).dropWhile Char.isDigit = rest := by
  rw [List.takeWhile_append_of_pos hdigits, List.dropWhile_append_of_pos hdigits]
  cases rest with
  | nil => exact ⟨List.append_nil _, rfl⟩
  | cons c more =>
      have hc : c.isDigit = false := by
        simp only [endsNumber, Bool.and_eq_true, Bool.not_eq_true'] at hrest
        exact hrest.1.1.1
      rw [List.takeWhile_cons, List.dropWhile_cons, hc]
      exact ⟨List.append_nil _, rfl⟩

/-- Only zero starts with a zero. -/
theorem head_toDigits {n : Nat} (h : 0 < n) : ∃ c more, Nat.toDigits 10 n = c :: more ∧ c ≠ '0' := by
  induction n using Nat.strongRecOn with
  | ind n ih =>
      rw [Nat.toDigits_eq_if (by decide)]
      split
      · next hsmall =>
          have hall : ∀ n < 10, 0 < n → n.digitChar ≠ '0' := by decide
          exact ⟨_, _, rfl, hall n hsmall h⟩
      · obtain ⟨c, more, htext, hc⟩ := ih (n / 10) (by omega) (by omega)
        exact ⟨c, more ++ [(n % 10).digitChar], by rw [htext]; rfl, hc⟩

theorem readUnsigned_toDigits (n : Nat) (hrest : endsNumber rest = true) :
    readUnsigned (Nat.toDigits 10 n ++ rest) = some ((n : Rat), rest) := by
  have hends : readDecimals rest = (0, rest) ∧ readExponent rest = (1, rest) := by
    cases rest with
    | nil => exact ⟨rfl, rfl⟩
    | cons c more =>
        simp only [endsNumber, Bool.and_eq_true, decide_eq_true_eq, Bool.not_eq_true'] at hrest
        obtain ⟨⟨⟨-, hdot⟩, he⟩, hE⟩ := hrest
        refine ⟨?_, ?_⟩
        · rw [readDecimals]
          intro text hsplit
          exact hdot (List.cons.inj hsplit).1
        · exact if_neg (by simp [he, hE])
  have hwhole : ∀ {whole : Nat}, ((whole : Rat) + 0) * 1 = (whole : Rat) := by simp
  rcases Nat.eq_zero_or_pos n with rfl | hpos
  · simp only [readUnsigned, show Nat.toDigits 10 0 = ['0'] from rfl, List.singleton_append, if_pos,
      Option.bind_eq_bind, Option.bind_some, hends.1, hends.2]
    simp
  · obtain ⟨c, more, htext, hc⟩ := head_toDigits hpos
    have hdigits : ∀ c ∈ Nat.toDigits 10 n, c.isDigit = true := fun c hc =>
      Nat.isDigit_of_mem_toDigits (by decide) (by decide) hc
    obtain ⟨htake, hdrop⟩ := takeWhile_digits hdigits hrest
    have hfirst : c.isDigit = true := hdigits c (by rw [htext]; exact List.mem_cons_self)
    rw [htext, List.cons_append] at htake hdrop ⊢
    have hvalue : digitsValue (c :: more) = n := by
      rw [digitsValue, ← htext]
      exact Nat.ofDigitChars_ten_toDigits
    simp only [readUnsigned, if_neg hc, hfirst, if_true, htake, hdrop, hvalue, Option.bind_eq_bind, Option.bind_some,
      hends.1, hends.2]
    simp

theorem skipSpace_cons {c : Char} (h : isJsonSpace c = false) : skipSpace (c :: rest) = c :: rest := by
  rw [skipSpace, List.dropWhile_cons, h, if_neg (by decide)]

theorem skipSpace_space : skipSpace (' ' :: rest) = skipSpace rest := rfl

/-- A value starts with a quote or a digit, so that there is no space to skip before it. -/
theorem dumps_head (value : Scalar) : ∃ c more, value.dumps = c :: more ∧ (c = '"' ∨ c.isDigit = true) := by
  cases value with
  | str text => exact ⟨_, _, rfl, Or.inl rfl⟩
  | int n =>
      cases htext : Nat.toDigits 10 n with
      | nil => exact absurd htext Nat.toDigits_ne_nil
      | cons c more =>
          exact ⟨c, more, htext, Or.inr (Nat.isDigit_of_mem_toDigits (by decide) (by decide)
            (htext ▸ List.mem_cons_self))⟩

theorem skipSpace_dumps (value : Scalar) : skipSpace (value.dumps ++ rest) = value.dumps ++ rest := by
  obtain ⟨c, more, htext, hc⟩ := dumps_head value
  rw [htext, List.cons_append]
  refine skipSpace_cons ?_
  rcases hc with rfl | hdigit
  · rfl
  · rw [isJsonSpace]
    have hne : ∀ mark : Char, mark.isDigit = false → (decide (c = mark)) = false := fun mark hmark =>
      decide_eq_false fun he => by rw [he, hmark] at hdigit; cases hdigit
    rw [hne ' ' rfl, hne '\t' rfl, hne '\n' rfl, hne '\r' rfl]
    rfl

theorem length_le_quote (text : String) : text.toList.length < (quote text).length := by
  have hescape : ∀ c, 1 ≤ (jsonEscape c).length := fun c => by
    rw [jsonEscape]
    split
    · exact Nat.le_succ _
    · split
      · exact Nat.le_refl _
      · split
        · exact Nat.succ_le_succ (Nat.zero_le _)
        · exact Nat.succ_le_succ (Nat.zero_le _)
  have hflat : ∀ chars : List Char, chars.length ≤ (chars.flatMap jsonEscape).length := fun chars => by
    induction chars with
    | nil => exact Nat.le_refl _
    | cons c more ih =>
        have hc := hescape c
        rw [List.flatMap_cons, List.length_append, List.length_cons]
        omega
  have htext := hflat text.toList
  simp only [quote, List.length_cons, List.length_append]
  omega

/-- A value is read as it was written. -/
theorem readValue_dumps (value : Scalar) (hfuel : value.dumps.length ≤ fuel) (hrest : endsNumber rest = true) :
    readValue (fuel + 1) (value.dumps ++ rest) = some (value.json, rest) := by
  cases value with
  | str text =>
      have hlength : text.toList.length < fuel + 1 := by
        have hquote := length_le_quote text
        have hfuel : (quote text).length ≤ fuel := hfuel
        omega
      have hread := @readString_quote (fuel + 1) rest text.toList hlength
      rw [Scalar.dumps, quote, List.cons_append, List.append_assoc, List.singleton_append, readValue, if_pos rfl, hread,
        Option.map_some]
      exact congrArg (fun text => some (Json.str text, rest)) String.ofList_toList
  | int n =>
      have hread := readUnsigned_toDigits n hrest
      obtain ⟨c, more, htext, hc⟩ := dumps_head (.int n)
      have hdigit : c.isDigit = true := by
        rcases hc with rfl | hdigit
        · have hmem : '"' ∈ Nat.toDigits 10 n := by
            rw [show Nat.toDigits 10 n = '"' :: more from htext]
            exact List.mem_cons_self
          exact Nat.isDigit_of_mem_toDigits (by decide) (by decide) hmem
        · exact hdigit
      have hne : ∀ mark : Char, mark.isDigit = false → c ≠ mark := by
        rintro mark hmark rfl
        rw [hmark] at hdigit
        cases hdigit
      have hunsigned : readNumber (c :: (more ++ rest)) = readUnsigned (c :: (more ++ rest)) := by
        rw [readNumber]
        intro text hsplit
        exact hne '-' rfl (List.cons.inj hsplit).1
      rw [show Nat.toDigits 10 n = c :: more from htext, List.cons_append] at hread
      rw [htext, List.cons_append, readValue, if_neg (hne '"' rfl), if_neg (hne '{' rfl), if_neg (hne '[' rfl),
        if_neg (hne 'n' rfl), if_neg (hne 't' rfl), if_neg (hne 'f' rfl), hunsigned, hread]
      rfl

/-- A key that is new comes last. -/
theorem setField_new {fields : Payload} {key : String} {value : Json} (h : key ∉ fields.map Prod.fst) :
    setField fields key value = fields ++ [(key, value)] := by
  refine if_neg fun hany => ?_
  obtain ⟨field, hfield, he⟩ := List.any_eq_true.mp hany
  exact h (List.mem_map.mpr ⟨field, hfield, of_decide_eq_true he⟩)

theorem skipSpace_dumpField (field : String × Scalar) :
    skipSpace (dumpField field ++ rest) = dumpField field ++ rest := by
  rw [dumpField, quote, List.cons_append, List.cons_append]
  exact skipSpace_cons rfl

/-- One field, up to what comes after it. -/
theorem readFields_dumpField {field : String × Scalar} {fields : Payload} {mark : Char}
    (hfuel : (dumpField field).length ≤ fuel) (hmark : mark = ',' ∨ mark = '}') :
    readFields (fuel + 1) fields (dumpField field ++ mark :: rest) =
      if mark = ',' then readFields fuel (setField fields field.1 field.2.json) (skipSpace rest)
      else some (setField fields field.1 field.2.json, rest) := by
  have hlengths : field.1.toList.length < fuel + 1 ∧ field.2.dumps.length + 1 ≤ fuel := by
    have hkey := length_le_quote field.1
    simp only [dumpField, List.length_append, List.length_cons] at hfuel
    omega
  obtain ⟨fuel, rfl⟩ := Nat.exists_eq_succ_of_ne_zero (Nat.ne_of_gt (Nat.zero_lt_of_lt hlengths.2))
  have hends : endsNumber (mark :: rest) = true ∧ isJsonSpace mark = false := by
    rcases hmark with rfl | rfl <;> exact ⟨rfl, rfl⟩
  have hkey := @readString_quote (fuel + 1 + 1) (':' :: ' ' :: (field.2.dumps ++ mark :: rest)) field.1.toList
    hlengths.1
  have hvalue := readValue_dumps field.2 (Nat.le_of_succ_le_succ hlengths.2) hends.1
  rw [dumpField, quote, List.cons_append, List.cons_append, List.append_assoc, List.append_assoc, List.singleton_append,
    List.cons_append, List.cons_append, readFields, if_pos rfl, hkey]
  simp only [Option.bind_eq_bind, Option.bind_some, skipSpace_cons (show isJsonSpace ':' = false from rfl),
    skipSpace_space, skipSpace_dumps, hvalue, skipSpace_cons hends.2, String.ofList_toList]
  rcases hmark with rfl | rfl
  · rfl
  · rfl

theorem readFields_dumpFields {field : String × Scalar} {more : List (String × Scalar)} {fields : Payload}
    (hfuel : (dumpField field ++ dumpFields more).length ≤ fuel)
    (hkeys : (fields.map Prod.fst ++ (field :: more).map Prod.fst).Nodup) :
    readFields (fuel + 1) fields (dumpField field ++ (dumpFields more ++ '}' :: rest)) =
      some (fields ++ (field :: more).map fun field => (field.1, field.2.json), rest) := by
  have hnew : setField fields field.1 field.2.json = fields ++ [(field.1, field.2.json)] := setField_new fun hmem =>
    (List.nodup_append.mp hkeys).2.2 _ hmem _ List.mem_cons_self rfl
  rw [List.length_append] at hfuel
  induction more generalizing fuel field fields with
  | nil =>
      rw [dumpFields, List.nil_append, readFields_dumpField (by omega) (Or.inr rfl), if_neg (by decide), hnew]
      rfl
  | cons next more ih =>
      have hnext : skipSpace (' ' :: (dumpField next ++ (dumpFields more ++ '}' :: rest))) =
          dumpField next ++ (dumpFields more ++ '}' :: rest) := skipSpace_space.trans (skipSpace_dumpField next)
      have hfuel' : (dumpField next).length + (dumpFields more).length + 2 ≤ fuel := by
        simp only [dumpFields, List.length_cons, List.length_append] at hfuel
        omega
      obtain ⟨fuel, rfl⟩ := Nat.exists_eq_succ_of_ne_zero (Nat.ne_of_gt (Nat.zero_lt_of_lt hfuel'))
      have hkeys' : ((fields ++ [(field.1, field.2.json)]).map Prod.fst ++ (next :: more).map Prod.fst).Nodup := by
        rw [List.map_append, List.append_assoc]
        exact hkeys
      have hnew' := @setField_new (fields ++ [(field.1, field.2.json)]) next.1 next.2.json fun hmem =>
        (List.nodup_append.mp hkeys').2.2 _ hmem _ List.mem_cons_self rfl
      rw [dumpFields, List.cons_append, List.cons_append, List.append_assoc,
        readFields_dumpField (by omega) (Or.inl rfl), if_pos rfl, hnew, hnext,
        ih (by omega) hkeys' hnew',
        List.append_assoc]
      rfl

/-- What was written is read back. -/
theorem loads_dumps {fields : List (String × Scalar)} (hkeys : (fields.map Prod.fst).Nodup) :
    loads (dumps fields) = some (.obj (fields.map fun field => (field.1, field.2.json))) := by
  cases fields with
  | nil => rfl
  | cons field more =>
      have hlength : (dumps (field :: more)).length = (dumpField field ++ dumpFields more).length + 1 + 1 := by
        rw [dumps, List.length_cons, List.length_append]
        rfl
      have hread := @readFields_dumpFields ((dumpField field ++ dumpFields more).length + 1) [] field more []
        (Nat.le_succ _) hkeys
      have hspace : skipSpace (dumps (field :: more)) = dumps (field :: more) := skipSpace_cons rfl
      have hinner : skipSpace (dumpField field ++ (dumpFields more ++ ['}'])) =
          dumpField field ++ (dumpFields more ++ ['}']) := skipSpace_dumpField field
      have hobject : readValue ((dumps (field :: more)).length + 1) (dumps (field :: more)) =
          some (.obj ((field :: more).map fun field => (field.1, field.2.json)), []) := by
        rw [hlength, dumps, readValue, if_neg (by decide), if_pos rfl, List.append_assoc, hinner]
        show (readFields _ [] (dumpField field ++ (dumpFields more ++ ['}']))).map _ = _
        rw [hread]
        rfl
      rw [loads, hspace, hobject]
      rfl

end

end VoiceCampaign
