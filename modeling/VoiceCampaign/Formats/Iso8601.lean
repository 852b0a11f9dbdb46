import Mathlib.Algebra.Order.Group.Nat
import Mathlib.Data.List.TakeWhile

/-!
# Dates and times as text

The extended format of ISO 8601 as Python's `datetime` module writes it with `isoformat` and reads it with
`fromisoformat`: fixed decimal fields, a fraction of six digits where there is one, and the offset from UTC.
-/

namespace Formats

/-! ### Decimal fields -/

/-- `n` in `width` decimal digits: `f"{n:0{width}d}"`, for an `n` below `10 ^ width`. -/
def fixed : Nat → Nat → List Char
  | 0, _ => []
  | width + 1, n => fixed width (n / 10) ++ [Nat.digitChar (n % 10)]

/-- Read `width` decimal digits off the front. -/
def readFixed (width : Nat) (text : List Char) : Option (Nat × List Char) :=
  if (text.take width).length = width && (text.take width).all Char.isDigit then
    some (Nat.ofDigitChars 10 (text.take width) 0, text.drop width)
  else none

@[simp] theorem length_fixed (width n : Nat) : (fixed width n).length = width := by
  induction width generalizing n with
  | zero => rfl
  | succ width ih => simp [fixed, ih]

theorem isDigit_of_mem_fixed {width n : Nat} {c : Char} (h : c ∈ fixed width n) : c.isDigit = true := by
  induction width generalizing n with
  | zero => cases h
  | succ width ih =>
      rcases List.mem_append.mp h with hfront | hlast
      · exact ih hfront
      · rw [List.mem_singleton.mp hlast, Nat.isDigit_digitChar]
        exact decide_eq_true (Nat.mod_lt n (by decide))

theorem ofDigitChars_fixed {width n : Nat} (hn : n < 10 ^ width) : Nat.ofDigitChars 10 (fixed width n) 0 = n := by
  induction width generalizing n with
  | zero =>
      rw [Nat.pow_zero] at hn
      rw [Nat.lt_one_iff.mp hn]
      rfl
  | succ width ih =>
      have hfront : n / 10 < 10 ^ width := Nat.div_lt_of_lt_mul (by rw [Nat.pow_succ'] at hn; exact hn)
      rw [fixed, Nat.ofDigitChars_append, ih hfront,
        Nat.ofDigitChars_cons_digitChar_of_lt_ten (Nat.mod_lt n (by decide)), Nat.ofDigitChars_nil]
      exact Nat.div_add_mod n 10

theorem readFixed_fixed {width n : Nat} (hn : n < 10 ^ width) (rest : List Char) :
    readFixed width (fixed width n ++ rest) = some (n, rest) := by
  have htake : (fixed width n ++ rest).take width = fixed width n := by
    rw [List.take_append_of_le_length (length_fixed width n).ge, List.take_of_length_le (length_fixed width n).le]
  have hdrop : (fixed width n ++ rest).drop width = rest := by
    rw [List.drop_append_of_le_length (length_fixed width n).ge, List.drop_of_length_le (length_fixed width n).le,
      List.nil_append]
  have hdigits : (fixed width n).all Char.isDigit = true := List.all_eq_true.mpr fun _ => isDigit_of_mem_fixed
  rw [readFixed, htake, hdrop, ofDigitChars_fixed hn, hdigits, length_fixed]
  simp

/-- Nothing of a decimal field is taken for a separator. -/
theorem ne_of_mem_fixed {width n : Nat} {c mark : Char} (h : c ∈ fixed width n)
    (hmark : mark.isDigit = false) : c ≠ mark := by
  rintro rfl
  rw [isDigit_of_mem_fixed h] at hmark
  cases hmark

/-! ### Clock times -/

/-- Hours, minutes, seconds and microseconds. -/
structure Clock where
  hour : Nat
  minute : Nat
  second : Nat
  microsecond : Nat
  deriving DecidableEq, Repr

/-- The ranges of the fields. -/
def Clock.InRange (clock : Clock) : Prop :=
  clock.hour < 24 ∧ clock.minute < 60 ∧ clock.second < 60 ∧ clock.microsecond < 1000000

instance (clock : Clock) : Decidable clock.InRange := inferInstanceAs (Decidable (_ ∧ _))

/-- The time a number of microseconds after midnight. -/
def Clock.ofMicros (micros : Nat) : Clock where
  hour := micros / 3600000000
  minute := micros / 60000000 % 60
  second := micros / 1000000 % 60
  microsecond := micros % 1000000

def Clock.toMicros (clock : Clock) : Nat :=
  ((clock.hour * 60 + clock.minute) * 60 + clock.second) * 1000000 + clock.microsecond

theorem Clock.toMicros_ofMicros (micros : Nat) : (Clock.ofMicros micros).toMicros = micros := by
  simp only [Clock.ofMicros, Clock.toMicros]
  omega

theorem Clock.inRange_ofMicros {micros : Nat} (h : micros < 86400000000) : (Clock.ofMicros micros).InRange := by
  refine ⟨?_, Nat.mod_lt _ (by decide), Nat.mod_lt _ (by decide), Nat.mod_lt _ (by decide)⟩
  show micros / 3600000000 < 24
  omega

/-- The fraction of a second, where there is one. -/
def fractionText (microsecond : Nat) : List Char :=
  if microsecond = 0 then [] else '.' :: fixed 6 microsecond

/-- `HH:MM:SS[.ffffff]`, as `time.isoformat` writes it. -/
def Clock.text (clock : Clock) : List Char :=
  fixed 2 clock.hour ++ ':' :: (fixed 2 clock.minute ++ ':' :: (fixed 2 clock.second ++ fractionText clock.microsecond))

/-- Up to six digits of a fraction count, as if the others were zeros; what follows them has to be digits. -/
def readFraction (digits : List Char) : Option Nat :=
  if digits.isEmpty || !digits.all Char.isDigit then none
  else some (Nat.ofDigitChars 10 (digits.take 6) 0 * 10 ^ (6 - digits.length))

/-- `HH[:?MM[:?SS[{.,}fff[fff]]]]`: `_parse_hh_mm_ss_ff`. The first separator decides for the second. -/
def readClock (text : List Char) : Option Clock := do
  let (hour, rest) ← readFixed 2 text
  if rest.isEmpty then
    pure ⟨hour, 0, 0, 0⟩
  else
    let hasSep := rest.head? = some ':'
    let (minute, rest) ← readFixed 2 (if hasSep then rest.tail else rest)
    if rest.isEmpty then
      pure ⟨hour, minute, 0, 0⟩
    else if hasSep ∧ rest.head? ≠ some ':' then
      none
    else
      let (second, rest) ← readFixed 2 (if hasSep then rest.tail else rest)
      match rest with
      | [] => pure ⟨hour, minute, second, 0⟩
      | mark :: digits =>
          if mark = '.' ∨ mark = ',' then do
            let microsecond ← readFraction digits
            pure ⟨hour, minute, second, microsecond⟩
          else none

theorem readFraction_fixed {microsecond : Nat} (h : microsecond < 1000000) :
    readFraction (fixed 6 microsecond) = some microsecond := by
  have hne : (fixed 6 microsecond).isEmpty = false := by
    rw [List.isEmpty_eq_false_iff_exists_mem]
    exact ⟨_, List.mem_append_right _ (List.mem_singleton_self _)⟩
  have hdigits : (fixed 6 microsecond).all Char.isDigit = true := List.all_eq_true.mpr fun _ => isDigit_of_mem_fixed
  rw [readFraction, hne, hdigits, List.take_of_length_le (length_fixed 6 microsecond).le, ofDigitChars_fixed h,
    length_fixed]
  simp

theorem readClock_text {clock : Clock} (h : clock.InRange) : readClock clock.text = some clock := by
  obtain ⟨hhour, hminute, hsecond, hmicro⟩ := h
  rw [readClock, Clock.text, readFixed_fixed (hhour.trans (by decide))]
  simp only [Option.bind_eq_bind, Option.bind_some, List.isEmpty_cons, Bool.false_eq_true, if_false, List.head?_cons,
    if_true, List.tail_cons, readFixed_fixed (hminute.trans (show 60 < 10 ^ 2 by decide)), ne_eq, not_true_eq_false,
    and_false, readFixed_fixed (hsecond.trans (show 60 < 10 ^ 2 by decide))]
  rw [fractionText]
  by_cases hzero : clock.microsecond = 0
  · rw [if_pos hzero]
    exact congrArg some (by rw [← hzero])
  · rw [if_neg hzero]
    simp [readFraction_fixed hmicro]

/-! ### Offsets -/

/-- A day, in microseconds. -/
def dayMicros : Nat := 86400000000

/-- `±HH:MM[:SS[.ffffff]]`, for an offset in microseconds. -/
def offsetText (offset : Int) : List Char :=
  let clock := Clock.ofMicros offset.natAbs
  (if offset < 0 then '-' else '+') :: (fixed 2 clock.hour ++ ':' :: (fixed 2 clock.minute ++
    (if clock.second = 0 ∧ clock.microsecond = 0 then []
     else ':' :: (fixed 2 clock.second ++ fractionText clock.microsecond))))

/-- What an offset starts with. -/
def isOffsetMark (c : Char) : Bool := c = '+' || c = '-' || c = 'Z'

/-- Read an offset: strictly less than a day. -/
def readOffset : List Char → Option Int
  | [] => none
  | mark :: text =>
      if mark = 'Z' then (if text.isEmpty then some 0 else none)
      else do
        let clock ← readClock text
        if clock.toMicros < dayMicros then
          pure (if mark = '-' then -(clock.toMicros : Int) else clock.toMicros)
        else none

theorem readClock_offset {clock : Clock} (h : clock.InRange) :
    readClock (fixed 2 clock.hour ++ ':' :: (fixed 2 clock.minute ++
      (if clock.second = 0 ∧ clock.microsecond = 0 then []
       else ':' :: (fixed 2 clock.second ++ fractionText clock.microsecond)))) = some clock := by
  split
  · next hzero =>
      obtain ⟨hhour, hminute, -, -⟩ := h
      have hread := readFixed_fixed (hminute.trans (show 60 < 10 ^ 2 by decide)) []
      rw [readClock, readFixed_fixed (hhour.trans (by decide))]
      simp only [Option.bind_eq_bind, Option.bind_some, List.isEmpty_cons, Bool.false_eq_true, if_false,
        List.head?_cons, if_true, List.tail_cons, hread, List.isEmpty_nil]
      cases clock
      simp_all
  · exact readClock_text h

theorem readOffset_text {offset : Int} (h : offset.natAbs < dayMicros) :
    readOffset (offsetText offset) = some offset := by
  have hread := readClock_offset (Clock.inRange_ofMicros h)
  rw [offsetText, readOffset, hread]
  by_cases hneg : offset < 0
  · rw [if_pos hneg, if_neg (by decide)]
    simp only [Option.bind_eq_bind, Option.bind_some, Clock.toMicros_ofMicros, h, if_true]
    exact congrArg some (by omega)
  · rw [if_neg hneg, if_neg (by decide)]
    simp only [Option.bind_eq_bind, Option.bind_some, Clock.toMicros_ofMicros, h, if_true]
    rw [if_neg (by decide)]
    exact congrArg some (by omega)

theorem isOffsetMark_of_mem_text {clock : Clock} {c : Char} (h : c ∈ clock.text) : isOffsetMark c = false := by
  have hdigit : ∀ {width n}, c ∈ fixed width n → isOffsetMark c = false := fun hmem => by
    simp [isOffsetMark, ne_of_mem_fixed hmem]
  simp only [Clock.text, fractionText, List.mem_append, List.mem_cons] at h
  rcases h with h | rfl | h | rfl | h | h
  · exact hdigit h
  · rfl
  · exact hdigit h
  · rfl
  · exact hdigit h
  · split at h
    · cases h
    · rcases List.mem_cons.mp h with rfl | h
      · rfl
      · exact hdigit h

/-! ### Times with an offset -/

/-- A clock time, and its offset from UTC if it has one. -/
structure ZonedClock where
  clock : Clock
  offset : Option Int
  deriving DecidableEq, Repr

def ZonedClock.InRange (zoned : ZonedClock) : Prop :=
  zoned.clock.InRange ∧ ∀ offset ∈ zoned.offset, offset.natAbs < dayMicros

/-- `time.isoformat`. -/
def ZonedClock.text (zoned : ZonedClock) : List Char := zoned.clock.text ++ zoned.offset.elim [] offsetText

/-- `time.fromisoformat`. -/
def readZonedClock (text : List Char) : Option ZonedClock := do
  let clock ← readClock (text.takeWhile fun c => !isOffsetMark c)
  if clock.InRange then
    match text.dropWhile fun c => !isOffsetMark c with
    | [] => pure ⟨clock, none⟩
    | mark :: rest => do
        let offset ← readOffset (mark :: rest)
        pure ⟨clock, some offset⟩
  else none

theorem takeWhile_text (clock : Clock) {mark : Char} (hmark : isOffsetMark mark = true) (rest : List Char) :
    ((clock.text ++ mark :: rest).takeWhile fun c => !isOffsetMark c) = clock.text ∧
      ((clock.text ++ mark :: rest).dropWhile fun c => !isOffsetMark c) = mark :: rest := by
  have hclear : ∀ c ∈ clock.text, (!isOffsetMark c) = true := fun c hc => by
    rw [isOffsetMark_of_mem_text hc]
    rfl
  constructor
  · rw [List.takeWhile_append_of_pos hclear, List.takeWhile_cons_of_neg (by simp [hmark]), List.append_nil]
  · rw [List.dropWhile_append_of_pos hclear, List.dropWhile_cons_of_neg (by simp [hmark])]

theorem readZonedClock_text {zoned : ZonedClock} (h : zoned.InRange) : readZonedClock zoned.text = some zoned := by
  obtain ⟨clock, offset⟩ := zoned
  obtain ⟨hclock, hoffset⟩ := h
  cases offset with
  | none =>
      have hclear : ∀ c ∈ clock.text, (!isOffsetMark c) = true := fun c hc => by
        rw [isOffsetMark_of_mem_text hc]
        rfl
      have htext : ZonedClock.text ⟨clock, none⟩ = clock.text := List.append_nil _
      rw [readZonedClock, htext, List.takeWhile_eq_self_iff.mpr hclear, List.dropWhile_eq_nil_iff.mpr hclear,
        readClock_text hclock]
      exact if_pos hclock
  | some offset =>
      have hmark : isOffsetMark (if offset < 0 then '-' else '+') = true := by
        split <;> rfl
      have htext : ZonedClock.text ⟨clock, some offset⟩ = clock.text ++ offsetText offset := rfl
      have hread := readOffset_text (hoffset offset rfl)
      rw [offsetText] at htext hread
      obtain ⟨htake, hdrop⟩ := takeWhile_text clock hmark _
      rw [readZonedClock, htext, htake, hdrop, readClock_text hclock, Option.bind_eq_bind, Option.bind_some,
        if_pos hclock]
      dsimp only
      rw [hread]
      rfl

/-! ### Dates -/

structure Date where
  year : Nat
  month : Nat
  day : Nat
  deriving DecidableEq, Repr

def isLeap (year : Nat) : Bool := year % 4 = 0 && (year % 100 ≠ 0 || year % 400 = 0)

def daysInMonth (year month : Nat) : Nat :=
  if month = 2 then (if isLeap year = true then 29 else 28)
  else if month = 4 ∨ month = 6 ∨ month = 9 ∨ month = 11 then 30
  else 31

/-- A date of the proleptic Gregorian calendar, from year 1 to year 9999. -/
def Date.InRange (date : Date) : Prop :=
  1 ≤ date.year ∧ date.year ≤ 9999 ∧ 1 ≤ date.month ∧ date.month ≤ 12 ∧ 1 ≤ date.day ∧
    date.day ≤ daysInMonth date.year date.month

instance (date : Date) : Decidable date.InRange := inferInstanceAs (Decidable (_ ∧ _))

theorem daysInMonth_le (year month : Nat) : daysInMonth year month ≤ 31 := by
  rw [daysInMonth]
  split
  · split <;> decide
  · split <;> decide

/-- `YYYY-MM-DD`. -/
def Date.text (date : Date) : List Char :=
  fixed 4 date.year ++ '-' :: (fixed 2 date.month ++ '-' :: fixed 2 date.day)

/-- Read `YYYY-MM-DD` or `YYYYMMDD` off the front. -/
def readDate (text : List Char) : Option (Date × List Char) := do
  let (year, rest) ← readFixed 4 text
  let hasSep := rest.head? = some '-'
  let (month, rest) ← readFixed 2 (if hasSep then rest.tail else rest)
  if (rest.head? = some '-') = hasSep then
    let (day, rest) ← readFixed 2 (if hasSep then rest.tail else rest)
    pure (⟨year, month, day⟩, rest)
  else none

theorem readDate_text {date : Date} (h : date.InRange) (rest : List Char) :
    readDate (date.text ++ rest) = some (date, rest) := by
  obtain ⟨-, hyear, -, hmonth, -, hday⟩ := h
  have hday' := hday.trans (daysInMonth_le _ _)
  have hsplit : date.text ++ rest =
      fixed 4 date.year ++ '-' :: (fixed 2 date.month ++ '-' :: (fixed 2 date.day ++ rest)) := by
    simp [Date.text]
  rw [readDate, hsplit, readFixed_fixed (by omega)]
  simp only [Option.bind_eq_bind, Option.bind_some, List.head?_cons, if_true, List.tail_cons,
    readFixed_fixed (show date.month < 10 ^ 2 by omega), readFixed_fixed (show date.day < 10 ^ 2 by omega)]
  rfl

/-! ### Dates with a time -/

structure DateTime where
  date : Date
  time : ZonedClock
  deriving DecidableEq, Repr

def DateTime.InRange (stamp : DateTime) : Prop := stamp.date.InRange ∧ stamp.time.InRange

/-- `datetime.isoformat`. -/
def DateTime.isoformat (stamp : DateTime) : List Char := stamp.date.text ++ 'T' :: stamp.time.text

/-- `datetime.fromisoformat`, but for dates given by their week: any character stands between the date and
the time, and a date alone is midnight. -/
def DateTime.fromisoformat (text : List Char) : Option DateTime := do
  let (date, rest) ← readDate text
  if date.InRange then
    match rest.tail with
    | [] => pure ⟨date, ⟨⟨0, 0, 0, 0⟩, none⟩⟩
    | first :: more => do
        let time ← readZonedClock (first :: more)
        pure ⟨date, time⟩
  else none

/-- What `isoformat` writes, `fromisoformat` reads back. -/
theorem DateTime.fromisoformat_isoformat {stamp : DateTime} (h : stamp.InRange) :
    fromisoformat stamp.isoformat = some stamp := by
  obtain ⟨hdate, htime⟩ := h
  have hread := readZonedClock_text htime
  have hne : stamp.time.text ≠ [] := by
    intro hnil
    have hlength := congrArg List.length hnil
    simp [ZonedClock.text, Clock.text] at hlength
  rw [fromisoformat, isoformat, readDate_text hdate]
  simp only [Option.bind_eq_bind, Option.bind_some, if_pos hdate, List.tail_cons]
  split
  · next hnil => exact absurd hnil hne
  · next first more htext =>
      rw [← htext, hread]
      rfl

end Formats
