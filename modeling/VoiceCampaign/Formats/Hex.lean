import Mathlib.Algebra.Order.Group.Nat
import Mathlib.Data.List.Basic

/-!
# Hexadecimal fields

Numbers in a fixed number of hexadecimal digits, written in lower case and read in either, and what Python's
`int` and `uuid.UUID` read as a number. Text beyond ASCII holds no digits here.
-/

namespace Formats

def hexDigit? (c : Char) : Option Nat :=
  if '0' ≤ c ∧ c ≤ '9' then some (c.toNat - '0'.toNat)
  else if 'a' ≤ c ∧ c ≤ 'f' then some (c.toNat - 'a'.toNat + 10)
  else if 'A' ≤ c ∧ c ≤ 'F' then some (c.toNat - 'A'.toNat + 10)
  else none

/-- `f"{n:0{width}x}"`, for an `n` below `16 ^ width`. -/
def hexFixed : Nat → Nat → List Char
  | 0, _ => []
  | width + 1, n => hexFixed width (n / 16) ++ [Nat.digitChar (n % 16)]

/-- The number that follows `value`, digit by digit. -/
def readHexFrom (value : Nat) : List Char → Option Nat
  | [] => some value
  | c :: rest => (hexDigit? c).bind fun digit => readHexFrom (16 * value + digit) rest

def readHex (text : List Char) : Option Nat := readHexFrom 0 text

theorem hexDigit?_digitChar {n : Nat} (h : n < 16) : hexDigit? n.digitChar = some n := by
  have hall : ∀ n < 16, hexDigit? n.digitChar = some n := by decide +kernel
  exact hall n h

@[simp] theorem length_hexFixed (width n : Nat) : (hexFixed width n).length = width := by
  induction width generalizing n with
  | zero => rfl
  | succ width ih => simp [hexFixed, ih]

theorem hexDigit?_of_mem {width n : Nat} {c : Char} (h : c ∈ hexFixed width n) : (hexDigit? c).isSome = true := by
  induction width generalizing n with
  | zero => cases h
  | succ width ih =>
      rcases List.mem_append.mp h with hfront | hlast
      · exact ih hfront
      · rw [List.mem_singleton.mp hlast, hexDigit?_digitChar (Nat.mod_lt n (by decide))]
        rfl

theorem readHexFrom_append (value : Nat) (front back : List Char) :
    readHexFrom value (front ++ back) = (readHexFrom value front).bind fun value => readHexFrom value back := by
  induction front generalizing value with
  | nil => rfl
  | cons c rest ih =>
      simp only [List.cons_append, readHexFrom]
      cases hexDigit? c with
      | none => rfl
      | some digit => exact ih _

theorem readHex_hexFixed {width n : Nat} (hn : n < 16 ^ width) : readHex (hexFixed width n) = some n := by
  induction width generalizing n with
  | zero =>
      rw [Nat.pow_zero] at hn
      rw [Nat.lt_one_iff.mp hn]
      rfl
  | succ width ih =>
      have hfront : n / 16 < 16 ^ width := Nat.div_lt_of_lt_mul (by rw [Nat.pow_succ'] at hn; exact hn)
      have hread := ih hfront
      rw [readHex] at hread ⊢
      rw [hexFixed, readHexFrom_append, hread]
      simp only [Option.bind_some, readHexFrom, hexDigit?_digitChar (Nat.mod_lt n (show 0 < 16 by decide))]
      exact congrArg some (Nat.div_add_mod n 16)

/-- No digit is a mark of another kind. -/
theorem ne_of_mem_hexFixed {width n : Nat} {c mark : Char} (h : c ∈ hexFixed width n)
    (hmark : hexDigit? mark = none) : c ≠ mark := by
  rintro rfl
  have hdigit := hexDigit?_of_mem h
  rw [hmark] at hdigit
  cases hdigit

/-- The low digits stand on their own. -/
theorem hexFixed_add (front back n : Nat) :
    hexFixed (front + back) n = hexFixed front (n / 16 ^ back) ++ hexFixed back n := by
  induction back generalizing n with
  | zero => simp [hexFixed]
  | succ back ih =>
      rw [← Nat.add_assoc, hexFixed, hexFixed, ih, List.append_assoc, Nat.div_div_eq_div_mul, Nat.pow_succ']

/-! ### Integers -/

/-- A sign, where there is one: whether it is a minus. -/
def readSign : List Char → Bool × List Char
  | '-' :: text => (true, text)
  | '+' :: text => (false, text)
  | text => (false, text)

def isAsciiSpace (c : Char) : Bool := c = ' ' || (9 ≤ c.toNat && c.toNat ≤ 13)

/-- `text.strip` of what `p` holds for. -/
def stripOf (p : Char → Bool) (text : List Char) : List Char := ((text.dropWhile p).reverse.dropWhile p).reverse

/-- The digits that follow `value`; single underscores may stand between digits. `after` tells that a digit
came just before. -/
def readDigits (base value : Nat) (after : Bool) : List Char → Option Nat
  | [] => if after = true then some value else none
  | c :: rest =>
      if c = '_' then (if after = true then readDigits base value false rest else none)
      else ((hexDigit? c).filter (· < base)).bind fun digit => readDigits base (base * value + digit) true rest

/-- Past `0x`, and the underscore that may follow it. -/
def dropBase : List Char → List Char
  | '0' :: x :: rest =>
      if x = 'x' ∨ x = 'X' then (if rest.head? = some '_' then rest.tail else rest) else '0' :: x :: rest
  | text => text

/-- `int(text, base)`, for base 10 or 16. -/
def readInt (base : Nat) (text : List Char) : Option Int :=
  let (negative, unsigned) := readSign (stripOf isAsciiSpace text)
  (readDigits base 0 false (if base = 16 then dropBase unsigned else unsigned)).map fun n =>
    if negative = true then -(n : Int) else n

theorem dropWhile_of_none {p : Char → Bool} {text : List Char} (h : ∀ c ∈ text, p c = false) :
    text.dropWhile p = text := by
  cases text with
  | nil => rfl
  | cons c rest => rw [List.dropWhile_cons, h c List.mem_cons_self, if_neg (by decide)]

theorem stripOf_of_none {p : Char → Bool} {text : List Char} (h : ∀ c ∈ text, p c = false) :
    stripOf p text = text := by
  rw [stripOf, dropWhile_of_none h, dropWhile_of_none fun c hc => h c (List.mem_reverse.mp hc), List.reverse_reverse]

theorem hexDigit?_lt {c : Char} {digit : Nat} (h : hexDigit? c = some digit) : digit < 16 := by
  rw [hexDigit?] at h
  split at h
  · next hc =>
      obtain rfl := Option.some.inj h
      have hle : c.toNat ≤ '9'.toNat := hc.2
      rw [show '9'.toNat = 57 from rfl] at hle
      rw [show '0'.toNat = 48 from rfl]
      omega
  split at h
  · next hc =>
      obtain rfl := Option.some.inj h
      have hle : c.toNat ≤ 'f'.toNat := hc.2
      rw [show 'f'.toNat = 102 from rfl] at hle
      rw [show 'a'.toNat = 97 from rfl]
      omega
  split at h
  · next hc =>
      obtain rfl := Option.some.inj h
      have hle : c.toNat ≤ 'F'.toNat := hc.2
      rw [show 'F'.toNat = 70 from rfl] at hle
      rw [show 'A'.toNat = 65 from rfl]
      omega
  · cases h

/-- Digits alone are read one by one. -/
theorem readDigits_eq {text : List Char} (h : ∀ c ∈ text, (hexDigit? c).isSome = true) (value : Nat) :
    readDigits 16 value true text = readHexFrom value text := by
  induction text generalizing value with
  | nil => rfl
  | cons c rest ih =>
      obtain ⟨digit, hdigit⟩ := Option.isSome_iff_exists.mp (h c List.mem_cons_self)
      have hne : c ≠ '_' := by
        rintro rfl
        cases hdigit
      rw [readDigits, if_neg hne, readHexFrom, hdigit, Option.filter_some,
        if_pos (decide_eq_true (hexDigit?_lt hdigit)), Option.bind_some, Option.bind_some, ih fun c hc => h c (List.mem_cons_of_mem _ hc)]

theorem readInt_of_digits {text : List Char} (h : ∀ c ∈ text, (hexDigit? c).isSome = true) (hne : text ≠ []) :
    readInt 16 text = (readHex text).map fun n => (n : Int) := by
  have hnot : ∀ mark, hexDigit? mark = none → mark ∉ text := fun mark hmark hmem => by
    have hdigit := h mark hmem
    rw [hmark] at hdigit
    cases hdigit
  have hspace : ∀ c ∈ text, isAsciiSpace c = false := fun c hc => by
    cases hcase : isAsciiSpace c with
    | false => rfl
    | true =>
        have hall : ∀ n < 33, hexDigit? (Char.ofNat n) = none := by decide +kernel
        have hsmall : c.toNat < 33 := by
          rw [isAsciiSpace, Bool.or_eq_true, Bool.and_eq_true, decide_eq_true_eq, decide_eq_true_eq,
            decide_eq_true_eq] at hcase
          rcases hcase with rfl | ⟨-, hle⟩
          · decide
          · omega
        have hnone := hall c.toNat hsmall
        rw [Char.ofNat_toNat] at hnone
        exact absurd hc (hnot c hnone)
  cases text with
  | nil => exact absurd rfl hne
  | cons c rest =>
      have hsign : readSign (c :: rest) = (false, c :: rest) := by
        rw [readSign]
        · intro text hsplit
          exact hnot '-' rfl ((List.cons.inj hsplit).1 ▸ List.mem_cons_self)
        · intro text hsplit
          exact hnot '+' rfl ((List.cons.inj hsplit).1 ▸ List.mem_cons_self)
      have hbase : dropBase (c :: rest) = c :: rest := by
        rw [dropBase.eq_def]
        split
        · next x more hsplit =>
            refine (if_neg fun hx => ?_).trans hsplit.symm
            have hmem : x ∈ c :: rest := by
              rw [hsplit]
              exact List.mem_cons_of_mem _ List.mem_cons_self
            rcases hx with rfl | rfl
            · exact hnot 'x' rfl hmem
            · exact hnot 'X' rfl hmem
        · rfl
      obtain ⟨digit, hdigit⟩ := Option.isSome_iff_exists.mp (h c List.mem_cons_self)
      have hunder : c ≠ '_' := by
        rintro rfl
        cases hdigit
      have hread := readDigits_eq h 0
      rw [readDigits, if_neg hunder] at hread
      rw [readInt, stripOf_of_none hspace, hsign]
      simp only [if_pos, hbase]
      rw [readDigits, if_neg hunder, hread]
      rfl

/-! ### UUIDs -/

/-- `str(uuid)`: 32 digits in five groups. -/
def uuidText (n : Nat) : List Char :=
  hexFixed 8 (n / 16 ^ 24) ++ '-' :: (hexFixed 4 (n / 16 ^ 20) ++ '-' :: (hexFixed 4 (n / 16 ^ 16) ++
    '-' :: (hexFixed 4 (n / 16 ^ 12) ++ '-' :: hexFixed 12 n)))

/-- `text.replace(word, "")`, with `skip` characters of an occurrence still to come. -/
def removeWord (word : List Char) (skip : Nat) : List Char → List Char
  | [] => []
  | c :: rest =>
      if 0 < skip then removeWord word (skip - 1) rest
      else if word.isPrefixOf (c :: rest) then removeWord word (word.length - 1) rest
      else c :: removeWord word 0 rest

def isBrace (c : Char) : Bool := c = '{' || c = '}'

/-- `UUID(text)`: 32 digits, but for what is taken off. -/
def readUuid (text : List Char) : Option Nat :=
  let hex := (stripOf isBrace (removeWord "uuid:".toList 0 (removeWord "urn:".toList 0 text))).filter fun c => c ≠ '-'
  if hex.length = 32 then (readInt 16 hex).map Int.toNat else none

theorem removeWord_of_notMem {first : Char} {more text : List Char} (h : first ∉ text) :
    removeWord (first :: more) 0 text = text := by
  induction text with
  | nil => rfl
  | cons c rest ih =>
      rw [List.mem_cons, not_or] at h
      have hnot : (first :: more).isPrefixOf (c :: rest) = false := by
        rw [List.isPrefixOf, beq_eq_false_iff_ne.mpr h.1, Bool.false_and]
      rw [removeWord, if_neg (by decide), hnot, if_neg (by decide), ih h.2]

theorem filter_hexFixed (width n : Nat) : (hexFixed width n).filter (fun c => c ≠ '-') = hexFixed width n :=
  List.filter_eq_self.mpr fun _ hc => decide_eq_true (ne_of_mem_hexFixed hc (by decide))

theorem ne_of_mem_uuidText {n : Nat} {c mark : Char} (h : c ∈ uuidText n) (hmark : hexDigit? mark = none)
    (hdash : '-' ≠ mark) : c ≠ mark := by
  simp only [uuidText, List.mem_append, List.mem_cons] at h
  rcases h with h | rfl | h | rfl | h | rfl | h | rfl | h
  · exact ne_of_mem_hexFixed h hmark
  · exact hdash
  · exact ne_of_mem_hexFixed h hmark
  · exact hdash
  · exact ne_of_mem_hexFixed h hmark
  · exact hdash
  · exact ne_of_mem_hexFixed h hmark
  · exact hdash
  · exact ne_of_mem_hexFixed h hmark

/-- What `str` writes, the constructor reads back. -/
theorem readUuid_uuidText {n : Nat} (hn : n < 16 ^ 32) : readUuid (uuidText n) = some n := by
  have hwords : ∀ more, removeWord ('u' :: more) 0 (uuidText n) = uuidText n := fun more =>
    removeWord_of_notMem fun hmem => ne_of_mem_uuidText hmem (by decide) (by decide) rfl
  have hbrace : ∀ c ∈ uuidText n, isBrace c = false := fun c hc => by
    rw [isBrace, decide_eq_false (ne_of_mem_uuidText hc (by decide) (by decide)),
      decide_eq_false (ne_of_mem_uuidText hc (by decide) (by decide))]
    rfl
  have hstrip : stripOf isBrace (uuidText n) = uuidText n := stripOf_of_none hbrace
  have hdigits : (uuidText n).filter (fun c => c ≠ '-') = hexFixed 32 n := by
    have hsplit : hexFixed 32 n = hexFixed 8 (n / 16 ^ 24) ++ (hexFixed 4 (n / 16 ^ 20) ++ (hexFixed 4 (n / 16 ^ 16) ++
        (hexFixed 4 (n / 16 ^ 12) ++ hexFixed 12 n))) := by
      rw [← hexFixed_add 4 12, ← hexFixed_add 4 16, ← hexFixed_add 4 20, ← hexFixed_add 8 24]
    rw [hsplit, uuidText]
    simp only [List.filter_append, List.filter_cons, filter_hexFixed]
    simp
  have hread : readInt 16 (hexFixed 32 n) = some (n : Int) := by
    rw [readInt_of_digits (fun c hc => hexDigit?_of_mem hc) (fun hnil => by
      have hlength := length_hexFixed 32 n
      rw [hnil] at hlength
      cases hlength), readHex_hexFixed hn]
    rfl
  simp only [readUuid, show "urn:".toList = ['u', 'r', 'n', ':'] from rfl,
    show "uuid:".toList = ['u', 'u', 'i', 'd', ':'] from rfl, hwords, hstrip, hdigits, length_hexFixed, hread, if_true]
  rfl

end Formats
