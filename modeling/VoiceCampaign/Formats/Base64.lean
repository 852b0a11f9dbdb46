import Mathlib.Algebra.Order.Group.Nat
import Mathlib.Data.List.Basic

/-!
# Base64

`base64.urlsafe_b64encode` and `base64.urlsafe_b64decode`. The decoder is the one of `binascii.a2b_base64`: it
passes over what is no digit, and stops where the padding completes a group.
-/

namespace Formats.Base64

/-- The URL-safe digits, by their value. -/
def alphabet : List Char := "ABCDEFGHIJKLMNOPQRSTUVWXYZabcdefghijklmnopqrstuvwxyz0123456789-_".toList

def digit (value : Nat) : Char := alphabet.getD value '='

/-- The value of a digit. The two digits of the standard alphabet that are not URL-safe count as well. -/
def value? (c : Char) : Option Nat :=
  if c = '+' then some 62
  else if c = '/' then some 63
  else alphabet.findIdx? fun digit => digit = c

/-- Three bytes are four digits. -/
def encode : List UInt8 → List Char
  | a :: b :: c :: rest =>
      digit (a.toNat / 4) :: digit (a.toNat % 4 * 16 + b.toNat / 16) ::
        digit (b.toNat % 16 * 4 + c.toNat / 64) :: digit (c.toNat % 64) :: encode rest
  | [a, b] => [digit (a.toNat / 4), digit (a.toNat % 4 * 16 + b.toNat / 16), digit (b.toNat % 16 * 4), '=']
  | [a] => [digit (a.toNat / 4), digit (a.toNat % 4 * 16), '=', '=']
  | [] => []

/-- The bytes from here on: `quadPos` digits of the group have been read, `left` are the bits that wait for the
next digit, and `pads` counts the padding since the last one. -/
def decodeFrom (quadPos left pads : Nat) : List Char → Option (List UInt8)
  | [] => if quadPos = 0 then some [] else none
  | c :: rest =>
      if c = '=' then
        if 2 ≤ quadPos then
          if 4 ≤ quadPos + (pads + 1) then some [] else decodeFrom quadPos left (pads + 1) rest
        else decodeFrom quadPos left pads rest
      else
        match value? c with
        | none => decodeFrom quadPos left pads rest
        | some value =>
            if quadPos = 0 then decodeFrom 1 value 0 rest
            else if quadPos = 1 then
              (decodeFrom 2 (value % 16) 0 rest).map (UInt8.ofNat (left * 4 + value / 16) :: ·)
            else if quadPos = 2 then
              (decodeFrom 3 (value % 4) 0 rest).map (UInt8.ofNat (left * 16 + value / 4) :: ·)
            else (decodeFrom 0 0 0 rest).map (UInt8.ofNat (left * 64 + value) :: ·)

def decode (text : List Char) : Option (List UInt8) := decodeFrom 0 0 0 text

/-! ### What was encoded -/

theorem value?_digit {value : Nat} (h : value < 64) : value? (digit value) = some value ∧ digit value ≠ '=' := by
  have hall : ∀ value < 64, value? (digit value) = some value ∧ digit value ≠ '=' := by decide +kernel
  exact hall value h

/-- Every digit is ASCII. -/
theorem toNat_lt_of_mem_encode {bytes : List UInt8} {c : Char} (h : c ∈ encode bytes) : c.toNat < 128 := by
  have hall : ∀ value < 64, (digit value).toNat < 128 := by decide +kernel
  induction bytes using encode.induct with
  | case1 a b d rest ih =>
      have ha := a.toNat_lt
      have hb := b.toNat_lt
      have hd := d.toNat_lt
      simp only [encode, List.mem_cons] at h
      rcases h with rfl | rfl | rfl | rfl | h
      · exact hall _ (by omega)
      · exact hall _ (by omega)
      · exact hall _ (by omega)
      · exact hall _ (by omega)
      · exact ih h
  | case2 a b =>
      have ha := a.toNat_lt
      have hb := b.toNat_lt
      simp only [encode, List.mem_cons, List.not_mem_nil, or_false] at h
      rcases h with rfl | rfl | rfl | rfl
      · exact hall _ (by omega)
      · exact hall _ (by omega)
      · exact hall _ (by omega)
      · decide
  | case3 a =>
      have ha := a.toNat_lt
      simp only [encode, List.mem_cons, List.not_mem_nil, or_false] at h
      rcases h with rfl | rfl | rfl | rfl
      · exact hall _ (by omega)
      · exact hall _ (by omega)
      · decide
      · decide
  | case4 => cases h

section

variable {value quadPos left pads : Nat} {rest : List Char}

/-- One digit, by where it stands in its group. -/
theorem decodeFrom_digit (h : value < 64) : decodeFrom quadPos left pads (digit value :: rest) =
    if quadPos = 0 then decodeFrom 1 value 0 rest
    else if quadPos = 1 then (decodeFrom 2 (value % 16) 0 rest).map (UInt8.ofNat (left * 4 + value / 16) :: ·)
    else if quadPos = 2 then (decodeFrom 3 (value % 4) 0 rest).map (UInt8.ofNat (left * 16 + value / 4) :: ·)
    else (decodeFrom 0 0 0 rest).map (UInt8.ofNat (left * 64 + value) :: ·) := by
  obtain ⟨hvalue, hpad⟩ := value?_digit h
  rw [decodeFrom, if_neg hpad, hvalue]

theorem ofNat_eq {byte : UInt8} {n : Nat} (h : n = byte.toNat) : UInt8.ofNat n = byte := by
  rw [h, UInt8.ofNat_toNat]

/-- What was encoded is decoded. -/
theorem decode_encode (bytes : List UInt8) : decode (encode bytes) = some bytes := by
  rw [decode]
  induction bytes using encode.induct with
  | case1 a b c rest ih =>
      have ha := a.toNat_lt
      have hb := b.toNat_lt
      have hc := c.toNat_lt
      rw [encode, decodeFrom_digit (by omega), if_pos rfl, decodeFrom_digit (by omega), if_neg (by decide), if_pos rfl,
        decodeFrom_digit (by omega), if_neg (by decide), if_neg (by decide), if_pos rfl, decodeFrom_digit (by omega),
        if_neg (by decide), if_neg (by decide), if_neg (by decide), ih]
      simp only [Option.map_some]
      rw [@ofNat_eq a _ (by omega), @ofNat_eq b _ (by omega), @ofNat_eq c _ (by omega)]
  | case2 a b =>
      have ha := a.toNat_lt
      have hb := b.toNat_lt
      have hpad : decodeFrom 3 (b.toNat % 16 * 4 % 4) 0 ['='] = some [] := rfl
      rw [encode, decodeFrom_digit (by omega), if_pos rfl, decodeFrom_digit (by omega), if_neg (by decide), if_pos rfl,
        decodeFrom_digit (by omega), if_neg (by decide), if_neg (by decide), if_pos rfl, hpad]
      simp only [Option.map_some]
      rw [@ofNat_eq a _ (by omega), @ofNat_eq b _ (by omega)]
  | case3 a =>
      have ha := a.toNat_lt
      have hpad : decodeFrom 2 (a.toNat % 4 * 16 % 16) 0 ['=', '='] = some [] := rfl
      rw [encode, decodeFrom_digit (by omega), if_pos rfl, decodeFrom_digit (by omega), if_neg (by decide), if_pos rfl,
        hpad]
      simp only [Option.map_some]
      rw [@ofNat_eq a _ (by omega)]
  | case4 => rfl

end

end Formats.Base64
