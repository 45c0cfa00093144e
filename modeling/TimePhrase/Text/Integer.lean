import TimePhrase.Text.Blank

/-!
# Integers as text

Decimal integers are written without leading zeros, with a minus sign when negative. They are read
from a sign, which may be missing, and one or more of the digits `0` to `9`.
-/

namespace TimePhrase

/-- A range of integers, both ends included. -/
structure IntRange where
  least : Int
  greatest : Int

namespace IntRange

/-- Signed numbers of 32 bits. -/
def signed32 : IntRange := ⟨-2147483648, 2147483647⟩

/-- Unsigned numbers of 32 bits. -/
def unsigned32 : IntRange := ⟨0, 4294967295⟩

/-- Signed numbers of 64 bits. -/
def signed64 : IntRange := ⟨-9223372036854775808, 9223372036854775807⟩

/-- Whether a number lies in the range. -/
def holds (r : IntRange) (n : Int) : Bool := r.least ≤ n && n ≤ r.greatest

/-- A number, if it lies in the range. -/
def checked (r : IntRange) (n : Int) : Option Int := if r.holds n then some n else none

end IntRange

namespace Text

/-- Digits of a number in base ten, without leading zeros. -/
def ofNat (n : Nat) : Text := Nat.toDigits 10 n

/-- Decimal form of an integer. -/
def ofInt : Int → Text
  | .ofNat n => ofNat n
  | .negSucc n => '-' :: ofNat (n + 1)

/-- Value of digits that follow digits of value `acc`. -/
def digitsFrom? (acc : Nat) : Text → Option Nat
  | [] => some acc
  | c :: r => if c.isDigit then digitsFrom? (acc * 10 + (c.toNat - '0'.toNat)) r else none

/-- Value of one or more digits. -/
def toNat? : Text → Option Nat
  | [] => none
  | s => digitsFrom? 0 s

/-- Reads an integer of a range. A minus sign is refused where the range has no negative number. -/
def toInt? (range : IntRange) (s : Text) : Option Int :=
  match s with
  | '-' :: r => if range.least < 0 then (toNat? r).bind fun n => range.checked (-n) else none
  | '+' :: r => (toNat? r).bind fun n => range.checked n
  | s => (toNat? s).bind fun n => range.checked n

end Text

end TimePhrase
