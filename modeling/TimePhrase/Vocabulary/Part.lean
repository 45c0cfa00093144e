import TimePhrase.Text.Integer

/-!
# Part names

The capture groups of a rule are numbered, and a number is written as a name.
-/

namespace TimePhrase.Part

/-- The name of a group. -/
def name (n : Nat) : Text := "Part".toList ++ Text.ofNat n

/-- The number in a name: digits only, and at most 32 bits. -/
def ofName? (s : Text) : Option Nat :=
  match s.after? "Part" with
  | none => none
  | some digits => (digits.toNat?).bind fun n => if n ≤ 4294967295 then some n else none

end TimePhrase.Part
