import TimePhrase.Text.Integer

/-!
# Repeat ranges

How often a node of a rule may come in a row: the value of a `repeat` attribute and the repetition
sign it stands for.
-/

namespace TimePhrase

/-- A range of numbers of repetitions. -/
inductive Repeat where
  | exactly (n : Nat)
  | atLeast (least : Nat)
  | between (least most : Nat)
deriving DecidableEq

namespace Repeat

/-- Reads a number of 32 bits, which may stand between blanks. -/
def count? (s : Text) : Option Nat := (s.trim.toInt? .unsigned32).map Int.toNat

/-- Reads a range: `n`, `m-` or `m-n`. -/
def ofText? (s : Text) : Option Repeat :=
  match s.trim.splitOnce '-' with
  | none => (count? s).map .exactly
  | some (least, most) =>
    if most.isBlank then (count? least).map .atLeast
    else
      match count? least, count? most with
      | some m, some n => if m ≤ n then some (.between m n) else none
      | _, _ => none

/-- The sign in a pattern. -/
def sign : Repeat → Text
  | .exactly n => '\x7b' :: Text.ofNat n ++ ['\x7d']
  | .atLeast m => '\x7b' :: Text.ofNat m ++ [',', '\x7d']
  | .between m n => '\x7b' :: Text.ofNat m ++ ',' :: Text.ofNat n ++ ['\x7d']

/-- Whether a number of repetitions lies in the range. -/
def allows : Repeat → Nat → Bool
  | .exactly n, k => k = n
  | .atLeast m, k => m ≤ k
  | .between m n, k => m ≤ k && k ≤ n

end Repeat

end TimePhrase
