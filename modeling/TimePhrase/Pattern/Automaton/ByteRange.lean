import TimePhrase.Pattern.CharSet

/-!
# Byte sequences of ranges

An automaton reads bytes. The characters from one code point to another are read by sequences of
byte ranges: a character is in the range if one of the sequences accepts its bytes one by one.

* `ByteRange.sequences`  the sequences of a set
-/

namespace TimePhrase

/-- The bytes from `lo` to `hi`, both included. -/
structure ByteRange where
  lo : Nat
  hi : Nat
deriving DecidableEq

namespace ByteRange

/-- The bytes of a code point. -/
def encode (n : Nat) : List Nat :=
  if n < 0x80 then [n]
  else if n < 0x800 then [0xC0 + n / 64, 0x80 + n % 64]
  else if n < 0x10000 then [0xE0 + n / 4096, 0x80 + n / 64 % 64, 0x80 + n % 64]
  else [0xF0 + n / 262144, 0x80 + n / 4096 % 64, 0x80 + n / 64 % 64, 0x80 + n % 64]

/-- Where a range has to be cut because its ends differ in a byte before the last `k` ones, while
    those do not run through all of their values. -/
def cutIn (k lo hi : Nat) : Option (Nat × Nat) :=
  let block := Nat.pow 64 k
  if lo / block = hi / block then none
  else if lo % block ≠ 0 then some ((lo / block + 1) * block - 1, (lo / block + 1) * block)
  else if hi % block ≠ block - 1 then some (hi / block * block - 1, hi / block * block)
  else none

/-- Where a range has to be cut because it is no single sequence: the last code point of the first
    part, and the first one of the second. -/
def cut? (lo hi : Nat) : Option (Nat × Nat) :=
  if lo < 0xE000 ∧ 0xD7FF < hi then some (0xD7FF, 0xE000)
  else
    -- The number of bytes changes after these.
    match [0x7F, 0x7FF, 0xFFFF].find? fun last => lo ≤ last && last < hi with
    | some last => some (last, last + 1)
    | none =>
      if hi ≤ 0x7F then none else (cutIn 1 lo hi).or ((cutIn 2 lo hi).or (cutIn 3 lo hi))

/-- The sequences of a range of code points, in ascending order. `fuel` bounds the number of cuts
    one inside another. -/
def sequencesFrom : Nat → Nat → Nat → List (List ByteRange)
  | 0, _, _ => []
  | fuel + 1, lo, hi =>
    if hi < lo then []
    else
      match cut? lo hi with
      | some (last, first) => sequencesFrom fuel lo last ++ sequencesFrom fuel first hi
      | none => [List.zipWith ByteRange.mk (encode lo) (encode hi)]

/-- The sequences of a set, in ascending order. -/
def sequences (s : CharSet) : List (List ByteRange) :=
  s.ranges.flatMap fun r => sequencesFrom 16 r.1 r.2

end ByteRange

end TimePhrase
