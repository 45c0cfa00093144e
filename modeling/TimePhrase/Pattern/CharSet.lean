import TimePhrase.Pattern.CaseFolding
import TimePhrase.Pattern.Digit
import TimePhrase.Pattern.WordChar
import TimePhrase.Text.Blank

/-!
# Sets of characters

What one position of a pattern can accept: ranges and the classes of Unicode, and what is made of
them by set operations and by closing under case. A set has one form only, so that sets can be
compared.
-/

namespace TimePhrase

namespace CharTable

/-! ## Operations on ranges -/

/-- Merges a table into another one by the beginnings of the ranges. `rest` merges what follows the
    range `r`. -/
def mergeWith (r : Nat × Nat) (s : CharTable) (rest : CharTable → CharTable) :
    CharTable → CharTable
  | [] => r :: s
  | q :: t => if r.1 ≤ q.1 then r :: rest (q :: t) else q :: mergeWith r s rest t

/-- The ranges of both tables, by their beginnings. -/
def merge : CharTable → CharTable → CharTable
  | [], t => t
  | r :: s, t => mergeWith r s (merge s) t

/-- Joins ranges that overlap or touch, the first one beginning with `lo` and ending with `hi`. -/
def joinFrom (lo hi : Nat) : CharTable → CharTable
  | [] => [(lo, hi)]
  | (a, b) :: r => if a ≤ hi + 1 then joinFrom lo (max hi b) r else (lo, hi) :: joinFrom a b r

/-- Joins ranges that overlap or touch. -/
def join : CharTable → CharTable
  | [] => []
  | (a, b) :: r => joinFrom a b r

/-- One more range. -/
def insert (lo hi : Nat) : CharTable → CharTable
  | [] => [(lo, hi)]
  | (a, b) :: r =>
    if hi + 1 < a then (lo, hi) :: (a, b) :: r
    else if b + 1 < lo then (a, b) :: insert lo hi r
    else insert (min lo a) (max hi b) r

/-- The last code point. -/
def lastCodePoint : Nat := 0x10FFFF

/-- The code point of the next character. There are none from D800 to DFFF. -/
def after (n : Nat) : Nat := if n = 0xD7FF then 0xE000 else n + 1

/-- The code point of the character before. -/
def before (n : Nat) : Nat := if n = 0xE000 then 0xD7FF else n - 1

/-- What lies between the ranges, from the code point `lo` on. -/
def gapsFrom (lo : Nat) : CharTable → CharTable
  | [] => if lo ≤ lastCodePoint then [(lo, lastCodePoint)] else []
  | (a, b) :: r =>
    if lo < a then (lo, before a) :: gapsFrom (after b) r else gapsFrom (after b) r

end CharTable

/-! ## Sets -/

/-- A set of characters, as ascending ranges of code points of which no two touch. -/
structure CharSet where
  ranges : CharTable
deriving DecidableEq

namespace CharSet

/-- Whether a character is in the set. -/
def has (s : CharSet) (c : Char) : Bool := s.ranges.has c

/-- No characters. -/
def none : CharSet := ⟨[]⟩

/-- The characters from `lo` to `hi`, both included. -/
def range (lo hi : Char) : CharSet := ⟨[(lo.toNat, hi.toNat)]⟩

/-- The set of one character. -/
def single (c : Char) : CharSet := .range c c

/-- The decimal digits. -/
def digits : CharSet := ⟨digitRanges⟩

/-- The blank characters. -/
def blanks : CharSet := ⟨blankRanges⟩

/-- The characters of words. -/
def wordChars : CharSet := ⟨wordRanges⟩

/-- The characters of either set. -/
def union (s t : CharSet) : CharSet := ⟨(s.ranges.merge t.ranges).join⟩

/-- All other characters. -/
def complement (s : CharSet) : CharSet := ⟨s.ranges.gapsFrom 0⟩

/-- The characters of both sets. -/
def inter (s t : CharSet) : CharSet := (s.complement.union t.complement).complement

/-- The characters of the first set only. -/
def difference (s t : CharSet) : CharSet := s.inter t.complement

/-- The characters of exactly one of the sets. -/
def symmDiff (s t : CharSet) : CharSet := (s.difference t).union (t.difference s)

/-- The characters below 128. -/
def ascii : CharSet := .range '\x00' '\x7f'

/-- Whether all characters are below 128. -/
def isAscii (s : CharSet) : Bool := s.ranges.all fun r => r.2 < 128

/-- The union of sets. -/
def unions (ss : List CharSet) : CharSet := ss.foldl union none

/-- The set of the characters of a text. -/
def ofText (s : Text) : CharSet := unions (s.map single)

/-- All characters. -/
def any : CharSet := none.complement

/-- All characters but those of a text. -/
def anyBut (s : Text) : CharSet := (ofText s).complement

/-- The only character of the set, if there is just one. -/
def only? (s : CharSet) : Option Char :=
  match s.ranges with
  | [(lo, hi)] => if lo = hi then some (Char.ofNat lo) else .none
  | _ => .none

/-- The ranges of a table, in any order, added to the set. -/
def addRanges (s : CharSet) (t : CharTable) : CharSet :=
  ⟨t.foldl (fun s r => s.insert r.1 r.2) s.ranges⟩

/-- The set with all characters that differ from a member in case only. -/
def foldClosure (s : CharSet) : CharSet :=
  -- What the members fold to comes first, then all that folds to one of those.
  let s := s.addRanges (foldRuns.flatMap fun run => run.images s.ranges)
  s.addRanges (foldRuns.flatMap fun run => run.sources s.ranges)

@[simp] theorem has_single (c d : Char) : (single c).has d = (d == c) := by
  simp only [single, range, has, CharTable.has, CharTable.covers]
  rw [Bool.eq_iff_iff, beq_iff_eq]
  constructor
  · intro h
    split at h
    · simp at h
    · simp only [Bool.or_false, decide_eq_true_eq] at h
      exact Char.toNat_inj.mp (by omega)
  · rintro rfl
    simp

@[simp] theorem has_any (c : Char) : any.has c = true := by
  have h := c.valid
  simp only [UInt32.isValidChar, Nat.isValidChar] at h
  have h : c.toNat ≤ 0x10FFFF := by
    simp only [Char.toNat]
    omega
  simp [any, complement, none, has, CharTable.gapsFrom, CharTable.lastCodePoint, CharTable.has,
    CharTable.covers, h]

/-! ## Named classes -/

/-- The classes of characters below 128 that can be named inside a bracketed class. -/
def named? (name : Text) : Option CharSet :=
  let ranges (rs : List (Char × Char)) : Option CharSet :=
    some (unions (rs.map fun r => .range r.1 r.2))
  if name = "alnum" then ranges [('0', '9'), ('A', 'Z'), ('a', 'z')]
  else if name = "alpha" then ranges [('A', 'Z'), ('a', 'z')]
  else if name = "ascii" then ranges [('\x00', '\x7f')]
  else if name = "blank" then ranges [('\t', '\t'), (' ', ' ')]
  else if name = "cntrl" then ranges [('\x00', '\x1f'), ('\x7f', '\x7f')]
  else if name = "digit" then ranges [('0', '9')]
  else if name = "graph" then ranges [('!', '~')]
  else if name = "lower" then ranges [('a', 'z')]
  else if name = "print" then ranges [(' ', '~')]
  else if name = "punct" then ranges [('!', '/'), (':', '@'), ('[', '\x60'), ('\x7b', '~')]
  else if name = "space" then ranges [('\t', '\r'), (' ', ' ')]
  else if name = "upper" then ranges [('A', 'Z')]
  else if name = "word" then ranges [('0', '9'), ('A', 'Z'), ('_', '_'), ('a', 'z')]
  else if name = "xdigit" then ranges [('0', '9'), ('A', 'F'), ('a', 'f')]
  else Option.none

end CharSet

end TimePhrase
