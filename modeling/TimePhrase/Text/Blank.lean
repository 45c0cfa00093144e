import TimePhrase.Text.CharTable

/-!
# Blank characters

The characters of the White_Space property, trimming, and the words between runs of blanks.
-/

namespace TimePhrase

/-- Ranges of the White_Space property. -/
def blankRanges : CharTable :=
  [(0x9, 0xD), (0x20, 0x20), (0x85, 0x85), (0xA0, 0xA0), (0x1680, 0x1680), (0x2000, 0x200A),
   (0x2028, 0x2029), (0x202F, 0x202F), (0x205F, 0x205F), (0x3000, 0x3000)]

/-- Spaces, tabs, line ends and the other white space of every script. -/
def isBlank (c : Char) : Bool := blankRanges.has c

/-- Every white space character of the standard library is blank. -/
theorem isBlank_of_isWhitespace {c : Char} (h : c.isWhitespace = true) : isBlank c = true := by
  simp only [Char.isWhitespace, Bool.or_eq_true, decide_eq_true_eq] at h
  rcases h with ((rfl | rfl) | rfl) | rfl <;> rfl

namespace Text

/-- Without the blanks at both ends. -/
def trim (s : Text) : Text := s.stripWhile isBlank

/-- Whether nothing but blanks is in the text. -/
def isBlank (s : Text) : Bool := s.all TimePhrase.isBlank

/-- The words of a text: its longest runs of characters that are not blank. -/
def words : Text → List Text
  | [] => []
  | c :: r =>
    if TimePhrase.isBlank c then words r
    else
      match r with
      | [] => [[c]]
      | d :: _ => if TimePhrase.isBlank d then [c] :: words r else consFirst c (words r)

end Text

end TimePhrase
