import TimePhrase.Text.CharTable

/-!
# Characters and names of documents

The characters that can stand in a document, and the names of elements and attributes, which may
have a namespace prefix before a colon.
-/

namespace TimePhrase.Document

/-- White space between the parts of a tag. -/
def isSpace (c : Char) : Bool := c == ' ' || c == '\t' || c == '\n' || c == '\r'

/-- The text after its leading white space. -/
def skipSpace (s : Text) : Text := s.dropWhile isSpace

/-- The characters that can stand in a document at all. -/
def isAllowed (c : Char) : Bool :=
  if c.toNat < 0x20 then isSpace c else c.toNat != 0xFFFE && c.toNat != 0xFFFF

/-- Ranges of the characters beyond ASCII that can begin a name. -/
def nameStartRanges : CharTable :=
  [(0xC0, 0xD6), (0xD8, 0xF6), (0xF8, 0x2FF), (0x370, 0x37D), (0x37F, 0x1FFF), (0x200C, 0x200D),
    (0x2070, 0x218F), (0x2C00, 0x2FEF), (0x3001, 0xD7FF), (0xF900, 0xFDCF), (0xFDF0, 0xFFFD),
    (0x10000, 0xEFFFF)]

/-- Ranges of the other characters beyond ASCII that can stand in a name. -/
def nameExtraRanges : CharTable := [(0xB7, 0xB7), (0x300, 0x36F), (0x203F, 0x2040)]

/-- Whether a character can begin a name. -/
def isNameStart (c : Char) : Bool := c.isAlpha || c == ':' || c == '_' || nameStartRanges.has c

/-- Whether a character can stand in a name. -/
def isNameChar (c : Char) : Bool :=
  isNameStart c || c.isDigit || c == '-' || c == '.' || nameExtraRanges.has c

/-- Reads a name; a colon is a letter like any other. -/
def readName (s : Text) : Option (Text × Text) :=
  match s.takeWhile isNameChar with
  | [] => none
  | c :: r => if isNameStart c then some (c :: r, s.dropWhile isNameChar) else none

/-- A name with its namespace prefix, which is empty if there is none. -/
structure Name where
  space : Text
  localPart : Text
deriving DecidableEq, Inhabited

namespace Name

/-- Splits a written name at its only colon. -/
def ofText? (s : Text) : Option Name :=
  let (space, localPart) := (s.splitOnce ':').getD ([], s)
  if localPart.contains ':' then none
  else if space.head?.all isNameStart && localPart.head?.any isNameStart then
    some ⟨space, localPart⟩
  else none

/-- Reads a name. -/
def read? (s : Text) : Option (Name × Text) :=
  (ofText? (s.takeWhile isNameChar)).map fun n => (n, s.dropWhile isNameChar)

end Name

end TimePhrase.Document
