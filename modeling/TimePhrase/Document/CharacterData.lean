import TimePhrase.Document.Name

/-!
# Character data

What is written between tags and in attribute values, and the text that it stands for: references
are replaced, and line ends become line feeds, or spaces in a value.
-/

namespace TimePhrase.Document

/-! ## References -/

/-- Value of the digits of a base, at most 32 bits of it. -/
def codePoint? (base : Nat) (digits : Text) : Option Nat :=
  if digits.isEmpty then none
  else
    let n := digits.foldl (fun n c =>
      n * base + (if c.isDigit then c.toNat - '0'.toNat else c.toLower.toNat - 'a'.toNat + 10)) 0
    if n < 4294967296 then some n else none

/-- The character of a code point, or the replacement character where there is none. -/
def charOf (n : Nat) : Char := if n.isValidChar then Char.ofNat n else '\ufffd'

/-- The characters that have a name of their own. -/
def namedChar? (name : Text) : Option Char :=
  if name = "quot" then some '"'
  else if name = "amp" then some '&'
  else if name = "apos" then some '\''
  else if name = "lt" then some '<'
  else if name = "gt" then some '>'
  else none

/-- Whether a character is a digit of base sixteen. -/
def isHexDigit (c : Char) : Bool :=
  c.isDigit || ('a' ≤ c.toLower && c.toLower ≤ 'f')

/-- The character that a reference stands for, and the rest after its digits or name. -/
def readReferent (s : Text) : Option (Char × Text) :=
  let numbered (base : Nat) (isDigit : Char → Bool) (s : Text) : Option (Char × Text) :=
    match codePoint? base (s.takeWhile isDigit) with
    | none => none
    | some n => if isAllowed (charOf n) then some (charOf n, s.dropWhile isDigit) else none
  match s with
  | '#' :: 'x' :: r => numbered 16 isHexDigit r
  | '#' :: r => numbered 10 Char.isDigit r
  | s =>
    match readName s with
    | none => none
    | some (name, r) => (namedChar? name).map fun c => (c, r)

/-- Reads a reference, after its ampersand. -/
def readReference (s : Text) : Option (Char × Text) :=
  match readReferent s with
  | some (c, ';' :: r) => some (c, r)
  | _ => none

/-- One character of character data, as it is written. -/
inductive Unit where
  | literal (c : Char)
  | reference (c : Char)
deriving DecidableEq

/-- Reads the characters of a piece of character data. `fuel` bounds their number. -/
def unitsWithin : Nat → Text → Option (List Unit)
  | 0, _ => some []
  | _ + 1, [] => some []
  | fuel + 1, '&' :: r =>
    match readReference r with
    | some (c, r) => (unitsWithin fuel r).map (.reference c :: ·)
    | none => none
  | fuel + 1, c :: r => (unitsWithin fuel r).map (.literal c :: ·)

/-- Reads the characters of a piece of character data. -/
def units? (s : Text) : Option (List Unit) := unitsWithin s.length s

/-! ## Text between tags -/

/-- The text of characters between tags. A carriage return becomes a line feed, together with a line
    feed after it. It stays as it is before a reference, and as the last character after one. -/
def textOf (afterReference : Bool) : List Unit → Text
  | [] => []
  | .reference c :: r => c :: textOf true r
  | .literal c :: r =>
    if c = '\r' then
      match r with
      -- Nothing comes that could show whether this is half of a line end.
      | [] => if afterReference then ['\r'] else ['\n']
      | .literal '\n' :: r => '\n' :: textOf false r
      | .literal d :: r => '\n' :: textOf false (.literal d :: r)
      | .reference d :: r => '\r' :: textOf false (.reference d :: r)
    else c :: textOf false r

/-- Reads the text between two tags. -/
def text? (s : Text) : Option Text :=
  if s.all isAllowed && (s.breakOn? "]]>").isNone then (units? s).map (textOf false) else none

/-- The text of a literal section, where nothing stands for anything else. -/
def sectionText? (s : Text) : Option Text :=
  if s.all isAllowed then some (textOf false (s.map .literal)) else none

/-! ## Attribute values -/

/-- The text of the characters of a value. White space becomes spaces, one for each line end. -/
def valueOf : List Unit → Text
  | [] => []
  | .reference c :: r => c :: valueOf r
  | .literal c :: r =>
    -- Of the two characters of a line end the second one becomes the space.
    if c = '\r' ∧ r.head? = some (.literal '\n') then valueOf r
    else (if isSpace c then ' ' else c) :: valueOf r

/-- Reads an attribute value, which is given without its quotes. -/
def value? (s : Text) : Option Text :=
  if s.all isAllowed then (units? s).map valueOf else none

end TimePhrase.Document
