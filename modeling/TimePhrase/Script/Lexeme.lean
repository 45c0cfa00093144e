import TimePhrase.Text.Numeral

/-!
# Lexemes of scripts

Literals, lookups and assignment targets. A reader returns what it read and the rest of the text,
or nothing if the text does not begin with what it looks for.

* `quotedLiteral_escape`  a quoted text, with its quotes and backslashes escaped, is read back
-/

namespace TimePhrase.Script

/-- The blanks between lexemes: spaces, tabs and line ends. -/
def isGap (c : Char) : Bool := c == ' ' || c == '\t' || c == '\r' || c == '\n'

/-- The text after its leading gap. -/
def skipGap (s : Text) : Text := s.dropWhile isGap

/-- The quotes around literals. -/
def isQuote (c : Char) : Bool := c == '"' || c == '\''

/-- The characters of a literal without quotes. -/
def isBareChar (c : Char) : Bool :=
  isAlphanumeric c || c == '_' || c == '.' || c == ':' || c == '#' || c == '-'

/-! ## Literals -/

/-- Reads up to the closing quote `q`. A backslash takes the next character as it is. -/
def untilQuote (q : Char) : Text → Option (Text × Text)
  | [] => none
  | '\\' :: [] => none
  | '\\' :: c :: r => (untilQuote q r).map fun p => (c :: p.1, p.2)
  | c :: r => if c = q then some ([], r) else (untilQuote q r).map fun p => (c :: p.1, p.2)

/-- Reads a literal between quotes of one kind. -/
def quotedLiteral : Text → Option (Text × Text)
  | [] => none
  | c :: r => if isQuote c then untilQuote c r else none

/-- Reads a literal without quotes, which has at least one character. -/
def bareLiteral (s : Text) : Option (Text × Text) :=
  match s.takeWhile isBareChar with
  | [] => none
  | w => some (w, s.dropWhile isBareChar)

/-- Reads a literal of either form. -/
def literal (s : Text) : Option (Text × Text) := (quotedLiteral s).orElse fun _ => bareLiteral s

/-- Reads a literal that is the whole text up to gaps around it. -/
def wholeLiteral (s : Text) : Option Text :=
  match literal (skipGap s) with
  | some (value, rest) => if (skipGap rest).isEmpty then some value else none
  | none => none

/-- Puts a backslash before every backslash and every quote `q`. -/
def escape (q : Char) : Text → Text
  | [] => []
  | c :: r => if c = '\\' ∨ c = q then '\\' :: c :: escape q r else c :: escape q r

theorem untilQuote_escape (q : Char) (hq : q ≠ '\\') (s t : Text) :
    untilQuote q (escape q s ++ q :: t) = some (s, t) := by
  induction s with
  | nil => simp [escape, untilQuote, hq]
  | cons c r ih =>
    simp only [escape]
    split
    · simp [untilQuote, ih]
    · rename_i h
      have h₁ : c ≠ '\\' := fun e => h (.inl e)
      have h₂ : c ≠ q := fun e => h (.inr e)
      simp [untilQuote, h₁, h₂, ih]

/-- A quoted text is read back, whatever follows it. -/
theorem quotedLiteral_escape (q : Char) (hq : isQuote q = true) (s t : Text) :
    quotedLiteral (q :: escape q s ++ q :: t) = some (s, t) := by
  have hne : q ≠ '\\' := by rintro rfl; simp [isQuote] at hq
  simp [quotedLiteral, hq, untilQuote_escape q hne]

/-! ## Lookups and assignments -/

/-- Reads a lookup, `timex` and a literal between square brackets, as its key. -/
def lookupKey (s : Text) : Option (Text × Text) :=
  match (skipGap s).after? "timex" with
  | none => none
  | some s =>
    match skipGap s with
    | '[' :: s =>
      match literal (skipGap s) with
      | none => none
      | some (key, s) =>
        match skipGap s with
        | ']' :: rest => some (key, rest)
        | _ => none
    | _ => none

/-- Reads a lookup that is the whole text up to gaps around it. -/
def wholeLookup (s : Text) : Option Text :=
  match lookupKey s with
  | some (key, rest) => if (skipGap rest).isEmpty then some key else none
  | none => none

/-- Reads a lookup and a single equals sign after it. -/
def assignmentTarget (s : Text) : Option (Text × Text) :=
  match lookupKey s with
  | none => none
  | some (key, s) =>
    match skipGap s with
    | '=' :: '=' :: _ => none
    | '=' :: rest => some (key, rest)
    | _ => none

end TimePhrase.Script
