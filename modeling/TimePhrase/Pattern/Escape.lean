import TimePhrase.Pattern.Assertion
import TimePhrase.Pattern.CharSet
import TimePhrase.Pattern.Flags
import TimePhrase.Pattern.Property

/-!
# Escapes

What a backslash and the characters after it stand for in a written pattern: a character, a class of
characters, which can be that of a property, or an assertion. References to groups and characters in
base eight are refused.

Classes, words and case can be confined to the characters below 128. What would go beyond these is
refused then: a negated class, the class of a property, and the number of a byte from 128 on.

* `Flags.fold`, `Flags.negate?`  sets as the settings have them
* `readEscape`
-/

namespace TimePhrase.Pattern

/-- The characters with a meaning of their own. -/
def isMeta (c : Char) : Bool := "\\.+*?()|[]\x7b\x7d^$#&-~".toList.contains c

/-- Whether a backslash before the character makes it stand for itself. -/
def isEscapable (c : Char) : Bool :=
  isMeta c || (c.toNat < 128 && !c.isAlphanum && c != '<' && c != '>')

/-- What an escape stands for. -/
inductive Escape where
  | literal (c : Char)
  | set (s : CharSet)
  | assertion (a : Assertion)

/-! ## Sets and settings -/

/-- The set, confined to the characters below 128 where classes are. -/
def Flags.confine (f : Flags) (s : CharSet) : CharSet := if f.unicode then s else s.inter .ascii

/-- Closes a set under case where case does not matter. -/
def Flags.fold (f : Flags) (s : CharSet) : CharSet :=
  if f.caseless then f.confine s.foldClosure else s

/-- The set, unless it goes beyond what classes are confined to. -/
def Flags.allow? (f : Flags) (s : CharSet) : Option CharSet :=
  if f.unicode || s.isAscii then some s else none

/-- A set as it is or all other characters, closed under case before that. -/
def Flags.negate? (f : Flags) (negative : Bool) (s : CharSet) : Option CharSet :=
  f.allow? (if negative then (f.fold s).complement else f.fold s)

/-! ## Runs of characters -/

/-- The next characters that count, up to so many, each with what does not count after it. -/
def takeSpaced (flags : Flags) : Nat → Text → Text × Text
  | 0, s => ([], s)
  | _ + 1, [] => ([], [])
  | n + 1, c :: r =>
    let (taken, rest) := takeSpaced flags n (flags.skip r)
    (c :: taken, rest)

/-- The next characters that count, as long as they are accepted. `fuel` bounds their number. -/
def takeSpacedWhile (flags : Flags) (accepts : Char → Bool) : Nat → Text → Text × Text
  | 0, s => ([], s)
  | _ + 1, [] => ([], [])
  | fuel + 1, c :: r =>
    if accepts c then
      let (taken, rest) := takeSpacedWhile flags accepts fuel (flags.skip r)
      (c :: taken, rest)
    else ([], c :: r)

/-- Reads what stands in braces, after the opening one. -/
def readBraced (flags : Flags) (s : Text) : Option (Text × Text) :=
  match takeSpacedWhile flags (· != '\x7d') s.length (flags.skip s) with
  | (inside, '\x7d' :: rest) => some (inside, rest)
  | _ => none

/-! ## Characters by number -/

/-- The value of a digit in base sixteen. -/
def hexDigit? (c : Char) : Option Nat :=
  if c.isDigit then some (c.toNat - '0'.toNat)
  else if 'a' ≤ c ∧ c ≤ 'f' then some (c.toNat - 'a'.toNat + 10)
  else if 'A' ≤ c ∧ c ≤ 'F' then some (c.toNat - 'A'.toNat + 10)
  else none

/-- The character of a code point written in base sixteen. -/
def hexChar? (digits : Text) : Option Char :=
  match digits.foldlM (fun n c => (hexDigit? c).map (n * 16 + ·)) 0 with
  | some n => if n.isValidChar then some (Char.ofNat n) else none
  | none => none

/-- Reads the digits of an escape by code point: `width` of them, or any number in braces. -/
def readHex (flags : Flags) (width : Nat) (s : Text) : Option (Escape × Text) :=
  match flags.skip s with
  | '\x7b' :: r =>
    match readBraced flags r with
    | some (digits, rest) =>
      if digits.isEmpty then none else (hexChar? digits).map fun c => (.literal c, flags.skip rest)
    | none => none
  | s =>
    let (digits, rest) := takeSpaced flags width s
    -- Two digits are the number of a byte where classes are confined.
    let isChar (c : Char) : Bool := flags.unicode || width != 2 || c.toNat < 128
    if digits.length < width then none
    else ((hexChar? digits).filter isChar).map fun c => (.literal c, rest)

/-! ## Word boundaries -/

/-- Reads what can follow the sign of a word boundary in braces, to say which kind it is. A brace
    that no letter or minus sign follows belongs to a repetition. -/
def readBoundary (flags : Flags) (s : Text) : Option (Escape × Text) :=
  let isNamePart (c : Char) : Bool := c.isAlpha || c == '-'
  let ascii := !flags.unicode
  match s with
  | '\x7b' :: r =>
    match flags.skip r with
    | [] => none
    | c :: r =>
      if isNamePart c then
        match takeSpacedWhile flags isNamePart s.length (c :: r) with
        | (name, '\x7d' :: rest) =>
          if name = "start" then some (.assertion (.wordStart ascii), rest)
          else if name = "end" then some (.assertion (.wordEnd ascii), rest)
          else if name = "start-half" then some (.assertion (.wordStartHalf ascii), rest)
          else if name = "end-half" then some (.assertion (.wordEndHalf ascii), rest)
          else none
        | _ => none
      else some (.assertion (.wordBoundary ascii), s)
  | s => some (.assertion (.wordBoundary ascii), s)

/-! ## Classes -/

/-- A class as it is or all other characters. Where classes are confined, the latter is refused. -/
def readClass (flags : Flags) (negative : Bool) (set : CharSet) (rest : Text) :
    Option (Escape × Text) :=
  let set := flags.confine set
  (flags.allow? (if negative then set.complement else set)).map fun set => (.set set, rest)

variable [PropertyTable]

/-- The class of a property, or all other characters. -/
def Flags.property? (f : Flags) (negative : Bool) (name : Text) : Option CharSet :=
  if f.unicode then
    match PropertyTable.find? name with
    | some set => f.negate? negative set
    | none => none
  else none

/-- Reads the name of a property: one letter, or what stands in braces. -/
def readProperty (flags : Flags) (negative : Bool) (s : Text) : Option (Escape × Text) :=
  match flags.skip s with
  | [] => none
  | '\x7b' :: r =>
    match readBraced flags r with
    | some (name, rest) => (flags.property? negative name).map fun set => (.set set, rest)
    | none => none
  | c :: r =>
    if c = '\\' then none else (flags.property? negative [c]).map fun set => (.set set, r)

/-- Reads an escape, after its backslash. -/
def readEscape (flags : Flags) : Text → Option (Escape × Text)
  | [] => none
  | c :: r =>
    let ascii := !flags.unicode
    if isEscapable c then some (.literal c, r)
    else
      match c with
      | 'd' => readClass flags false .digits r
      | 'D' => readClass flags true .digits r
      | 's' => readClass flags false .blanks r
      | 'S' => readClass flags true .blanks r
      | 'w' => readClass flags false .wordChars r
      | 'W' => readClass flags true .wordChars r
      | 'p' => readProperty flags false r
      | 'P' => readProperty flags true r
      | 'b' => readBoundary flags r
      | 'B' => some (.assertion (.notWordBoundary ascii), r)
      | '<' => some (.assertion (.wordStart ascii), r)
      | '>' => some (.assertion (.wordEnd ascii), r)
      | 'A' => some (.assertion .textStart, r)
      | 'z' => some (.assertion .textEnd, r)
      | 'a' => some (.literal '\x07', r)
      | 'f' => some (.literal '\x0c', r)
      | 't' => some (.literal '\t', r)
      | 'n' => some (.literal '\n', r)
      | 'r' => some (.literal '\r', r)
      | 'v' => some (.literal '\x0b', r)
      | 'x' => readHex flags 2 r
      | 'u' => readHex flags 4 r
      | 'U' => readHex flags 8 r
      | _ => none

end TimePhrase.Pattern
