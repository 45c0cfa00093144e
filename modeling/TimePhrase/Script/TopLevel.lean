import TimePhrase.Script.Lexeme
import TimePhrase.Text.Blank

/-!
# The top level of a text

A character is at the top level if it stands outside quotes and outside brackets. An opening
bracket belongs to the level it leaves, and a closing bracket that closes nothing is at the top
level too. The three kinds of brackets are not told apart.
-/

namespace TimePhrase.Script

/-- What a scan of a text has to remember. -/
inductive Scan where
  /-- Outside quotes, inside `depth` brackets. -/
  | code (depth : Nat)
  /-- Inside the quotes `q`. -/
  | quoted (q : Char) (depth : Nat)
  /-- Inside the quotes `q`, after a backslash. -/
  | escaped (q : Char) (depth : Nat)
deriving DecidableEq

namespace Scan

/-- Outside everything, as at the beginning of a text. -/
def outside : Scan := .code 0

/-- The scan after one more character. -/
def next : Scan → Char → Scan
  | .escaped q d, _ => .quoted q d
  | .quoted q d, c => if c = '\\' then .escaped q d else if c = q then .code d else .quoted q d
  | .code d, c =>
    if isQuote c then .quoted c d
    else if c = '(' ∨ c = '[' ∨ c = '{' then .code (d + 1)
    else if c = ')' ∨ c = ']' ∨ c = '}' then .code (d - 1)
    else .code d

/-- Whether the next character is at the top level. Quotes never are. -/
def sees : Scan → Char → Bool
  | .code 0, c => !isQuote c
  | _, _ => false

/-- The scan after a text. -/
def after (s : Scan) (t : Text) : Scan := t.foldl next s

@[simp] theorem after_nil (s : Scan) : s.after [] = s := rfl

@[simp] theorem after_cons (s : Scan) (c : Char) (t : Text) :
    s.after (c :: t) = (s.next c).after t :=
  rfl

/-- The top-level characters of a text, each with its byte position counted from `pos`. -/
def topLevel (s : Scan) (pos : Nat) : Text → List (Nat × Char)
  | [] => []
  | c :: r =>
    if s.sees c then (pos, c) :: topLevel (s.next c) (pos + c.utf8Size) r
    else topLevel (s.next c) (pos + c.utf8Size) r

/-- The parts between the top-level separators of a text. -/
def parts (isSeparator : Char → Bool) (s : Scan) : Text → List Text
  | [] => [[]]
  | c :: r =>
    if s.sees c && isSeparator c then [] :: parts isSeparator (s.next c) r
    else Text.consFirst c (parts isSeparator (s.next c) r)

/-- The parts of a text before and after the first top-level `c`. -/
def breakAt (c : Char) (s : Scan) : Text → Option (Text × Text)
  | [] => none
  | d :: r =>
    if s.sees d && d == c then some ([], r)
    else (breakAt c (s.next d) r).map fun p => (d :: p.1, p.2)

theorem parts_ne_nil (isSeparator : Char → Bool) (s : Scan) (t : Text) :
    parts isSeparator s t ≠ [] := by
  cases t with
  | nil => simp [parts]
  | cons c r =>
    simp only [parts]
    split
    · simp
    · cases parts isSeparator (s.next c) r <;> simp [Text.consFirst]

end Scan

/-- The top-level characters of a text with their byte positions. -/
def topLevel (t : Text) : List (Nat × Char) := Scan.outside.topLevel 0 t

/-- The parts of a text between its top-level separators. -/
def splitTopLevel (isSeparator : Char → Bool) (t : Text) : List Text :=
  Scan.outside.parts isSeparator t

/-- The text between the parentheses, if the whole text is a call of `name`: the name, gaps around
    it, and an opening parenthesis whose partner is the first top-level one after it. Only blanks
    may follow. -/
def callArguments (name : Text) (source : Text) : Option Text :=
  match (skipGap source).after? name with
  | none => none
  | some s =>
    match skipGap s with
    | '(' :: s =>
      match Scan.outside.breakAt ')' s with
      | none => none
      | some (arguments, rest) => if rest.isBlank then some arguments else none
    | _ => none

end TimePhrase.Script
