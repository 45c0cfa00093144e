import TimePhrase.Resource.NormalizationTable
import TimePhrase.Script.Error
import TimePhrase.Script.Expr

/-!
# Running scripts

An expression is evaluated against the tables of the grammar, the facts set so far and the text
captured by the script's group. Operands are evaluated from left to right, and the first fault ends
the evaluation.
-/

namespace TimePhrase.Script

/-! ## Numbers -/

/-- Reads a number, which may stand between blanks. -/
def toNumber? (s : Text) : Option Int := s.trim.toInt? .signed64

/-- Applies an operation to two numbers; the result has to be a number again. -/
def arithmetic (operator : Function) (op : Int → Int → Int) (left right : Text) :
    Except Error Text :=
  match toNumber? left, toNumber? right with
  | some a, some b =>
    match IntRange.signed64.checked (op a b) with
    | some n => .ok (Text.ofInt n)
    | none => .error (.arithmeticOverflow operator left right)
  | _, _ => .error (.nonIntegerOperand operator left right)

/-! ## Parts of a text -/

/-- Reads a number that says where to cut `input`. -/
def cutNumber (input s : Text) : Except Error Int :=
  match toNumber? s with
  | some n => .ok n
  | none => .error (.nonIntegerOperand .substring input s)

/-- `length` characters from the position `start` on. A negative length reads to the end. -/
def cutText (input : Text) (start length : Int) : Except Error Text :=
  if start < 0 ∨ input.length < start then .error (.outOfBounds input start length)
  else if length < 0 then .ok (input.drop start.toNat)
  else if input.length < start + length then .error (.outOfBounds input start length)
  else .ok ((input.drop start.toNat).take length.toNat)

/-! ## Expressions -/

/-- The text that an expression stands for. -/
def Expr.eval (tables : Tables) (facts : Dictionary) (captured : Text) : Expr → Except Error Text
  | .constant value => .ok value
  | .captured => .ok captured
  | .lookup key =>
    match facts.get? key with
    | some value => .ok value
    | none => .error (.undefinedKey key)
  | .concat left right => do
    let l ← left.eval tables facts captured
    let r ← right.eval tables facts captured
    return l ++ r
  | .sum left right => do
    let l ← left.eval tables facts captured
    let r ← right.eval tables facts captured
    arithmetic .sum (· + ·) l r
  | .minus left right => do
    let l ← left.eval tables facts captured
    let r ← right.eval tables facts captured
    arithmetic .minus (· - ·) l r
  | .negation operand => do
    let r ← operand.eval tables facts captured
    arithmetic .minus (· - ·) "0" r
  | .mult left right => do
    let l ← left.eval tables facts captured
    let r ← right.eval tables facts captured
    arithmetic .mult (· * ·) l r
  | .normalize table operand =>
    match tables.get? table with
    | none => .error (.unknownTable table)
    | some t => do return t.normalize (← operand.eval tables facts captured)
  | .substring operand start length => do
    let input ← operand.eval tables facts captured
    let i ← cutNumber input (← start.eval tables facts captured)
    let n ← cutNumber input (← length.eval tables facts captured)
    cutText input i n
  | .suffix operand start => do
    let input ← operand.eval tables facts captured
    let i ← cutNumber input (← start.eval tables facts captured)
    cutText input i (-1)

/-! ## Statements -/

/-- The facts after a statement. -/
def Statement.run (tables : Tables) (captured : Text) (facts : Dictionary) (s : Statement) :
    Except Error Dictionary :=
  (s.value.eval tables facts captured).map fun value => facts.insert s.key value

/-- Runs statements in order. A fault ends the run and leaves the facts set before it. -/
def runStatements (tables : Tables) (captured : Text) :
    Dictionary → List Statement → Dictionary × Option Error
  | facts, [] => (facts, none)
  | facts, s :: r =>
    match s.run tables captured facts with
    | .ok facts => runStatements tables captured facts r
    | .error e => (facts, some e)

end TimePhrase.Script
