import TimePhrase.Script.Error
import TimePhrase.Script.Expr
import TimePhrase.Script.TopLevel

/-!
# Compiling scripts

A source is tried against a table of shapes. The first shape that recognises it decides: it gives
the expression, or the fault in a source of its shape. So the order of a table is the precedence of
its shapes.

* `compileExpr`, `compileStatement`, `compileScript`  the three kinds of sources
* `expressionShapes`, `statementShapes`  the two tables
-/

namespace TimePhrase.Script

/-- A named shape of sources. Its reader says nothing about sources of other shapes. -/
structure Shape (α : Type) where
  name : Text
  read : Text → Except Error (Option α)

/-- What the first shape that recognises a source makes of it. -/
def firstReading {α : Type} (source : Text) : List (Shape α) → Except Error (Option α)
  | [] => .ok none
  | shape :: r =>
    match shape.read source with
    | .error e => .error e
    | .ok (some a) => .ok (some a)
    | .ok none => firstReading source r

/-! ## Calls -/

/-- The arguments of a call of `function`, not compiled yet. There have to be `least` to `most` of
    them, none of them blank. -/
def splitArguments (ruleId : Text) (function : Function) (least most : Nat)
    (source arguments : Text) :
    Except Error (List Text) :=
  let parts := if arguments.isBlank then [] else splitTopLevel (· == ',') arguments
  if parts.length < least ∨ most < parts.length then
    .error (.malformedCall ruleId function source (.argumentCount least most parts.length))
  else if parts.any Text.isBlank then .error (.malformedCall ruleId function source .emptyArgument)
  else .ok parts

/-- The compiled arguments of a call, if the source is one. -/
def readCall (compile : Text → Except Error Expr) (ruleId : Text) (function : Function)
    (least most : Nat) (source : Text) : Except Error (Option (List Expr)) :=
  match callArguments function.name source with
  | none => .ok none
  | some arguments => do
    let parts ← splitArguments ruleId function least most source arguments
    let operands ← parts.mapM compile
    return some operands

/-! ## Shapes of expressions -/

/-- Two or more operands joined by plus signs; the leftmost ones are joined first. -/
def readConcat (compile : Text → Except Error Expr) (ruleId source : Text) :
    Except Error (Option Expr) :=
  let operands := splitTopLevel (· == '+') source
  if operands.length < 2 then .ok none
  else if operands.any Text.isBlank then .error (.emptyOperand ruleId source)
  else do
    match ← operands.mapM compile with
    | [] => return none
    | first :: others => return some (others.foldl .concat first)

/-- The id of a table in a literal: what follows the number signs at its beginning. -/
def tableId (literal : Text) : Text := literal.dropWhile (· == '#')

/-- A table and a text to look up in it. -/
def readNormalize (compile : Text → Except Error Expr) (ruleId source : Text) :
    Except Error (Option Expr) :=
  match callArguments (Function.name .normalize) source with
  | none => .ok none
  | some arguments => do
    match ← splitArguments ruleId .normalize 2 2 source arguments with
    | [table, operand] =>
      match wholeLiteral table with
      | none => throw (.malformedCall ruleId .normalize source .tableNotLiteral)
      | some literal =>
        let table := tableId literal
        if table.isEmpty then throw (.malformedCall ruleId .normalize source .tableEmpty)
        else return some (.normalize table (← compile operand))
    | _ => return none

/-- A text, a position and perhaps a number of characters. -/
def readSubstring (compile : Text → Except Error Expr) (ruleId source : Text) :
    Except Error (Option Expr) := do
  match ← readCall compile ruleId .substring 2 3 source with
  | some [operand, start] => return some (.suffix operand start)
  | some [operand, start, length] => return some (.substring operand start length)
  | _ => return none

/-- Two numbers to add. -/
def readSum (compile : Text → Except Error Expr) (ruleId source : Text) :
    Except Error (Option Expr) := do
  match ← readCall compile ruleId .sum 2 2 source with
  | some [left, right] => return some (.sum left right)
  | _ => return none

/-- Two numbers to subtract, or one to negate. -/
def readMinus (compile : Text → Except Error Expr) (ruleId source : Text) :
    Except Error (Option Expr) := do
  match ← readCall compile ruleId .minus 1 2 source with
  | some [operand] => return some (.negation operand)
  | some [left, right] => return some (.minus left right)
  | _ => return none

/-- Two numbers to multiply. -/
def readMult (compile : Text → Except Error Expr) (ruleId source : Text) :
    Except Error (Option Expr) := do
  match ← readCall compile ruleId .mult 2 2 source with
  | some [left, right] => return some (.mult left right)
  | _ => return none

/-- The shapes of expressions, whose parts are compiled by `compile`. Concatenation binds loosest,
    and a literal is what has no other shape. -/
def expressionShapes (compile : Text → Except Error Expr) (ruleId : Text) : List (Shape Expr) :=
  [⟨"concatenation", readConcat compile ruleId⟩,
   ⟨"Normalize", readNormalize compile ruleId⟩,
   ⟨"Substring", readSubstring compile ruleId⟩,
   ⟨"Sum", readSum compile ruleId⟩,
   ⟨"Minus", readMinus compile ruleId⟩,
   ⟨"Mult", readMult compile ruleId⟩,
   ⟨"lookup", fun source => .ok ((wholeLookup source).map .lookup)⟩,
   ⟨"value", fun source => .ok (if source = "value" then some .captured else none)⟩,
   ⟨"constant", fun source => .ok ((wholeLiteral source).map .constant)⟩]

/-! ## Sources -/

/-- Compiles an expression whose parts nest fewer than `depth` levels. -/
def compileExprWithin (ruleId : Text) : Nat → Text → Except Error Expr
  | 0, source => .error (.unrecognizedExpression ruleId source.trim)
  | depth + 1, source =>
    let source := source.trim
    if source.isEmpty then .error (.unrecognizedExpression ruleId source)
    else
      match firstReading source (expressionShapes (compileExprWithin ruleId depth) ruleId) with
      | .error e => .error e
      | .ok (some e) => .ok e
      | .ok none => .error (.unrecognizedExpression ruleId source)

/-- Compiles an expression. The parts of an expression are shorter than the whole, so they nest
    fewer levels than there are characters. -/
def compileExpr (ruleId source : Text) : Except Error Expr :=
  compileExprWithin ruleId (source.length + 1) source

/-- The shapes of statements: an assignment is the only one. -/
def statementShapes (ruleId : Text) : List (Shape Statement) :=
  [⟨"assignment", fun source =>
    match assignmentTarget source with
    | none => .ok none
    | some (key, rest) => (compileExpr ruleId rest).map fun value => some ⟨key, value⟩⟩]

/-- Compiles a statement. -/
def compileStatement (ruleId source : Text) : Except Error Statement :=
  let source := source.trim
  match firstReading source (statementShapes ruleId) with
  | .error e => .error e
  | .ok (some s) => .ok s
  | .ok none => .error (.unrecognizedStatement ruleId source)

/-- What stands between two statements. -/
def isStatementSeparator (c : Char) : Bool := c == ';' || c == '\n' || c == '\r'

/-- Compiles the statements of a script in order. Blank ones are passed over. -/
def compileScript (ruleId source : Text) : Except Error (List Statement) :=
  ((splitTopLevel isStatementSeparator source).filter fun s => !s.isBlank).mapM
    (compileStatement ruleId)

end TimePhrase.Script
