import TimePhrase.Text.Integer
import TimePhrase.Text.Quoted

/-!
# Faults of scripts

What can go wrong while a script is compiled or run, and how it is reported. A fault of the first
kind names the rule and shows the piece of source it lies in.
-/

namespace TimePhrase.Script

/-- The functions that an expression can call. -/
inductive Function where
  | normalize
  | substring
  | sum
  | minus
  | mult
deriving DecidableEq

namespace Function

/-- The name in scripts and reports. -/
def name : Function → Text
  | .normalize => "Normalize"
  | .substring => "Substring"
  | .sum => "Sum"
  | .minus => "Minus"
  | .mult => "Mult"

end Function

/-- What is wrong with the arguments of a call. -/
inductive CallFault where
  /-- There are `found` arguments where `least` to `most` are asked for. -/
  | argumentCount (least most found : Nat)
  | emptyArgument
  | tableNotLiteral
  | tableEmpty
deriving DecidableEq

namespace CallFault

/-- The report of a fault. -/
def message : CallFault → Text
  | .argumentCount least most found =>
    let expected : Text :=
      if least = most then Text.ofNat least else Text.ofNat least ++ " to " ++ Text.ofNat most
    "expected " ++ expected ++ " argument(s), found " ++ Text.ofNat found
  | .emptyArgument => "empty argument"
  | .tableNotLiteral => "the table id must be a literal"
  | .tableEmpty => "the table id is empty"

end CallFault

/-- A fault of a script. -/
inductive Error where
  | unrecognizedStatement (ruleId snippet : Text)
  | unrecognizedExpression (ruleId snippet : Text)
  | malformedCall (ruleId : Text) (function : Function) (snippet : Text) (fault : CallFault)
  | emptyOperand (ruleId snippet : Text)
  | undefinedKey (key : Text)
  | nonIntegerOperand (operator : Function) (left right : Text)
  | arithmeticOverflow (operator : Function) (left right : Text)
  | outOfBounds (input : Text) (start length : Int)
  | unknownTable (table : Text)
deriving DecidableEq

namespace Error

/-- Whether the fault lies in the source, so that compiling finds it. -/
def isCompileError : Error → Bool
  | .unrecognizedStatement .. | .unrecognizedExpression .. => true
  | .malformedCall .. | .emptyOperand .. => true
  | _ => false

/-- The report of a fault. -/
def message : Error → Text
  | .unrecognizedStatement ruleId snippet =>
    "rule '" ++ ruleId ++ "': unrecognized tag-script statement \x60" ++ snippet ++ "\x60"
  | .unrecognizedExpression ruleId snippet =>
    "rule '" ++ ruleId ++ "': unrecognized tag-script expression \x60" ++ snippet ++ "\x60"
  | .malformedCall ruleId function snippet fault =>
    "rule '" ++ ruleId ++ "': malformed " ++ function.name ++ "(...) in \x60" ++ snippet ++ "\x60: "
      ++ fault.message
  | .emptyOperand ruleId snippet =>
    "rule '" ++ ruleId ++ "': empty operand in concatenation \x60" ++ snippet ++ "\x60"
  | .undefinedKey key => "timex[\"" ++ key ++ "\"] is not defined"
  | .nonIntegerOperand operator left right =>
    operator.name ++ " expects integer operands, got " ++ left.quoted ++ " and " ++ right.quoted
  | .arithmeticOverflow operator left right =>
    operator.name ++ " overflowed on " ++ left.quoted ++ " and " ++ right.quoted
  | .outOfBounds input start length =>
    "substring start " ++ Text.ofInt start ++ " with length " ++ Text.ofInt length
      ++ " is out of bounds for " ++ input.quoted
  | .unknownTable table => "normalization table '" ++ table ++ "' is not defined"

end Error

end TimePhrase.Script
