import TimePhrase.Text.Basic

/-!
# Expressions and statements

The language of the scripts that turn a match into facts. Every expression stands for a text, and a
statement sets one fact.
-/

namespace TimePhrase.Script

/-- An expression. -/
inductive Expr where
  /-- A literal. -/
  | constant (value : Text)
  /-- The text captured by the group that the script belongs to. -/
  | captured
  /-- A fact set earlier. -/
  | lookup (key : Text)
  /-- One text after the other. -/
  | concat (left right : Expr)
  | sum (left right : Expr)
  | minus (left right : Expr)
  /-- The number with the other sign. -/
  | negation (operand : Expr)
  | mult (left right : Expr)
  /-- The canonical form of a text in a table. -/
  | normalize (table : Text) (operand : Expr)
  /-- So many characters of a text from a position on. -/
  | substring (operand start length : Expr)
  /-- All characters of a text from a position on. -/
  | suffix (operand start : Expr)
deriving DecidableEq, Inhabited

/-- A statement sets the fact `key`. -/
structure Statement where
  key : Text
  value : Expr
deriving DecidableEq, Inhabited

end TimePhrase.Script
