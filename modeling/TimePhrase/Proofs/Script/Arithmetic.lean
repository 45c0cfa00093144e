import Mathlib.Algebra.Group.Int.Defs
import TimePhrase.Proofs.Fallible
import TimePhrase.Proofs.Text.Integer
import TimePhrase.Script.Eval

/-!
# Arithmetic in expressions

Every operation writes its result as a text, and the operation around it reads that text again. What
is written is read back, so nothing gets lost on the way: an expression has its exact value as long
as every result on the way fits into 64 bits, and otherwise the first one that does not is reported.

* `Expr.exact`  the value without any limit
* `Expr.operations`  the operations of an expression, in the order in which they are carried out
* `Expr.eval_of_operands`  one operation
* `Expr.exists_eval_of_fits`, `Expr.exists_overflow`  whole expressions
-/

namespace TimePhrase.Script

/-- An operation on two numbers, with the expressions for them. -/
structure Operation where
  function : Function
  apply : Int → Int → Int
  left : Expr
  right : Expr

namespace Expr

/-- The operation that an expression consists of. The other sign is taken by subtracting from 0. -/
def operation? : Expr → Option Operation
  | .sum left right => some ⟨.sum, (· + ·), left, right⟩
  | .minus left right => some ⟨.minus, (· - ·), left, right⟩
  | .negation operand => some ⟨.minus, (· - ·), .constant "0", operand⟩
  | .mult left right => some ⟨.mult, (· * ·), left, right⟩
  | _ => none

/-- Expressions that consist of operations on constants, where every constant reads as a number. -/
inductive IsArithmetic : Expr → Prop where
  | constant {value : Text} {n : Int} (h : toNumber? value = some n) : IsArithmetic (.constant value)
  | operation {e : Expr} {o : Operation} (h : e.operation? = some o) (left : IsArithmetic o.left)
      (right : IsArithmetic o.right) : IsArithmetic e

/-- The value of such an expression, without any limit. -/
def exact : Expr → Int
  | .constant value => (toNumber? value).getD 0
  | .sum left right => left.exact + right.exact
  | .minus left right => left.exact - right.exact
  | .negation operand => 0 - operand.exact
  | .mult left right => left.exact * right.exact
  | _ => 0

/-- The operations of an expression: each one behind those of its operands, and those of the left
    operand before those of the right one. -/
def operations : Expr → List Expr
  | .sum left right => left.operations ++ right.operations ++ [.sum left right]
  | .minus left right => left.operations ++ right.operations ++ [.minus left right]
  | .negation operand => operand.operations ++ [.negation operand]
  | .mult left right => left.operations ++ right.operations ++ [.mult left right]
  | _ => []

/-- Whether the value is a signed number of 64 bits. -/
def Fits (e : Expr) : Prop := -2 ^ 63 ≤ e.exact ∧ e.exact ≤ 2 ^ 63 - 1

instance (e : Expr) : Decidable e.Fits := inferInstanceAs (Decidable (_ ∧ _))

/-- The first operation of an expression whose value does not fit. -/
def overflow? (e : Expr) : Option Expr := e.operations.find? fun n => !decide n.Fits

variable {tables : Tables} {facts : Dictionary} {captured : Text} {e : Expr} {o : Operation}

/-! ## One operation -/

theorem exact_of_operation? (h : e.operation? = some o) :
    e.exact = o.apply o.left.exact o.right.exact := by
  cases e with
  | sum left right | minus left right | mult left right | negation operand =>
    obtain rfl := Option.some.inj h
    rfl
  | _ => exact nomatch h

theorem operations_of_operation? (h : e.operation? = some o) :
    e.operations = o.left.operations ++ o.right.operations ++ [e] := by
  cases e with
  | sum left right | minus left right | mult left right | negation operand =>
    obtain rfl := Option.some.inj h
    rfl
  | _ => exact nomatch h

theorem overflow?_eq_none : e.overflow? = none ↔ ∀ n ∈ e.operations, n.Fits := by
  simp [overflow?]

theorem overflow?_of_operation? (h : e.operation? = some o) :
    e.overflow? = o.left.overflow?.or (o.right.overflow?.or (if e.Fits then none else some e)) := by
  rw [overflow?, operations_of_operation? h, List.find?_append, List.find?_append, Option.or_assoc]
  by_cases he : e.Fits <;> simp [overflow?, he]

theorem eval_of_operation? (h : e.operation? = some o) :
    e.eval tables facts captured = (do
      let l ← o.left.eval tables facts captured
      let r ← o.right.eval tables facts captured
      arithmetic o.function o.apply l r) := by
  cases e with
  | sum left right | minus left right | mult left right | negation operand =>
    obtain rfl := Option.some.inj h
    rfl
  | _ => exact nomatch h

/-- A result that fits is a number again for whoever reads it. -/
theorem toNumber?_ofInt (h : e.Fits) : toNumber? (Text.ofInt e.exact) = some e.exact := by
  have hholds : IntRange.signed64.holds e.exact = true := Text.holds_iff.mpr h
  rw [toNumber?, Text.trim_ofInt, Text.toInt?_ofInt, IntRange.checked, if_pos hholds]

/-- Of operands that read as their exact values, an operation makes its own exact value, or it
    reports that this does not fit. -/
theorem eval_of_operands {l r : Text} (h : e.operation? = some o)
    (hl : o.left.eval tables facts captured = .ok l) (hln : toNumber? l = some o.left.exact)
    (hr : o.right.eval tables facts captured = .ok r) (hrn : toNumber? r = some o.right.exact) :
    e.eval tables facts captured =
      if e.Fits then .ok (Text.ofInt e.exact) else .error (.arithmeticOverflow o.function l r) := by
  have hholds : IntRange.signed64.holds e.exact = true ↔ e.Fits := Text.holds_iff
  have heval : e.eval tables facts captured = arithmetic o.function o.apply l r := by
    rw [eval_of_operation? h, hl, hr]
    rfl
  rw [heval, arithmetic, hln, hrn]
  simp only [← exact_of_operation? h, IntRange.checked, hholds]
  split
  · -- the result fits
    rename_i n hn
    split at hn
    · rename_i hfits
      rw [if_pos hfits, Option.some.inj hn]
    · cases hn
  · -- it does not
    rename_i hn
    split at hn
    · cases hn
    · rename_i hfits
      rw [if_neg hfits]

/-! ## Whole expressions -/

/-- An expression all of whose results fit has its exact value, and that is the text which the last
    operation writes. -/
theorem exists_eval_of_fits (h : e.IsArithmetic) (hfits : ∀ n ∈ e.operations, n.Fits) :
    ∃ t, e.eval tables facts captured = .ok t ∧ toNumber? t = some e.exact ∧
      (e.operations ≠ [] → t = Text.ofInt e.exact) := by
  induction h with
  | constant hn => exact ⟨_, rfl, by simp [exact, hn], fun hne => absurd rfl hne⟩
  | @operation e o ho _ _ ihl ihr =>
    rw [operations_of_operation? ho] at hfits
    simp only [List.mem_append, List.mem_singleton] at hfits
    obtain ⟨l, hl, hln, -⟩ := ihl fun n hn => hfits n (.inl (.inl hn))
    obtain ⟨r, hr, hrn, -⟩ := ihr fun n hn => hfits n (.inl (.inr hn))
    have hwhole : e.Fits := hfits e (.inr rfl)
    have heval := eval_of_operands ho hl hln hr hrn
    rw [if_pos hwhole] at heval
    exact ⟨_, heval, toNumber?_ofInt hwhole, fun _ => rfl⟩

/-- The first operation of an expression whose value does not fit ends the evaluation. Its operands
    still have theirs. -/
theorem exists_overflow {n : Expr} (h : e.IsArithmetic) (hn : e.overflow? = some n) :
    ∃ o l r, n.operation? = some o ∧ o.left.eval tables facts captured = .ok l ∧
      o.right.eval tables facts captured = .ok r ∧
      e.eval tables facts captured = .error (.arithmeticOverflow o.function l r) := by
  induction h generalizing n with
  | constant => exact nomatch hn
  | @operation e o ho hleft hright ihl ihr =>
    rw [overflow?_of_operation? ho] at hn
    rw [eval_of_operation? ho]
    -- The left operand comes first, then the right one, then the operation itself.
    cases hl : o.left.overflow? with
    | some m =>
      obtain rfl : m = n := by simpa [hl] using hn
      obtain ⟨o', l, r, ho', hl', hr', herror⟩ := ihl hl
      exact ⟨o', l, r, ho', hl', hr', by rw [herror]; rfl⟩
    | none =>
      obtain ⟨l, hleval, hln, -⟩ := exists_eval_of_fits hleft (overflow?_eq_none.mp hl)
      cases hr : o.right.overflow? with
      | some m =>
        obtain rfl : m = n := by simpa [hl, hr] using hn
        obtain ⟨o', l', r, ho', hl', hr', herror⟩ := ihr hr
        exact ⟨o', l', r, ho', hl', hr', by rw [hleval, herror]; rfl⟩
      | none =>
        obtain ⟨r, hreval, hrn, -⟩ := exists_eval_of_fits hright (overflow?_eq_none.mp hr)
        obtain ⟨hunfit, rfl⟩ : ¬ e.Fits ∧ e = n := by simpa [hl, hr] using hn
        have heval := eval_of_operands ho hleval hln hreval hrn
        rw [if_neg hunfit, eval_of_operation? ho] at heval
        exact ⟨o, l, r, ho, hleval, hreval, heval⟩

/-- Arithmetic is exact, or it says what it fails at: the text of an expression is its exact value in
    decimal form, unless an operation in it has a value of more than 64 bits. Then the first such
    operation is reported, with the texts of its operands. -/
theorem eval_exact (tables : Tables) (facts : Dictionary) (captured : Text) (h : e.IsArithmetic)
    (hne : e.operations ≠ []) :
    ((∀ n ∈ e.operations, n.Fits) → e.eval tables facts captured = .ok (toString e.exact)) ∧
    ∀ n, e.overflow? = some n →
      ∃ o l r, n.operation? = some o ∧ o.left.eval tables facts captured = .ok l ∧
        o.right.eval tables facts captured = .ok r ∧
        e.eval tables facts captured = .error (.arithmeticOverflow o.function l r) := by
  refine ⟨fun hfits => ?_, fun n hn => exists_overflow h hn⟩
  obtain ⟨t, ht, hwritten⟩ : ∃ t, e.eval tables facts captured = .ok t ∧ t = Text.ofInt e.exact := by
    obtain ⟨t, ht, -, hwritten⟩ := exists_eval_of_fits h hfits
    exact ⟨t, ht, hwritten hne⟩
  rw [ht, hwritten, Text.ofInt_eq_toString]

/-- The smallest number of 64 bits is a value, and its opposite is not. What is reported is the
    operation inside, not the one around it. -/
theorem eval_exact_smallest :
    let smallest : Expr := .minus (.negation (.constant " 9223372036854775807 ")) (.constant "+1")
    smallest.eval [] .empty [] = .ok "-9223372036854775808" ∧
      (Expr.sum (.constant "7") (.negation smallest)).eval [] .empty [] =
        .error (.arithmeticOverflow .minus "0" "-9223372036854775808") := by
  intro smallest
  have hsmallest : smallest.IsArithmetic :=
    .operation rfl (.operation rfl (.constant (n := 0) (by decide))
      (.constant (n := 9223372036854775807) (by decide +kernel))) (.constant (n := 1) (by decide))
  have hwhole : (Expr.sum (.constant "7") (.negation smallest)).IsArithmetic :=
    .operation rfl (.constant (n := 7) (by decide))
      (.operation rfl (.constant (n := 0) (by decide)) hsmallest)
  have hvalue : smallest.eval [] .empty [] = .ok "-9223372036854775808" :=
    (eval_exact [] .empty [] hsmallest (by decide)).1 (by decide +kernel)
  refine ⟨hvalue, ?_⟩
  obtain ⟨o, l, r, ho, hl, hr, herror⟩ :=
    (eval_exact [] .empty [] hwhole (by decide)).2 (.negation smallest) (by decide +kernel)
  obtain rfl := Option.some.inj ho
  rw [herror, ← Except.ok.inj hl, ← Except.ok.inj (hvalue.symm.trans hr)]

end Expr

end TimePhrase.Script
