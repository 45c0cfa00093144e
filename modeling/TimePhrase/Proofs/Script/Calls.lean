import TimePhrase.Proofs.Script.Openings

/-!
# What a call is

The end of a call is found by a scan that does not tell the kinds of brackets apart and lets
brackets close that were never opened. All the same, what is taken for a call can be said without
the scan that looks for its end: the arguments by themselves leave a scan as it was, and show no
closing parenthesis.

* `IsCall`  the texts that are calls, and their arguments
* `isCall_of_callArguments`, `callArguments_of_isCall`  the calls that are read
* `callArguments_eq_some_iff`  both together
-/

namespace TimePhrase.Script

/-- The source is a call of `name`: the name between gaps, an opening parenthesis, the arguments, a
    closing parenthesis, and blanks. At the top level of the arguments is no closing parenthesis,
    and behind them a scan is outside everything. -/
def IsCall (name source arguments : Text) : Prop :=
  ∃ a b rest : Text, source = a ++ name ++ b ++ '(' :: (arguments ++ ')' :: rest) ∧
    (∀ c ∈ a, isGap c = true) ∧ (∀ c ∈ b, isGap c = true) ∧ rest.isBlank = true ∧
    (∀ x ∈ topLevel arguments, x.2 ≠ ')') ∧ Scan.outside.after arguments = .outside

theorem avoids_iff_forall_ne (c : Char) (t : Text) :
    Scan.Avoids (· == c) .outside t ↔ ∀ x ∈ topLevel t, x.2 ≠ c := by
  rw [Scan.avoids_iff_topLevel _ _ 0]
  simp only [beq_eq_false_iff_ne, topLevel]

variable {name source arguments : Text}

theorem isCall_of_callArguments (h : callArguments name source = some arguments) :
    IsCall name source arguments := by
  obtain ⟨a, b, rest, hs, ha, hb, hrest, havoids, hsees⟩ := eq_append_of_callArguments h
  exact ⟨a, b, rest, hs, ha, hb, hrest, (avoids_iff_forall_ne ')' arguments).mp havoids,
    (Scan.eq_outside_of_sees hsees).1⟩

/-- A name without gaps is found where it stands. -/
theorem callArguments_of_isCall (hname : ∀ c ∈ name, isGap c = false)
    (h : IsCall name source arguments) : callArguments name source = some arguments := by
  obtain ⟨a, b, rest, rfl, ha, hb, hrest, hshown, hafter⟩ := h
  have havoids := (avoids_iff_forall_ne ')' arguments).mpr hshown
  have hsees : (Scan.outside.after arguments).sees ')' = true := by rw [hafter]; rfl
  rw [callArguments_append_cons hname ha hb havoids hsees, if_pos hrest]

/-- No letter is a gap. -/
theorem isGap_of_isLetter {c : Char} (h : isLetter c = true) : isGap c = false := by
  by_contra hgap
  rw [Bool.not_eq_false] at hgap
  have hletter : isLetter c = false := eq_of_isGap (by decide) hgap
  exact Bool.false_ne_true (hletter.symm.trans h)

/-- Exactly the calls of a name of letters are read, each with its arguments. There is only one way
    to take a source for a call. -/
theorem callArguments_eq_some_iff (hname : ∀ c ∈ name, isLetter c = true)
    (source arguments : Text) :
    (callArguments name source = some arguments ↔ IsCall name source arguments) ∧
    (IsCall name source arguments → ∀ other, IsCall name source other → other = arguments) := by
  have hgap : ∀ c ∈ name, isGap c = false := fun c hc => isGap_of_isLetter (hname c hc)
  refine ⟨⟨isCall_of_callArguments, callArguments_of_isCall hgap⟩, fun h other hother => ?_⟩
  -- Reading the source gives one result, and both are it.
  have hread := callArguments_of_isCall hgap h
  rw [callArguments_of_isCall hgap hother] at hread
  exact Option.some.inj hread

/-- A bracket that closes nothing, parentheses between quotes, and a space of another kind behind the
    call. Two calls joined by a plus sign are none. -/
theorem callArguments_eq_some_iff_nested :
    (∀ c ∈ "Sum".toList, isLetter c = true) ∧
    callArguments "Sum" "\tSum (x], Mult(1, '))') )\u2003" = some "x], Mult(1, '))') ".toList ∧
    IsCall "Sum" "\tSum (x], Mult(1, '))') )\u2003" "x], Mult(1, '))') " ∧
    (∀ other, IsCall "Sum" "\tSum (x], Mult(1, '))') )\u2003" other →
      other = "x], Mult(1, '))') ".toList) ∧
    ∀ arguments, ¬IsCall "Sum" "Sum(1) + Sum(2)" arguments := by
  have hname : ∀ c ∈ "Sum".toList, isLetter c = true := by decide
  have hread : callArguments "Sum" "\tSum (x], Mult(1, '))') )\u2003" =
      some "x], Mult(1, '))') ".toList := by decide
  have hjoined : callArguments "Sum" "Sum(1) + Sum(2)" = none := by decide
  obtain ⟨hiff, hunique⟩ :=
    callArguments_eq_some_iff hname "\tSum (x], Mult(1, '))') )\u2003" "x], Mult(1, '))') "
  have hcall := hiff.mp hread
  refine ⟨hname, hread, hcall, hunique hcall, fun arguments h => ?_⟩
  have hnone := (callArguments_eq_some_iff hname "Sum(1) + Sum(2)" arguments).1.mpr h
  rw [hjoined] at hnone
  exact nomatch hnone

end TimePhrase.Script
