import TimePhrase.Proofs.Fallible
import TimePhrase.Proofs.Script.Scan
import TimePhrase.Proofs.Text.Trim
import TimePhrase.Script.Compile

/-!
# The equation of the expression compiler

The parts that a shape hands on to be compiled are shorter than the source that it reads. So the
bound on their nesting never counts, and compiling an expression means trying the shapes on it with
the compiler itself for the parts.

* `eq_append_of_callArguments`, `splitArguments_eq_ok`  what a call and its arguments look like
* `firstReading_congr`  the shapes compile nothing but texts shorter than the source
* `compileExpr_eq`  the equation
-/

namespace TimePhrase.Script

/-! ## Calls -/

theorem exists_skipGap (s : Text) :
    ∃ a : Text, s = a ++ skipGap s ∧ ∀ c ∈ a, isGap c = true :=
  ⟨s.takeWhile isGap, List.takeWhile_append_dropWhile.symm, List.all_eq_true.mp List.all_takeWhile⟩

/-- A call consists of the name, the arguments in parentheses, and what may be skipped. -/
theorem eq_append_of_callArguments {name source arguments : Text}
    (h : callArguments name source = some arguments) :
    ∃ a b rest : Text, source = a ++ name ++ b ++ '(' :: (arguments ++ ')' :: rest) ∧
      (∀ c ∈ a, isGap c = true) ∧ (∀ c ∈ b, isGap c = true) ∧ rest.isBlank = true ∧
      Scan.Avoids (· == ')') .outside arguments ∧ (Scan.outside.after arguments).sees ')' = true := by
  obtain ⟨a, ha, hgap⟩ := exists_skipGap source
  rw [callArguments] at h
  split at h
  · simp at h
  rename_i s₁ hname
  obtain ⟨b, hb, hgap'⟩ := exists_skipGap s₁
  split at h
  · rename_i s₂ hopen
    split at h
    · simp at h
    rename_i arguments' rest hclose
    split at h
    · rename_i hrest
      obtain rfl : arguments' = arguments := by simpa using h
      obtain ⟨hs₂, havoids, hsees⟩ := Scan.eq_append_of_breakAt hclose
      refine ⟨a, b, rest, ?_, hgap, hgap', hrest, havoids, hsees⟩
      rw [ha, Text.eq_append_of_after? hname, hb, hopen, hs₂]
      simp only [List.append_assoc]
    · simp at h
  · simp at h

theorem length_lt_of_callArguments {name source arguments : Text}
    (h : callArguments name source = some arguments) : arguments.length < source.length := by
  obtain ⟨a, b, rest, rfl, -⟩ := eq_append_of_callArguments h
  simp only [List.length_append, List.length_cons]
  omega

/-- The arguments of a call are the parts between its commas, if it has any. -/
theorem splitArguments_eq_ok {ruleId : Text} {function : Function} {least most : Nat}
    {source arguments : Text} {parts : List Text}
    (h : splitArguments ruleId function least most source arguments = .ok parts) :
    (parts = [] ∨ parts = splitTopLevel (· == ',') arguments) ∧ least ≤ parts.length ∧
      parts.length ≤ most ∧ ∀ q ∈ parts, q.isBlank = false := by
  have hparts : (if arguments.isBlank then [] else splitTopLevel (· == ',') arguments) = [] ∨
      (if arguments.isBlank then [] else splitTopLevel (· == ',') arguments) =
        splitTopLevel (· == ',') arguments := by
    by_cases hb : arguments.isBlank = true <;> simp [hb]
  unfold splitArguments at h
  generalize (if arguments.isBlank then [] else splitTopLevel (· == ',') arguments) = l at h hparts
  dsimp only at h
  split at h
  · simp at h
  rename_i hcount
  split at h
  · simp at h
  rename_i hblank
  obtain rfl := Except.ok.inj h
  refine ⟨hparts, by omega, by omega, fun q hq => ?_⟩
  rw [Bool.not_eq_true, List.any_eq_false] at hblank
  simpa using hblank q hq

theorem length_le_of_mem_splitArguments {ruleId : Text} {function : Function} {least most : Nat}
    {source arguments : Text} {parts : List Text} {q : Text}
    (h : splitArguments ruleId function least most source arguments = .ok parts) (hq : q ∈ parts) :
    q.length ≤ arguments.length := by
  obtain ⟨rfl | rfl, -⟩ := splitArguments_eq_ok h
  · simp at hq
  · have hle := Scan.length_add_le_of_mem_parts hq
    have hpos := List.length_pos_of_mem hq
    unfold splitTopLevel at hpos
    omega

/-! ## Compilers that agree on short texts -/

section Congr

variable {f g : Text → Except Error Expr} (ruleId source : Text)

theorem readConcat_congr (h : ∀ t : Text, t.length < source.length → f t = g t) :
    readConcat f ruleId source = readConcat g ruleId source := by
  unfold readConcat
  dsimp only
  split
  · rfl
  · rename_i hlen
    have hm : (splitTopLevel (· == '+') source).mapM f = (splitTopLevel (· == '+') source).mapM g :=
      Except.mapM_congr fun q hq => h q (by
        have := Scan.length_add_le_of_mem_parts hq
        unfold splitTopLevel at hlen
        omega)
    rw [hm]

theorem readCall_congr (function : Function) (least most : Nat)
    (h : ∀ t : Text, t.length < source.length → f t = g t) :
    readCall f ruleId function least most source = readCall g ruleId function least most source := by
  unfold readCall
  split
  · rfl
  · rename_i arguments hcall
    have hlt := length_lt_of_callArguments hcall
    cases hsplit : splitArguments ruleId function least most source arguments with
    | error e => rfl
    | ok parts =>
      have hm : parts.mapM f = parts.mapM g := Except.mapM_congr fun q hq =>
        h q (Nat.lt_of_le_of_lt (length_le_of_mem_splitArguments hsplit hq) hlt)
      simp only [bind, Except.bind, hm]

theorem readNormalize_congr (h : ∀ t : Text, t.length < source.length → f t = g t) :
    readNormalize f ruleId source = readNormalize g ruleId source := by
  unfold readNormalize
  split
  · rfl
  · rename_i arguments hcall
    have hlt := length_lt_of_callArguments hcall
    cases hsplit : splitArguments ruleId .normalize 2 2 source arguments with
    | error e => rfl
    | ok parts =>
      have hm : ∀ q ∈ parts, f q = g q := fun q hq =>
        h q (Nat.lt_of_le_of_lt (length_le_of_mem_splitArguments hsplit hq) hlt)
      match parts, hm with
      | [], _ => rfl
      | [_], _ => rfl
      | [table, operand], hm =>
        have hop : f operand = g operand := hm operand (by simp)
        simp only [bind, Except.bind, hop]
      | _ :: _ :: _ :: _, _ => rfl

/-- What the first shape makes of a source depends on the compiler for shorter texts only. -/
theorem firstReading_congr (h : ∀ t : Text, t.length < source.length → f t = g t) :
    firstReading source (expressionShapes f ruleId) =
      firstReading source (expressionShapes g ruleId) := by
  simp only [expressionShapes, firstReading, readConcat_congr ruleId source h,
    readNormalize_congr ruleId source h, readSubstring, readSum, readMinus, readMult,
    readCall_congr ruleId source _ _ _ h]

end Congr

/-! ## The equation -/

/-- Any bound above the length of the source gives the same. -/
theorem compileExprWithin_eq (ruleId : Text) {m n : Nat} {source : Text} (hm : source.length < m)
    (hn : source.length < n) :
    compileExprWithin ruleId m source = compileExprWithin ruleId n source := by
  induction m generalizing n source with
  | zero => omega
  | succ m ih =>
    obtain ⟨n, rfl⟩ : ∃ k, n = k + 1 := ⟨n - 1, by omega⟩
    have hlen := Text.length_trim_le source
    have hshapes := firstReading_congr ruleId source.trim
      fun t ht => ih (by omega : t.length < m) (by omega : t.length < n)
    simp only [compileExprWithin, hshapes]

/-- An expression is compiled by the first shape that recognises it, with the parts compiled in the
    same way. -/
theorem compileExpr_eq (ruleId source : Text) :
    compileExpr ruleId source =
      if source.trim.isEmpty then .error (.unrecognizedExpression ruleId source.trim)
      else
        match firstReading source.trim (expressionShapes (compileExpr ruleId) ruleId) with
        | .error e => .error e
        | .ok (some e) => .ok e
        | .ok none => .error (.unrecognizedExpression ruleId source.trim) := by
  have hlen := Text.length_trim_le source
  have hshapes := firstReading_congr ruleId source.trim fun t ht =>
    compileExprWithin_eq ruleId (by omega : t.length < source.length) (Nat.lt_succ_self t.length)
  rw [compileExpr, compileExprWithin]
  simp only [hshapes]
  rfl

/-- Blanks around an expression do not count. -/
theorem compileExpr_trim (ruleId source : Text) :
    compileExpr ruleId source.trim = compileExpr ruleId source := by
  rw [compileExpr_eq, compileExpr_eq ruleId source, Text.trim_trim]

end TimePhrase.Script
