import TimePhrase.Proofs.Script.Inputs
import TimePhrase.Proofs.Script.Openings
import TimePhrase.Proofs.Script.Form

/-!
# Faults of compiling and of running

Whatever a shape hands on to be compiled is a stretch of the source that it reads. So a fault that
is found deep inside a source shows a stretch of the whole source, as it stands there but without
blanks around it, and it names the rule that the source belongs to. A run has no source to show: its
faults are those of the inputs and of the calls.

* `Error.Shows`, `LiesIn`  the faults that show a piece of a source
* `liesIn_of_compileExpr`, `liesIn_of_compileScript`  faults of compiling
* `isCompileError_of_eval`, `isCompileError_of_runStatements`  faults of running
* `fault_phases`  both together
-/

namespace TimePhrase

theorem Text.trim_isInfix (s : Text) : s.trim <:+: s := by
  obtain ⟨a, b, hs, -, -⟩ := exists_trim s
  exact ⟨a, b, hs.symm⟩

namespace Script

/-! ## Pieces of a source -/

/-- A part of a text is a stretch of it. -/
theorem Scan.isInfix_of_mem_parts {p : Char → Bool} {s : Scan} {t : Text} :
    ∀ q ∈ parts p s t, q <:+: t := by
  generalize hn : t.length = n
  induction n using Nat.strongRecOn generalizing s t with
  | ind n ih =>
    subst hn
    rcases parts_cases p s t with h | ⟨q, c, u, rfl, h, hs, hc⟩
    · rw [parts_eq_singleton h]
      exact List.forall_mem_singleton.mpr (List.infix_refl t)
    · -- The other parts are stretches of what follows the separator.
      have hlt : u.length < (q ++ c :: u).length := by simp; omega
      rw [parts_append_cons h hs hc]
      refine List.forall_mem_cons.mpr ⟨(List.prefix_append q (c :: u)).isInfix, fun q' hq' => ?_⟩
      have hrest : u <:+: q ++ c :: u := ⟨q ++ [c], [], by simp⟩
      exact (ih u.length hlt rfl q' hq').trans hrest

/-- The arguments of a call stand between its parentheses. -/
theorem isInfix_of_callArguments {name source arguments : Text}
    (h : callArguments name source = some arguments) : arguments <:+: source := by
  obtain ⟨a, b, rest, hs, -⟩ := eq_append_of_callArguments h
  exact ⟨a ++ name ++ b ++ ['('], ')' :: rest, by simp [hs]⟩

theorem isInfix_of_mem_splitArguments {ruleId : Text} {function : Function} {least most : Nat}
    {source arguments : Text} {parts : List Text}
    (h : splitArguments ruleId function least most source arguments = .ok parts) :
    ∀ q ∈ parts, q <:+: arguments := by
  obtain ⟨rfl | rfl, -⟩ := splitArguments_eq_ok h
  · exact List.forall_mem_nil _
  · exact Scan.isInfix_of_mem_parts

/-- The expression of an assignment stands at its end. -/
theorem isInfix_of_assignmentTarget {source key rest : Text}
    (h : assignmentTarget source = some (key, rest)) : rest <:+: source := by
  obtain ⟨a, b, inner, gap, hs, -⟩ := eq_append_of_assignmentTarget h
  exact ⟨a ++ "timex".toList ++ b ++ '[' :: (inner ++ ']' :: (gap ++ ['='])), [], by simp [hs]⟩

/-! ## Faults that show a piece of source -/

/-- The faults that show a snippet and name a rule. -/
inductive Error.Shows (ruleId snippet : Text) : Error → Prop where
  | statement : Shows ruleId snippet (.unrecognizedStatement ruleId snippet)
  | expression : Shows ruleId snippet (.unrecognizedExpression ruleId snippet)
  | call (function : Function) (fault : CallFault) :
    Shows ruleId snippet (.malformedCall ruleId function snippet fault)
  | operand : Shows ruleId snippet (.emptyOperand ruleId snippet)

/-- These are the compile errors. -/
theorem Error.isCompileError_iff {err : Error} :
    err.isCompileError = true ↔ ∃ ruleId snippet, err.Shows ruleId snippet := by
  constructor
  · intro h
    cases err with
    | unrecognizedStatement ruleId snippet => exact ⟨ruleId, snippet, .statement⟩
    | unrecognizedExpression ruleId snippet => exact ⟨ruleId, snippet, .expression⟩
    | malformedCall ruleId function snippet fault => exact ⟨ruleId, snippet, .call function fault⟩
    | emptyOperand ruleId snippet => exact ⟨ruleId, snippet, .operand⟩
    | _ => exact nomatch h
  · rintro ⟨ruleId, snippet, h⟩
    cases h <;> rfl

/-- A fault that names the rule and shows a stretch of the source, without blanks around it. -/
def LiesIn (ruleId source : Text) (err : Error) : Prop :=
  ∃ snippet : Text, err.Shows ruleId snippet ∧ snippet <:+: source ∧ snippet.Trimmed

section Compiling

variable {ruleId source : Text} {err : Error}

theorem LiesIn.isCompileError (h : LiesIn ruleId source err) : err.isCompileError = true := by
  obtain ⟨snippet, hshows, -, -⟩ := h
  exact Error.isCompileError_iff.mpr ⟨ruleId, snippet, hshows⟩

/-- A fault in a stretch of a source is one in the source. -/
theorem LiesIn.mono {part : Text} (h : LiesIn ruleId part err) (hpart : part <:+: source) :
    LiesIn ruleId source err := by
  obtain ⟨snippet, hshows, hinfix, htrimmed⟩ := h
  exact ⟨snippet, hshows, hinfix.trans hpart, htrimmed⟩

/-- A fault that shows a whole source without blanks around it. -/
theorem liesIn_self (h : err.Shows ruleId source) (hs : source.Trimmed) :
    LiesIn ruleId source err :=
  ⟨source, h, List.infix_refl source, hs⟩

/-- A fault that shows a source without the blanks around it. -/
theorem liesIn_trim (h : err.Shows ruleId source.trim) : LiesIn ruleId source err :=
  (liesIn_self h (Text.trimmed_trim source)).mono source.trim_isInfix

/-! ## Readers -/

/-- A source is not read by any shape, or the fault is that of a shape. -/
theorem failsOnly_firstReading {α : Type} {p : Error → Prop} {shapes : List (Shape α)}
    (h : ∀ shape ∈ shapes, (shape.read source).FailsOnly p) :
    (firstReading source shapes).FailsOnly p := by
  induction shapes with
  | nil => exact .ok _
  | cons shape r ih =>
    obtain ⟨hshape, hr⟩ := List.forall_mem_cons.mp h
    rw [firstReading]
    split
    · rename_i e he
      exact .error (hshape e he)
    · exact .ok _
    · exact ih hr

theorem liesIn_of_splitArguments (ruleId : Text) (hs : source.Trimmed) (function : Function)
    (least most : Nat) (arguments : Text) :
    (splitArguments ruleId function least most source arguments).FailsOnly
      (LiesIn ruleId source) := by
  unfold splitArguments
  generalize (if arguments.isBlank then [] else splitTopLevel (· == ',') arguments) = parts
  dsimp only
  split
  · exact .error (liesIn_self (.call _ _) hs)
  split
  · exact .error (liesIn_self (.call _ _) hs)
  · exact .ok _

section Shapes

variable {compile : Text → Except Error Expr}

/-- A fault in a part is one in the source. -/
theorem liesIn_of_part (hc : ∀ t, (compile t).FailsOnly (LiesIn ruleId t)) {part : Text}
    (hpart : part <:+: source) : (compile part).FailsOnly (LiesIn ruleId source) :=
  (hc part).mono fun _ h => h.mono hpart

theorem liesIn_of_readConcat (hc : ∀ t, (compile t).FailsOnly (LiesIn ruleId t))
    (hs : source.Trimmed) :
    (readConcat compile ruleId source).FailsOnly (LiesIn ruleId source) := by
  unfold readConcat
  dsimp only
  split
  · exact .ok _
  split
  · exact .error (liesIn_self .operand hs)
  · refine Except.FailsOnly.bind (.mapM fun q hq => ?_) fun es => ?_
    · exact liesIn_of_part hc (Scan.isInfix_of_mem_parts q hq)
    · split <;> exact .ok _

theorem liesIn_of_readCall (hc : ∀ t, (compile t).FailsOnly (LiesIn ruleId t))
    (hs : source.Trimmed) (function : Function) (least most : Nat) :
    (readCall compile ruleId function least most source).FailsOnly (LiesIn ruleId source) := by
  unfold readCall
  split
  · exact .ok _
  rename_i arguments hcall
  have hsplit := liesIn_of_splitArguments ruleId hs function least most arguments
  refine hsplit.bind_of_ok fun parts hparts => ?_
  refine Except.FailsOnly.bind (.mapM fun q hq => ?_) fun es => .ok _
  have hq := isInfix_of_mem_splitArguments hparts q hq
  exact liesIn_of_part hc (hq.trans (isInfix_of_callArguments hcall))

theorem liesIn_of_readNormalize (hc : ∀ t, (compile t).FailsOnly (LiesIn ruleId t))
    (hs : source.Trimmed) :
    (readNormalize compile ruleId source).FailsOnly (LiesIn ruleId source) := by
  unfold readNormalize
  split
  · exact .ok _
  rename_i arguments hcall
  have hsplit := liesIn_of_splitArguments ruleId hs .normalize 2 2 arguments
  refine hsplit.bind_of_ok fun parts hparts => ?_
  split
  · rename_i table operand
    split
    · exact .error (liesIn_self (.call _ _) hs)
    dsimp only
    split
    · exact .error (liesIn_self (.call _ _) hs)
    · refine Except.FailsOnly.bind ?_ fun value => .ok _
      have hoperand := isInfix_of_mem_splitArguments hparts operand (by simp)
      exact liesIn_of_part hc (hoperand.trans (isInfix_of_callArguments hcall))
  · exact .ok _

theorem liesIn_of_readFunction (hc : ∀ t, (compile t).FailsOnly (LiesIn ruleId t))
    (hs : source.Trimmed) (function : Function) :
    (readFunction compile ruleId function source).FailsOnly (LiesIn ruleId source) := by
  cases function with
  | normalize => exact liesIn_of_readNormalize hc hs
  | substring | sum | minus | mult =>
    refine (liesIn_of_readCall hc hs _ _ _).bind fun es => ?_
    split <;> exact .ok _

/-- A fault of a shape lies in the source, if those of its parts lie in the parts. -/
theorem liesIn_of_read (hc : ∀ t, (compile t).FailsOnly (LiesIn ruleId t)) (hs : source.Trimmed)
    (form : Form) : (form.read compile ruleId source).FailsOnly (LiesIn ruleId source) := by
  cases form with
  | concat => exact liesIn_of_readConcat hc hs
  | call function => exact liesIn_of_readFunction hc hs function
  | lookup | captured | constant => exact .ok _

end Shapes

/-! ## Sources -/

theorem liesIn_of_compileExprWithin (ruleId : Text) (depth : Nat) (source : Text) :
    (compileExprWithin ruleId depth source).FailsOnly (LiesIn ruleId source) := by
  induction depth generalizing source with
  | zero => exact .error (liesIn_trim .expression)
  | succ depth ih =>
    have hread : (firstReading source.trim
        (expressionShapes (compileExprWithin ruleId depth) ruleId)).FailsOnly
          (LiesIn ruleId source.trim) := by
      refine failsOnly_firstReading fun shape hshape => ?_
      rw [← Form.map_shape_all] at hshape
      obtain ⟨form, -, rfl⟩ := List.mem_map.mp hshape
      exact liesIn_of_read ih (Text.trimmed_trim source) form
    unfold compileExprWithin
    dsimp only
    split
    · exact .error (liesIn_trim .expression)
    split
    · rename_i e he
      exact .error ((hread e he).mono source.trim_isInfix)
    · exact .ok _
    · exact .error (liesIn_trim .expression)

theorem liesIn_of_compileExpr (ruleId source : Text) :
    (compileExpr ruleId source).FailsOnly (LiesIn ruleId source) :=
  liesIn_of_compileExprWithin ruleId (source.length + 1) source

theorem liesIn_of_compileStatement (ruleId source : Text) :
    (compileStatement ruleId source).FailsOnly (LiesIn ruleId source) := by
  have hread : (firstReading source.trim (statementShapes ruleId)).FailsOnly
      (LiesIn ruleId source.trim) := by
    refine failsOnly_firstReading (List.forall_mem_singleton.mpr ?_)
    dsimp only
    split
    · exact .ok _
    · rename_i key rest htarget
      have hvalue := (liesIn_of_compileExpr ruleId rest).mono fun _ h =>
        h.mono (isInfix_of_assignmentTarget htarget)
      exact hvalue.map _
  unfold compileStatement
  dsimp only
  split
  · rename_i e he
    exact .error ((hread e he).mono source.trim_isInfix)
  · exact .ok _
  · exact .error (liesIn_trim .statement)

theorem liesIn_of_compileScript (ruleId source : Text) :
    (compileScript ruleId source).FailsOnly (LiesIn ruleId source) := by
  refine .mapM fun part hpart => ?_
  have hinfix := Scan.isInfix_of_mem_parts part (List.mem_filter.mp hpart).1
  exact (liesIn_of_compileStatement ruleId part).mono fun _ h => h.mono hinfix

end Compiling

/-! ## Running -/

section Running

variable {tables : Tables} {facts : Dictionary} {captured : Text}

theorem Input.isCompileError_of_fault? {x : Input} {err : Error} (h : x.fault? = some err) :
    err.isCompileError = false := by
  cases x with
  | captured => exact nomatch h
  | fact key =>
    rw [← Option.some.inj h]
    rfl
  | table id =>
    rw [← Option.some.inj h]
    rfl

theorem Error.isCompileError_of_call? {f : Function} {err : Error} (h : err.call? = some f) :
    err.isCompileError = false := by
  cases err with
  | nonIntegerOperand | arithmeticOverflow | outOfBounds => rfl
  | _ => exact nomatch h

/-- What is to blame for a fault of an expression is no source. -/
theorem isCompileError_of_eval (tables : Tables) (facts : Dictionary) (captured : Text) (e : Expr) :
    (e.eval tables facts captured).FailsOnly fun err => err.isCompileError = false := by
  refine (e.blames_of_eval tables facts captured).mono fun err hblames => ?_
  rcases hblames with ⟨x, -, -, hfault⟩ | ⟨f, -, -, hcall⟩
  · exact Input.isCompileError_of_fault? hfault
  · exact Error.isCompileError_of_call? hcall

theorem isCompileError_of_run (tables : Tables) (captured : Text) (facts : Dictionary)
    (s : Statement) :
    (s.run tables captured facts).FailsOnly fun err => err.isCompileError = false :=
  (isCompileError_of_eval tables facts captured s.value).map _

theorem isCompileError_of_runStatements {script : List Statement} {err : Error}
    (h : (runStatements tables captured facts script).2 = some err) :
    err.isCompileError = false := by
  induction script generalizing facts with
  | nil => exact nomatch h
  | cons s r ih =>
    rw [runStatements] at h
    split at h
    · exact ih h
    · rename_i e he
      rw [← Option.some.inj h]
      exact isCompileError_of_run tables captured facts s e he

end Running

/-! ## Both -/

/-- A fault of compiling a source, as an expression, a statement or a script. -/
inductive Error.IsOfSource (ruleId source : Text) (err : Error) : Prop where
  | expr (h : compileExpr ruleId source = .error err)
  | statement (h : compileStatement ruleId source = .error err)
  | script (h : compileScript ruleId source = .error err)

/-- A fault of running an expression, a statement or a script. -/
inductive Error.IsOfRun (err : Error) : Prop where
  | expr {tables : Tables} {facts : Dictionary} {captured : Text} {e : Expr}
    (h : e.eval tables facts captured = .error err)
  | statement {tables : Tables} {facts : Dictionary} {captured : Text} {s : Statement}
    (h : s.run tables captured facts = .error err)
  | script {tables : Tables} {facts : Dictionary} {captured : Text} {script : List Statement}
    (h : (runStatements tables captured facts script).2 = some err)

theorem liesIn_of_isOfSource {ruleId source : Text} {err : Error}
    (h : err.IsOfSource ruleId source) : LiesIn ruleId source err := by
  cases h with
  | expr h => exact liesIn_of_compileExpr ruleId source err h
  | statement h => exact liesIn_of_compileStatement ruleId source err h
  | script h => exact liesIn_of_compileScript ruleId source err h

theorem isCompileError_of_isOfRun {err : Error} (h : err.IsOfRun) : err.isCompileError = false := by
  cases h with
  | expr h => exact isCompileError_of_eval _ _ _ _ err h
  | statement h => exact isCompileError_of_run _ _ _ _ err h
  | script h => exact isCompileError_of_runStatements h

/-- A fault of compiling is one of the compile errors: it names the rule and shows a stretch of the
    source without blanks around it. A fault of running is none of them. So the kind of a fault
    tells which of the two it comes from. -/
theorem fault_phases (err : Error) :
    (∀ ruleId source : Text, err.IsOfSource ruleId source → LiesIn ruleId source err) ∧
    (err.IsOfRun → err.isCompileError = false) ∧
    ((∃ ruleId source : Text, err.IsOfSource ruleId source) ∨ err.IsOfRun →
      (err.isCompileError = true ↔ ∃ ruleId source : Text, err.IsOfSource ruleId source) ∧
      (err.isCompileError = false ↔ err.IsOfRun)) := by
  refine ⟨fun ruleId source => liesIn_of_isOfSource, isCompileError_of_isOfRun, fun h => ?_⟩
  have hsource (h : ∃ ruleId source : Text, err.IsOfSource ruleId source) :
      err.isCompileError = true := by
    obtain ⟨ruleId, source, h⟩ := h
    exact (liesIn_of_isOfSource h).isCompileError
  rcases h with h | h
  · -- It cannot be a fault of running, too.
    have htrue := hsource h
    refine ⟨iff_of_true htrue h, iff_of_false (by simp [htrue]) fun hrun => ?_⟩
    rw [isCompileError_of_isOfRun hrun] at htrue
    exact nomatch htrue
  · have hfalse := isCompileError_of_isOfRun h
    refine ⟨iff_of_false (by simp [hfalse]) fun hcompile => ?_, iff_of_true hfalse h⟩
    rw [hsource hcompile] at hfalse
    exact nomatch hfalse

/-- A script whose second statement has an empty argument deep inside. -/
def nestedFault : Text := "timex[a] = value;\n timex[b] = \"-\" + Sum(1, Mult( 2 ,)) "

/-- The fault shows the inner call. A number that is missing is noticed when the script runs. -/
theorem fault_phases_nestedFault :
    compileScript "day" nestedFault =
      .error (.malformedCall "day" .mult "Mult( 2 ,)" .emptyArgument) ∧
    LiesIn "day" nestedFault (.malformedCall "day" .mult "Mult( 2 ,)" .emptyArgument) ∧
    (Expr.sum .captured (.constant "1")).eval [] .empty "x" =
      .error (.nonIntegerOperand .sum "x" "1") ∧
    (Error.nonIntegerOperand .sum "x" "1").isCompileError = false := by
  have hcompile : compileScript "day" nestedFault =
      .error (.malformedCall "day" .mult "Mult( 2 ,)" .emptyArgument) := by
    decide +kernel
  have heval : (Expr.sum .captured (.constant "1")).eval [] .empty "x" =
      .error (.nonIntegerOperand .sum "x" "1") := by
    decide +kernel
  exact ⟨hcompile, (fault_phases _).1 "day" nestedFault (.script hcompile), heval,
    (fault_phases _).2.1 (.expr heval)⟩

end Script

end TimePhrase
