import TimePhrase.Proofs.Script.ReadBack

/-!
# Round trip of scripts

Compiling a written script gives its statements. Only expressions that can be written come out of
the compiler, so writing and compiling once more changes nothing.

* `compileScript_writeScript`  scripts are read back
* `isExpressible_of_compileExpr`  what is read can be written
-/

namespace TimePhrase.Script

/-! ## Statements -/

/-- A text between two statements: separators, at least one. -/
def IsSeparation (t : Text) : Prop := t ≠ [] ∧ ∀ c ∈ t, isStatementSeparator c = true

theorem isPlain_of_isStatementSeparator {c : Char} (h : isStatementSeparator c = true) :
    isPlain c = true :=
  isPlain_of_class (by decide) h

theorem write_eq (s : Statement) : s.write = writeLookup s.key ++ (" = " ++ s.value.write) :=
  List.append_assoc (writeLookup s.key) " = ".toList s.value.write

theorem isExprChar_of_isStatementSeparator {c : Char} (h : isStatementSeparator c = true) :
    isExprChar c = false := by
  simp only [isStatementSeparator, Bool.or_eq_true, beq_iff_eq] at h
  rcases h with (rfl | rfl) | rfl <;> decide

theorem isOperandChar_of_isStatementSeparator {c : Char} (h : isStatementSeparator c = true) :
    isOperandChar c = false := by
  have hexpr := isExprChar_of_isStatementSeparator h
  simp only [isExprChar, Bool.or_eq_false_iff] at hexpr
  exact hexpr.1.1

theorem piece_writeLookup (key : Text) : Piece isStatementSeparator (writeLookup key) :=
  ⟨balanced_writeLookup key, (Scan.avoids_writeLookup key).mono fun c hc => by
    simp [isOperandChar_of_isStatementSeparator hc]⟩

theorem piece_statement (s : Statement) : Piece isStatementSeparator s.write := by
  have hequals : Piece isStatementSeparator " = ".toList :=
    Piece.of_isPlain (by decide) (by decide)
  have hvalue : Piece isStatementSeparator s.value.write :=
    piece_write (fun c hc => isExprChar_of_isStatementSeparator hc) s.value
  exact ((piece_writeLookup s.key).append hequals).append hvalue

theorem statement_write_ne_nil (s : Statement) : s.write ≠ [] :=
  List.append_ne_nil_of_right_ne_nil _ (write_ne_nil s.value)

theorem trimmed_statement (s : Statement) : s.write.Trimmed :=
  (trimmed_writeLookup s.key).append (writeLookup_ne_nil s.key) (trimmed_write s.value)
    (write_ne_nil s.value) " = "

theorem compileStatement_write (ruleId : Text) {s : Statement}
    (h : s.value.isExpressible = true) : compileStatement ruleId s.write = .ok s := by
  have htarget : assignmentTarget s.write = some (s.key, ' ' :: s.value.write) := by
    rw [assignmentTarget, write_eq, lookupKey_writeLookup]
    rfl
  have hvalue : compileExpr ruleId (' ' :: s.value.write) = .ok s.value := by
    rw [← compileExpr_write ruleId h, ← compileExpr_trim ruleId (' ' :: s.value.write)]
    congr 1
    simpa using Text.trim_append_append (a := [' ']) (b := []) (by decide) (trimmed_write s.value) rfl
  simp only [compileStatement, (trimmed_statement s).trim_eq, statementShapes, firstReading, htarget,
    hvalue, Except.map]

/-! ## Scripts -/

/-- The statements of a script, as the compiler takes them. -/
def filledParts (source : Text) : List Text :=
  (splitTopLevel isStatementSeparator source).filter fun s => !s.isBlank

theorem filledParts_append_of_all {t : Text} (h : ∀ c ∈ t, isStatementSeparator c = true)
    (u : Text) : filledParts (t ++ u) = filledParts u := by
  induction t with
  | nil => rfl
  | cons c r ih =>
    have hc := h c (List.mem_cons_self ..)
    have hnil : Piece isStatementSeparator [] := Piece.of_isPlain (by simp) (by simp)
    have hparts := hnil.parts_append_cons hc (isPlain_of_isStatementSeparator hc) (r ++ u)
    rw [List.cons_append, ← List.nil_append (c :: (r ++ u)), filledParts, hparts]
    exact ih fun d hd => h d (List.mem_cons_of_mem _ hd)

theorem filledParts_append {t separation : Text} (ht : Piece isStatementSeparator t)
    (hblank : t.isBlank = false) (h : IsSeparation separation) (u : Text) :
    filledParts (t ++ separation ++ u) = t :: filledParts u := by
  obtain ⟨hne, hall⟩ := h
  obtain ⟨c, r, rfl⟩ := List.exists_cons_of_ne_nil hne
  have hc := hall c (List.mem_cons_self ..)
  have hparts := ht.parts_append_cons hc (isPlain_of_isStatementSeparator hc) (r ++ u)
  rw [List.append_assoc, List.cons_append, filledParts, hparts, List.filter_cons_of_pos (by simp [hblank])]
  congr 1
  exact filledParts_append_of_all (fun d hd => hall d (List.mem_cons_of_mem _ hd)) u

/-- The statements of a written script are what was written of each. -/
theorem filledParts_writeScript (script : List Statement) {separations : List Text}
    (h : ∀ t ∈ separations, IsSeparation t) :
    filledParts (writeScript script separations) = script.map Statement.write := by
  induction script generalizing separations with
  | nil => rfl
  | cons s r ih =>
    have hblank := (trimmed_statement s).isBlank_eq_false (statement_write_ne_nil s)
    cases r with
    | nil => simp [writeScript, filledParts, (piece_statement s).parts_eq, hblank]
    | cons s' r =>
      cases separations with
      | nil =>
        have hstep : writeScript (s :: s' :: r) [] = s.write ++ ";" ++ writeScript (s' :: r) [] := rfl
        have hsemicolon : IsSeparation ";" := ⟨by decide, by decide⟩
        rw [hstep, filledParts_append (piece_statement s) hblank hsemicolon, ih h]
        rfl
      | cons t separations =>
        have hstep : writeScript (s :: s' :: r) (t :: separations) =
            s.write ++ t ++ writeScript (s' :: r) separations := rfl
        rw [hstep, filledParts_append (piece_statement s) hblank (h t (List.mem_cons_self ..)),
          ih fun u hu => h u (List.mem_cons_of_mem _ hu)]
        rfl

/-- What is written of a script is read back. -/
theorem compileScript_writeScript (ruleId : Text) {script : List Statement}
    (hscript : ∀ s ∈ script, s.value.isExpressible = true) {separations : List Text}
    (h : ∀ t ∈ separations, IsSeparation t) :
    compileScript ruleId (writeScript script separations) = .ok script := by
  rw [compileScript, ← filledParts, filledParts_writeScript script h]
  exact Except.mapM_map_eq_ok fun s hs => compileStatement_write ruleId (hscript s hs)

/-! ## What the compiler gives -/

/-- A reading comes from one of the shapes. -/
theorem exists_shape_of_firstReading {α : Type} {source : Text} {shapes : List (Shape α)} {a : α}
    (h : firstReading source shapes = .ok (some a)) :
    ∃ shape ∈ shapes, shape.read source = .ok (some a) := by
  induction shapes with
  | nil => simp [firstReading] at h
  | cons shape r ih =>
    rw [firstReading] at h
    split at h
    · simp at h
    · rename_i b hb
      obtain rfl : b = a := by simpa using h
      exact ⟨shape, List.mem_cons_self .., hb⟩
    · obtain ⟨shape', hmem, hread⟩ := ih h
      exact ⟨shape', List.mem_cons_of_mem _ hmem, hread⟩

/-- What is compiled is what one of the shapes makes of the trimmed source. -/
theorem exists_shape_of_compileExpr {ruleId source : Text} {e : Expr}
    (h : compileExpr ruleId source = .ok e) :
    ∃ shape ∈ expressionShapes (compileExpr ruleId) ruleId,
      shape.read source.trim = .ok (some e) := by
  rw [compileExpr_eq] at h
  split at h
  · simp at h
  · split at h
    · simp at h
    · rename_i e' he'
      obtain rfl : e' = e := by simpa using h
      exact exists_shape_of_firstReading he'
    · simp at h

section Readings

variable {compile : Text → Except Error Expr} {ruleId source : Text}

/-- The operands of a call come from texts shorter than the call. -/
theorem exists_of_readCall {f : Function} {least most : Nat} {es : List Expr}
    (h : readCall compile ruleId f least most source = .ok (some es)) :
    ∀ e ∈ es, ∃ t : Text, t.length < source.length ∧ compile t = .ok e := by
  rw [readCall] at h
  split at h
  · simp at h
  rename_i arguments hcall
  obtain ⟨parts, hparts, h⟩ := Except.bind_eq_ok.mp h
  obtain ⟨es', hes, h⟩ := Except.bind_eq_ok.mp h
  obtain rfl : es' = es := by simpa using h
  intro e he
  obtain ⟨t, ht, hte⟩ := Except.exists_of_mapM_eq_ok hes e he
  have hlt := length_lt_of_callArguments hcall
  have hle := length_le_of_mem_splitArguments hparts ht
  exact ⟨t, by omega, hte⟩

/-- The operands of a sum of texts come from its parts, which are shorter than the sum. -/
theorem exists_of_readConcat {e : Expr} (h : readConcat compile ruleId source = .ok (some e)) :
    ∃ first others, others.foldl .concat first = e ∧ 2 ≤ (splitTopLevel (· == '+') source).length ∧
      ∀ o ∈ first :: others, ∃ t ∈ splitTopLevel (· == '+') source, compile t = .ok o := by
  unfold readConcat at h
  dsimp only at h
  split at h
  · simp at h
  rename_i hlen
  split at h
  · simp at h
  obtain ⟨es, hes, h⟩ := Except.bind_eq_ok.mp h
  split at h
  · simp at h
  · rename_i first others
    obtain rfl : others.foldl .concat first = e := by simpa using h
    exact ⟨first, others, rfl, by omega, Except.exists_of_mapM_eq_ok hes⟩

/-- The id of a table does not begin with a number sign, and the text to look up comes from a
    shorter text. -/
theorem exists_of_readNormalize {e : Expr} (h : readNormalize compile ruleId source = .ok (some e)) :
    ∃ table operand, e = .normalize table operand ∧ table ≠ [] ∧ table.head? ≠ some '#' ∧
      ∃ t : Text, t.length < source.length ∧ compile t = .ok operand := by
  rw [readNormalize] at h
  split at h
  · simp at h
  rename_i arguments hcall
  obtain ⟨parts, hparts, h⟩ := Except.bind_eq_ok.mp h
  split at h
  · rename_i table t
    split at h
    · simp at h
    rename_i literal hliteral
    dsimp only at h
    split at h
    · simp at h
    rename_i hne
    obtain ⟨operand, hoperand, h⟩ := Except.bind_eq_ok.mp h
    obtain rfl : .normalize (tableId literal) operand = e := by simpa using h
    have hlt := length_lt_of_callArguments hcall
    have hle := length_le_of_mem_splitArguments hparts (q := t) (by simp)
    refine ⟨tableId literal, operand, rfl, by simpa using hne, ?_, t, by omega, hoperand⟩
    intro hhead
    have hnot := List.head?_dropWhile_not (· == '#') literal
    rw [← tableId, hhead] at hnot
    simp at hnot
  · simp at h

/-- What every shape but the sum of texts makes: it joins nothing, and it can be written if all
    expressions from shorter texts can. -/
def MadeFromShorter (compile : Text → Except Error Expr) (source : Text) (e : Expr) : Prop :=
  e.isConcat = false ∧
    ((∀ (t : Text) (e' : Expr), t.length < source.length → compile t = .ok e' →
      e'.isExpressible = true) → e.isExpressible = true)

theorem madeFromShorter_of_readCall {f : Function} {least most : Nat} {es : List Expr} {e : Expr}
    (hread : readCall compile ruleId f least most source = .ok (some es))
    (hnot : e.isConcat = false)
    (hops : (∀ a ∈ es, a.isExpressible = true) → e.isExpressible = true) :
    MadeFromShorter compile source e := by
  refine ⟨hnot, fun hshort => hops fun a ha => ?_⟩
  obtain ⟨t, ht, hta⟩ := exists_of_readCall hread a ha
  exact hshort t a ht hta

theorem madeFromShorter_of_shape {shape : Shape Expr} {e : Expr}
    (hmem : shape ∈ expressionShapes compile ruleId) (h : shape.read source = .ok (some e)) :
    readConcat compile ruleId source = .ok (some e) ∨ MadeFromShorter compile source e := by
  simp only [expressionShapes, List.mem_cons, List.not_mem_nil, or_false] at hmem
  rcases hmem with rfl | rfl | rfl | rfl | rfl | rfl | rfl | rfl | rfl
  · exact .inl h
  · obtain ⟨table, operand, rfl, hne, hsign, t, ht, hoperand⟩ := exists_of_readNormalize h
    refine .inr ⟨rfl, fun hshort => ?_⟩
    simp [Expr.isExpressible, hne, hsign, hshort t operand ht hoperand]
  -- The four functions differ in the numbers of operands they take.
  · obtain ⟨o, hread, h⟩ := Except.bind_eq_ok.mp h
    split at h
    · obtain rfl := by simpa using h
      exact .inr (madeFromShorter_of_readCall hread rfl (by simp [Expr.isExpressible]))
    · obtain rfl := by simpa using h
      exact .inr (madeFromShorter_of_readCall hread rfl (by simp [Expr.isExpressible, and_assoc]))
    · simp at h
  · obtain ⟨o, hread, h⟩ := Except.bind_eq_ok.mp h
    split at h
    · obtain rfl := by simpa using h
      exact .inr (madeFromShorter_of_readCall hread rfl (by simp [Expr.isExpressible]))
    · simp at h
  · obtain ⟨o, hread, h⟩ := Except.bind_eq_ok.mp h
    split at h
    · obtain rfl := by simpa using h
      exact .inr (madeFromShorter_of_readCall hread rfl (by simp [Expr.isExpressible]))
    · obtain rfl := by simpa using h
      exact .inr (madeFromShorter_of_readCall hread rfl (by simp [Expr.isExpressible]))
    · simp at h
  · obtain ⟨o, hread, h⟩ := Except.bind_eq_ok.mp h
    split at h
    · obtain rfl := by simpa using h
      exact .inr (madeFromShorter_of_readCall hread rfl (by simp [Expr.isExpressible]))
    · simp at h
  · obtain ⟨key, -, rfl⟩ := by simpa using h
    exact .inr ⟨rfl, fun _ => rfl⟩
  · obtain ⟨-, rfl⟩ := by simpa using h
    exact .inr ⟨rfl, fun _ => rfl⟩
  · obtain ⟨value, -, rfl⟩ := by simpa using h
    exact .inr ⟨rfl, fun _ => rfl⟩

end Readings

theorem avoids_trim {p : Char → Bool} {t : Text} (h : Scan.Avoids p .outside t) :
    Scan.Avoids p .outside t.trim := by
  obtain ⟨a, b, ht, ha, -⟩ := Text.exists_trim t
  rw [ht, Scan.avoids_append, Scan.avoids_append] at h
  have hafter : Scan.outside.after a = .outside := (balanced_of_isBlank ha).after_eq 0
  rw [hafter] at h
  exact h.1.2

/-- A source without a plus sign at its top level joins nothing. -/
theorem isConcat_of_compileExpr {ruleId source : Text} {e : Expr}
    (h : compileExpr ruleId source = .ok e) (hplus : Scan.Avoids (· == '+') .outside source) :
    e.isConcat = false := by
  obtain ⟨shape, hmem, hread⟩ := exists_shape_of_compileExpr h
  rcases madeFromShorter_of_shape hmem hread with hconcat | ⟨hnot, -⟩
  · obtain ⟨-, -, -, htwo, -⟩ := exists_of_readConcat hconcat
    rw [splitTopLevel, Scan.parts_eq_singleton (avoids_trim hplus)] at htwo
    simp at htwo
  · exact hnot

/-- Joining operands to the right of an expression gives one that can be written. -/
theorem isExpressible_foldl_concat {first : Expr} {others : List Expr}
    (hfirst : first.isExpressible = true)
    (hothers : ∀ o ∈ others, o.isExpressible = true ∧ o.isConcat = false) :
    (others.foldl .concat first).isExpressible = true := by
  induction others generalizing first with
  | nil => exact hfirst
  | cons o r ih =>
    have ho := hothers o (List.mem_cons_self ..)
    exact ih (by simp [Expr.isExpressible, hfirst, ho])
      fun o' ho' => hothers o' (List.mem_cons_of_mem _ ho')

/-- Every expression that is compiled can be written, by induction on the length of the source. -/
theorem isExpressible_of_compileExpr {ruleId source : Text} {e : Expr}
    (h : compileExpr ruleId source = .ok e) : e.isExpressible = true := by
  generalize hn : source.length = n
  induction n using Nat.strongRecOn generalizing source e with
  | ind n ih =>
    subst hn
    have hlen := Text.length_trim_le source
    obtain ⟨shape, hmem, hread⟩ := exists_shape_of_compileExpr h
    have hshort (t : Text) (e' : Expr) (ht : t.length < source.trim.length)
        (he' : compileExpr ruleId t = .ok e') : e'.isExpressible = true :=
      ih t.length (by omega) he' rfl
    rcases madeFromShorter_of_shape hmem hread with hconcat | ⟨-, he⟩
    · obtain ⟨first, others, rfl, htwo, hops⟩ := exists_of_readConcat hconcat
      have hparts : ∀ o ∈ first :: others, o.isExpressible = true ∧ o.isConcat = false := by
        intro o ho
        obtain ⟨t, ht, hto⟩ := hops o ho
        have hlt := Scan.length_add_le_of_mem_parts ht
        unfold splitTopLevel at htwo
        refine ⟨hshort t o (by omega) hto, isConcat_of_compileExpr hto ?_⟩
        refine Scan.avoids_of_mem_parts (fun c hc => ?_) t ht
        rw [beq_iff_eq.mp hc]
        rfl
      have hfirst := hparts first (List.mem_cons_self ..)
      exact isExpressible_foldl_concat hfirst.1 fun o ho => hparts o (List.mem_cons_of_mem _ ho)
    · exact he hshort

/-- A statement is a key, read from the front of an assignment, and the expression behind it. -/
theorem compileStatement_eq_ok {ruleId source : Text} {s : Statement} :
    compileStatement ruleId source = .ok s ↔ ∃ rest,
      assignmentTarget source.trim = some (s.key, rest) ∧ compileExpr ruleId rest = .ok s.value := by
  simp only [compileStatement, statementShapes, firstReading]
  cases assignmentTarget source.trim with
  | none => simp
  | some target =>
    obtain ⟨key, rest⟩ := target
    cases hvalue : compileExpr ruleId rest with
    | error e => simp [Except.map, hvalue]
    | ok value =>
      simp only [Except.map, hvalue, Except.ok.injEq, Option.some.injEq, Prod.mk.injEq]
      constructor
      · rintro rfl
        exact ⟨rest, ⟨rfl, rfl⟩, hvalue⟩
      · rintro ⟨_, ⟨rfl, rfl⟩, hs⟩
        rw [hvalue] at hs
        rw [Except.ok.inj hs]

theorem isExpressible_of_compileStatement {ruleId source : Text} {s : Statement}
    (h : compileStatement ruleId source = .ok s) : s.value.isExpressible = true := by
  obtain ⟨rest, -, hvalue⟩ := compileStatement_eq_ok.mp h
  exact isExpressible_of_compileExpr hvalue

/-- The statements of a script that compiles set keys to expressions that can be written. -/
theorem isExpressible_of_compileScript {ruleId source : Text} {script : List Statement}
    (h : compileScript ruleId source = .ok script) :
    ∀ s ∈ script, s.value.isExpressible = true := by
  intro s hs
  obtain ⟨t, -, ht⟩ := Except.exists_of_mapM_eq_ok h s hs
  exact isExpressible_of_compileStatement ht

/-! ## Round trip -/

/-- What can be written is read back, expressions as well as scripts, and what is read can be
    written. So compiling what was written of a compiled source gives the same once more. -/
theorem compile_write (ruleId : Text) :
    (∀ e : Expr, e.isExpressible = true → compileExpr ruleId e.write = .ok e) ∧
    (∀ (script : List Statement) (separations : List Text),
      (∀ s ∈ script, s.value.isExpressible = true) → (∀ t ∈ separations, IsSeparation t) →
      compileScript ruleId (writeScript script separations) = .ok script) ∧
    (∀ (source : Text) (e : Expr), compileExpr ruleId source = .ok e →
      e.isExpressible = true ∧ compileExpr ruleId e.write = .ok e) ∧
    (∀ (source : Text) (script : List Statement), compileScript ruleId source = .ok script →
      ∀ separations : List Text, (∀ t ∈ separations, IsSeparation t) →
        compileScript ruleId (writeScript script separations) = .ok script) := by
  refine ⟨fun e he => compileExpr_write ruleId he,
    fun script separations hscript h => compileScript_writeScript ruleId hscript h,
    fun source e h => ?_, fun source script h separations hsep => ?_⟩
  · have he := isExpressible_of_compileExpr h
    exact ⟨he, compileExpr_write ruleId he⟩
  · exact compileScript_writeScript ruleId (isExpressible_of_compileScript h) hsep

/-- Keys and literals may hold whatever ends a statement, an argument or a literal. -/
theorem compile_write_marks :
    (Expr.concat (.lookup "a];\n+,\"") (.normalize "t\\" .captured)).isExpressible = true ∧
      IsSeparation ";\n" ∧
      compileScript "rule" (writeScript
        [⟨"k;'", .concat (.lookup "a];\n+,\"") (.normalize "t\\" .captured)⟩, ⟨"", .captured⟩]
        [";\n"]) =
      .ok [⟨"k;'", .concat (.lookup "a];\n+,\"") (.normalize "t\\" .captured)⟩,
        ⟨"", .captured⟩] := by
  have hform : (Expr.concat (.lookup "a];\n+,\"") (.normalize "t\\" .captured)).isExpressible =
      true := by decide
  have hseparation : IsSeparation ";\n" := ⟨by decide, by decide⟩
  refine ⟨hform, hseparation, (compile_write "rule").2.1 _ _ ?_ ?_⟩
  · simpa using ⟨hform, rfl⟩
  · simpa using hseparation

end TimePhrase.Script
