import TimePhrase.Proofs.Script.Inputs
import TimePhrase.Proofs.Script.Sequence

/-!
# Looking up texts in a table

A script that normalizes some text names a table in a literal. Whatever the text is that it
normalizes, as long as that compiles by itself, the script compiles and looks the text up in the
table of that name.

* `piece_of_compileExpr`  what compiles can be the argument of a call
* `compileExpr_normalize`, `compileScript_normalize`  such a script compiles
* `TagScript.exists_compile_normalize`  what it does
-/

namespace TimePhrase

namespace Script

variable {ruleId literal source : Text} {operand : Expr}

/-! ## Compiling -/

/-- A source that compiles shows nothing but plus signs at its top level that separates. -/
theorem piece_of_compileExpr {p : Char → Bool} (hp : IsForeign p) (hplus : p '+' = false)
    (h : compileExpr ruleId source = .ok operand) : Piece p source := by
  have hreads := readsForms_compileInOrder Form.all ruleId
  rw [compileInOrder_all] at hreads
  exact hreads.piece hp hplus h

theorem isBlank_of_compileExpr (h : compileExpr ruleId source = .ok operand) :
    source.isBlank = false := by
  rw [← Bool.not_eq_true, ← Text.trim_eq_nil_iff]
  intro hnil
  rw [compileExpr_eq, hnil] at h
  exact nomatch h

/-- A table in quotes and a source that compiles are normalized in the table. -/
theorem compileExpr_normalize (hid : tableId literal ≠ [])
    (h : compileExpr ruleId source = .ok operand) :
    compileExpr ruleId (writeCall .normalize [quote literal, source]) =
      .ok (.normalize (tableId literal) operand) := by
  have hcomma : Piece (· == ',') source := piece_of_compileExpr
    (isForeign_beq (by decide) (by decide) (by decide) (by decide)) (by decide) h
  have hclose : Piece (· == ')') source := piece_of_compileExpr
    (isForeign_beq (by decide) (by decide) (by decide) (by decide)) (by decide) h
  have hbalanced : ∀ t ∈ [quote literal, source], Balanced t := by
    simp [balanced_quote, hcomma.toBalanced]
  exact compileExpr_writeCall hbalanced
    (readNormalize_writeCall hid hcomma hclose (isBlank_of_compileExpr h) h)

/-! ## Assigning -/

/-- An assignment of what a source stands for. -/
def assign (key source : Text) : Text := writeLookup key ++ (" = " ++ source)

/-- A source that separators of statements do not split can be assigned, and that is a script. -/
theorem compileScript_assign {e : Expr} (htrimmed : source.Trimmed) (hne : source ≠ [])
    (hpiece : Piece isStatementSeparator source) (h : compileExpr ruleId source = .ok e)
    (key : Text) : compileScript ruleId (assign key source) = .ok [⟨key, e⟩] := by
  have hassign : (assign key source).Trimmed := by
    have h := (trimmed_writeLookup key).append (writeLookup_ne_nil key) htrimmed hne " = "
    rwa [List.append_assoc] at h
  have hfilled : (assign key source).isBlank = false :=
    hassign.isBlank_eq_false (List.append_ne_nil_of_left_ne_nil (writeLookup_ne_nil key) _)
  -- The assignment is read by its key, and behind the equals sign is the source.
  have htarget : assignmentTarget (assign key source) = some (key, ' ' :: source) := by
    rw [assignmentTarget, assign, lookupKey_writeLookup]
    rfl
  have hvalue : compileExpr ruleId (' ' :: source) = .ok e := by
    rw [← h, ← compileExpr_trim ruleId (' ' :: source)]
    congr 1
    simpa using Text.trim_append_append (a := [' ']) (b := []) (by decide) htrimmed rfl
  have hstatement : compileStatement ruleId (assign key source) = .ok ⟨key, e⟩ :=
    compileStatement_eq_ok.mpr ⟨' ' :: source, by rw [hassign.trim_eq, htarget], hvalue⟩
  have hequals : Piece isStatementSeparator " = ".toList := Piece.of_isPlain (by decide) (by decide)
  have hparts : splitTopLevel isStatementSeparator (assign key source) = [assign key source] :=
    ((piece_writeLookup key).append (hequals.append hpiece)).parts_eq
  rw [compileScript, hparts, List.filter_cons_of_pos (by simp [hfilled])]
  show [assign key source].mapM (compileStatement ruleId) = _
  rw [List.mapM_cons, hstatement]
  rfl

/-- Assigning what a table says of a text is a script of one statement. -/
theorem compileScript_normalize (hid : tableId literal ≠ [])
    (h : compileExpr ruleId source = .ok operand) (key : Text) :
    compileScript ruleId (assign key (writeCall .normalize [quote literal, source])) =
      .ok [⟨key, .normalize (tableId literal) operand⟩] := by
  have hbalanced : ∀ t ∈ [quote literal, source], Balanced t := by
    simp [balanced_quote, balanced_of_compileExpr h]
  have hpiece : Piece isStatementSeparator (writeCall .normalize [quote literal, source]) :=
    ⟨balanced_writeCall _ hbalanced, (Scan.avoids_writeCall _ hbalanced).mono fun c hc => by
      rw [isOperandChar_of_isStatementSeparator hc]
      rfl⟩
  exact compileScript_assign (trimmed_writeCall _ _) (writeCall_ne_nil _ _) hpiece
    (compileExpr_normalize hid h) key

end Script

namespace TagScript

open Script

/-- A script that normalizes a text in a table that there is fails only where the text has none. -/
theorem exists_compile_normalize {ruleId literal source : Text} {operand : Expr}
    (hid : tableId literal ≠ []) (h : compileExpr ruleId source = .ok operand)
    (group key : Text) {tables : Tables} {t : NormalizationTable}
    (ht : tables.get? (tableId literal) = some t) :
    ∃ script, TagScript.compile ruleId group
        (assign key (writeCall .normalize [quote literal, source])) = .ok script ∧
      ∀ captured facts, script.run tables captured facts =
        match operand.eval tables facts captured with
        | .ok text => (facts.insert key (t.normalize text), none)
        | .error err => (facts, some err) := by
  refine ⟨_, by rw [compile, compileScript_normalize hid h]; rfl, fun captured facts => ?_⟩
  have heval : (Expr.normalize (tableId literal) operand).eval tables facts captured =
      (operand.eval tables facts captured).map t.normalize := by
    rw [Expr.eval, ht]
    cases operand.eval tables facts captured <;> rfl
  show runStatements tables captured facts [⟨key, .normalize (tableId literal) operand⟩] = _
  cases htext : operand.eval tables facts captured with
  | ok text =>
    rw [htext] at heval
    exact runStatements_cons_of_ok heval []
  | error err =>
    rw [htext] at heval
    exact runStatements_cons_of_error heval []

end TagScript

end TimePhrase
