import TimePhrase.Proofs.Script.Unambiguous
import TimePhrase.Script.Registry

/-!
# One script after another

A script that is compiled leaves a scan outside everything: each of its statements closes the
brackets and quotes that it opens, and what is not a statement is blank. So a separator behind it
ends it, and what stands behind the separator is a script of its own.

* `after_of_compileScript`  a script leaves a scan as it was
* `runStatements_append`  running statements and then others
* `compileScript_append`  two scripts in one source
-/

namespace TimePhrase.Script

/-! ## Compiling -/

section Sources

variable {ruleId source : Text}

theorem balanced_of_compileExpr {e : Expr} (h : compileExpr ruleId source = .ok e) :
    Balanced source := by
  have hreads := readsForms_compileInOrder Form.all ruleId
  rw [compileInOrder_all] at hreads
  exact hreads.balanced h

/-- A statement closes what it opens: the brackets around its key, and those of its expression. -/
theorem balanced_of_compileStatement {s : Statement} (h : compileStatement ruleId source = .ok s) :
    Balanced source := by
  obtain ⟨rest, htarget, hvalue⟩ := compileStatement_eq_ok.mp h
  obtain ⟨a, b, inner, gap, htrim, ha, hb, hinner, hgap⟩ := eq_append_of_assignmentTarget htarget
  have hequals : Balanced ['='] := Balanced.of_isPlain (by decide)
  have hassigned : Balanced (gap ++ '=' :: rest) :=
    (piece_of_isGap (fun _ _ => rfl) hgap (p := fun _ => false)).toBalanced.append
      (hequals.append (balanced_of_compileExpr hvalue))
  have hpiece : Piece (fun _ => false) source.trim := by
    rw [htrim]
    exact piece_bracketed (fun _ _ => rfl) ha (by decide) (fun _ _ => rfl) hb (fun _ => rfl) rfl
      (fun _ => rfl) hinner ⟨hassigned, Scan.avoids_of_all (fun _ _ => rfl) _⟩
  obtain ⟨x, y, hs, hx, hy⟩ := Text.exists_trim source
  rw [hs]
  exact ((balanced_of_isBlank hx).append hpiece.toBalanced).append (balanced_of_isBlank hy)

/-- After a script that is compiled, a scan is outside everything. -/
theorem after_of_compileScript {script : List Statement}
    (h : compileScript ruleId source = .ok script) : Scan.outside.after source = .outside := by
  obtain ⟨q, hq, hafter⟩ := Scan.exists_mem_parts_after (p := isStatementSeparator)
    (fun c hc => Scan.next_of_isPlain (isPlain_of_isStatementSeparator hc) 0) source
  rw [← hafter]
  -- The last part is either blank or a statement.
  cases hblank : q.isBlank with
  | true => exact (balanced_of_isBlank hblank).after_eq 0
  | false =>
    have hfilled : q ∈ filledParts source := List.mem_filter.mpr ⟨hq, by simp [hblank]⟩
    obtain ⟨s, hs⟩ := Except.exists_result_of_mapM_eq_ok h q hfilled
    exact (balanced_of_compileStatement hs).after_eq 0

theorem filledParts_append_cons (h : Scan.outside.after source = .outside) {c : Char}
    (hc : isStatementSeparator c = true) (rest : Text) :
    filledParts (source ++ c :: rest) = filledParts source ++ filledParts rest := by
  have hparts := Scan.parts_append_of_after h hc (isPlain_of_isStatementSeparator hc) rest
  rw [filledParts, splitTopLevel, hparts, List.filter_append]
  rfl

end Sources

/-! ## Running -/

/-- Statements are run one after the other, up to the first fault. -/
theorem runStatements_append (tables : Tables) (captured : Text) (facts : Dictionary)
    (first second : List Statement) :
    runStatements tables captured facts (first ++ second) =
      match runStatements tables captured facts first with
      | (facts, none) => runStatements tables captured facts second
      | (facts, some e) => (facts, some e) := by
  induction first generalizing facts with
  | nil => rfl
  | cons s first ih =>
    rw [List.cons_append, runStatements, runStatements]
    cases s.run tables captured facts with
    | ok facts' => exact ih facts'
    | error e => rfl

/-! ## Two scripts -/

/-- Behind a script that is compiled and a separator, any source is compiled as it is by itself: to the
    statements that follow those of the script, or with the same fault. Running both scripts in one
    is running the second one on the facts that the first one leaves, unless the first one fails. -/
theorem compileScript_append {ruleId source : Text} {script : List Statement}
    (h : compileScript ruleId source = .ok script) {c : Char} (hc : c ∈ [';', '\n', '\r'])
    (rest : Text) :
    (∀ others, compileScript ruleId rest = .ok others →
      compileScript ruleId (source ++ c :: rest) = .ok (script ++ others)) ∧
    (∀ e, compileScript ruleId rest = .error e →
      compileScript ruleId (source ++ c :: rest) = .error e) ∧
    ∀ (group : Text) (first second : TagScript),
      TagScript.compile ruleId group source = .ok first →
      TagScript.compile ruleId group rest = .ok second →
      ∃ both, TagScript.compile ruleId group (source ++ c :: rest) = .ok both ∧
        ∀ (tables : Tables) (captured : Text) (facts : Dictionary),
          both.run tables captured facts =
            match first.run tables captured facts with
            | (facts, none) => second.run tables captured facts
            | (facts, some e) => (facts, some e) := by
  have hseparator : isStatementSeparator c = true := by
    simp only [List.mem_cons, List.not_mem_nil, or_false] at hc
    rcases hc with rfl | rfl | rfl <;> rfl
  have hsplit := filledParts_append_cons (after_of_compileScript h) hseparator rest
  have hboth : compileScript ruleId (source ++ c :: rest) =
      (compileScript ruleId rest).map (script ++ ·) := by
    have hparts (t : Text) :
        compileScript ruleId t = (filledParts t).mapM (compileStatement ruleId) := rfl
    rw [hparts, hsplit, List.mapM_append, ← hparts source, ← hparts rest, h]
    cases compileScript ruleId rest <;> rfl
  refine ⟨fun others hothers => ?_, fun e he => ?_, fun group first second hfirst hsecond => ?_⟩
  · rw [hboth, hothers, Except.map]
  · rw [hboth, he, Except.map]
  · obtain ⟨statements, hstatements, rfl⟩ := Except.map_eq_ok.mp hfirst
    obtain ⟨others, hothers, rfl⟩ := Except.map_eq_ok.mp hsecond
    obtain rfl : script = statements := Except.ok.inj (h.symm.trans hstatements)
    rw [hothers] at hboth
    exact ⟨_, Except.map_eq_ok.mpr ⟨_, hboth, rfl⟩, fun tables captured facts =>
      runStatements_append tables captured facts script others⟩

/-- A bracket and a separator between quotes, and a line end behind them. The second script fails, and
    then the fact that the first one has set is there. -/
theorem compileScript_append_failing : ∃ first second both,
    TagScript.compile "rule" "Part0" "timex['a;('] = 'b'" = .ok first ∧
    TagScript.compile "rule" "Part0" "timex[c] = timex[d]" = .ok second ∧
    TagScript.compile "rule" "Part0" ("timex['a;('] = 'b'" ++ '\n' :: "timex[c] = timex[d]") =
      .ok both ∧
    first.run [] [] .empty = (.ofList [("a;(", "b")], none) ∧
    both.run [] [] .empty = second.run [] [] (.ofList [("a;(", "b")]) ∧
    both.run [] [] .empty = (.ofList [("a;(", "b")], some (.undefinedKey "d")) := by
  let first : TagScript :=
    ⟨"rule", "Part0", "timex['a;('] = 'b'", [⟨"a;(", .constant "b"⟩]⟩
  let second : TagScript := ⟨"rule", "Part0", "timex[c] = timex[d]", [⟨"c", .lookup "d"⟩]⟩
  have hscript : compileScript "rule" "timex['a;('] = 'b'" = .ok first.statements := by
    decide +kernel
  have hfirst : TagScript.compile "rule" "Part0" "timex['a;('] = 'b'" = .ok first := by
    decide +kernel
  have hsecond : TagScript.compile "rule" "Part0" "timex[c] = timex[d]" = .ok second := by
    decide +kernel
  have hrun : first.run [] [] .empty = (.ofList [("a;(", "b")], none) := by decide +kernel
  have hfails : second.run [] [] (.ofList [("a;(", "b")]) =
      (.ofList [("a;(", "b")], some (.undefinedKey "d")) := by
    decide +kernel
  obtain ⟨-, -, hboth⟩ := compileScript_append hscript (c := '\n') (by decide)
    "timex[c] = timex[d]"
  obtain ⟨both, hcompile, hruns⟩ := hboth "Part0" first second hfirst hsecond
  have hafter := hruns [] [] .empty
  rw [hrun] at hafter
  exact ⟨first, second, both, hfirst, hsecond, hcompile, hrun, hafter, hafter.trans hfails⟩

end TimePhrase.Script
