import TimePhrase.Proofs.Script.Write

/-!
# Reading back expressions

Compiling what was written of an expression gives the expression. The shapes are tried in order, so
for each kind of expression the shapes before its own must not recognise what is written of it.

* `literal_quote`, `lookupKey_writeLookup`  lexemes are read back
* `readCall_writeCall`, `readNormalize_writeCall`  calls are read back, given their arguments are
* `compileExpr_write`  expressions are read back
-/

namespace TimePhrase.Script

/-! ## Lexemes -/

theorem skipGap_cons {c : Char} (h : isGap c = false) (r : Text) : skipGap (c :: r) = c :: r :=
  List.dropWhile_cons_of_neg (by simp [h])

theorem skipGap_append_cons {a : Text} (ha : ∀ d ∈ a, isGap d = true) {c : Char}
    (h : isGap c = false) (r : Text) : skipGap (a ++ c :: r) = c :: r := by
  rw [skipGap, List.dropWhile_append_of_pos ha]
  exact skipGap_cons h r

theorem literal_quote (t r : Text) : literal (quote t ++ r) = some (t, r) := by
  have h := quotedLiteral_escape '"' rfl t r
  rw [literal, quote, List.append_assoc, List.singleton_append, h, Option.orElse_some]

theorem wholeLiteral_quote (t : Text) : wholeLiteral (quote t) = some t := by
  have hskip : skipGap (quote t) = quote t := skipGap_cons (by decide) _
  have h := literal_quote t []
  rw [List.append_nil] at h
  rw [wholeLiteral, hskip, h]
  rfl

theorem lookupKey_writeLookup (key r : Text) : lookupKey (writeLookup key ++ r) = some (key, r) := by
  have hbracket : '[' :: quote key ++ [']'] ++ r = '[' :: (quote key ++ ']' :: r) :=
    List.append_assoc ('[' :: quote key) [']'] r
  have hlist : writeLookup key ++ r = "timex".toList ++ ('[' :: (quote key ++ ']' :: r)) := by
    show "timex".toList ++ ('[' :: quote key ++ [']']) ++ r = _
    rw [List.append_assoc, hbracket]
  have hskip : skipGap (writeLookup key ++ r) = writeLookup key ++ r := skipGap_cons (by decide) _
  have hquote : skipGap (quote key ++ ']' :: r) = quote key ++ ']' :: r :=
    skipGap_cons (by decide) _
  rw [lookupKey, hskip, hlist, Text.after?_append]
  simp only [skipGap_cons (show isGap '[' = false by decide), hquote, literal_quote,
    skipGap_cons (show isGap ']' = false by decide)]

theorem wholeLookup_writeLookup (key : Text) : wholeLookup (writeLookup key) = some key := by
  have h := lookupKey_writeLookup key []
  rw [List.append_nil] at h
  rw [wholeLookup, h]
  rfl

/-- A name and what stands between a parenthesis and its partner is a call, if only blanks follow. -/
theorem callArguments_append_cons {name a b arguments : Text} (hname : ∀ c ∈ name, isGap c = false)
    (ha : ∀ c ∈ a, isGap c = true) (hb : ∀ c ∈ b, isGap c = true)
    (havoids : Scan.Avoids (· == ')') .outside arguments)
    (hsees : (Scan.outside.after arguments).sees ')' = true) (rest : Text) :
    callArguments name (a ++ name ++ b ++ '(' :: (arguments ++ ')' :: rest)) =
      if rest.isBlank then some arguments else none := by
  have hparen : isGap '(' = false := by decide
  obtain ⟨s, hs, hopen⟩ : ∃ s,
      (skipGap (a ++ name ++ b ++ '(' :: (arguments ++ ')' :: rest))).after? name = some s ∧
        skipGap s = '(' :: (arguments ++ ')' :: rest) := by
    cases name with
    | nil =>
      -- Nothing ends the first gap before the parenthesis.
      have hgap : ∀ c ∈ a ++ [] ++ b, isGap c = true := by
        rw [List.append_nil]
        exact List.forall_mem_append.mpr ⟨ha, hb⟩
      rw [skipGap_append_cons hgap hparen]
      exact ⟨_, Text.after?_append [] _, skipGap_cons hparen _⟩
    | cons c name =>
      rw [List.append_assoc, List.append_assoc, List.cons_append,
        skipGap_append_cons ha (hname c List.mem_cons_self)]
      exact ⟨_, Text.after?_append (c :: name) _, skipGap_append_cons hb hparen _⟩
  rw [callArguments, hs]
  simp only [hopen, Scan.breakAt_append_cons havoids hsees]

/-- A source that does not begin with the name is no call. -/
theorem callArguments_eq_none {name source : Text} (h : ¬ name <+: skipGap source) :
    callArguments name source = none := by
  rw [callArguments]
  split
  · rfl
  · rename_i hs
    exact absurd ⟨_, (Text.eq_append_of_after? hs).symm⟩ h

/-- No name of a function is the beginning of another one. -/
theorem eq_of_name_isPrefix {f g : Function} : f.name <+: g.name → f = g := by
  cases f <;> cases g <;> decide

/-- A call of one function is no call of another. -/
theorem callArguments_writeCall_of_ne {f g : Function} (h : f ≠ g) (arguments : List Text) :
    callArguments g.name (writeCall f arguments) = none := by
  have hskip : skipGap (writeCall f arguments) = writeCall f arguments := by
    cases f <;> exact skipGap_cons (by decide) _
  refine callArguments_eq_none fun hprefix => ?_
  rw [hskip, writeCall] at hprefix
  rcases List.prefix_or_prefix_of_prefix hprefix (List.prefix_append _ _) with hgf | hfg
  · exact h (eq_of_name_isPrefix hgf).symm
  · exact h (eq_of_name_isPrefix hfg)

theorem callArguments_writeCall (f : Function) {arguments : List Text}
    (h : ∀ t ∈ arguments, Piece (· == ')') t) :
    callArguments f.name (writeCall f arguments) = some (Text.join ", " arguments) := by
  have hjoin : Piece (· == ')') (Text.join ", " arguments) :=
    join_of_append (Piece.of_isPlain (by simp) (by simp)) Piece.append
      (Piece.of_isPlain (by decide) (by decide)) h
  have hafter : Scan.outside.after (Text.join ", " arguments) = .outside := hjoin.after_eq 0
  have hname : ∀ c ∈ f.name, isGap c = false := by cases f <;> decide
  have hcall := callArguments_append_cons hname (List.forall_mem_nil _) (List.forall_mem_nil _)
    hjoin.avoids_outside (by rw [hafter]; rfl) []
  rw [List.nil_append, List.append_nil] at hcall
  exact hcall

/-! ## Operands -/

/-- Compiling several sources does not depend on the blanks around them. -/
theorem mapM_compileExpr_of_map_trim {ruleId : Text} {l m : List Text} (h : l.map Text.trim = m) :
    l.mapM (compileExpr ruleId) = m.mapM (compileExpr ruleId) := by
  rw [← h, List.mapM_map]
  exact Except.mapM_congr fun t _ => (compileExpr_trim ruleId t).symm

namespace Expr

theorem operands_of_not_isConcat {e : Expr} (h : e.isConcat = false) : e.operands = [e] := by
  cases e <;> first | rfl | simp [isConcat] at h

/-- An expression is what its operands give when the leftmost ones are joined first. -/
theorem exists_operands (e : Expr) :
    ∃ first others, e.operands = first :: others ∧ others.foldl .concat first = e := by
  induction e with
  | concat left right hl hr =>
    obtain ⟨first, others, hops, hfold⟩ := hl
    exact ⟨first, others ++ [right], by simp [operands, hops], by simp [hfold]⟩
  | _ => exact ⟨_, [], rfl, rfl⟩

theorem isConcat_of_mem_operands {e : Expr} (h : e.isExpressible = true) :
    ∀ o ∈ e.operands, o.isConcat = false := by
  induction e with
  | concat left right hl hr =>
    simp only [isExpressible, Bool.and_eq_true, Bool.not_eq_true'] at h
    simp only [operands, List.mem_append, List.mem_singleton]
    rintro o (ho | rfl)
    · exact hl h.1.1 o ho
    · exact h.2
  | _ => simp [operands, isConcat]

end Expr

theorem join_concat (sep : Text) {l : List Text} (h : l ≠ []) (t : Text) :
    Text.join sep (l ++ [t]) = Text.join sep l ++ sep ++ t := by
  induction l with
  | nil => exact absurd rfl h
  | cons u r ih =>
    cases r with
    | nil => rfl
    | cons v r =>
      have ih := ih (List.cons_ne_nil v r)
      simp only [List.cons_append] at ih
      simp [Text.join, ih]

/-- An expression is written as its operands with plus signs between them. -/
theorem write_eq_join (e : Expr) : e.write = Text.join " + " (e.operands.map Expr.write) := by
  induction e with
  | concat left right hl hr =>
    obtain ⟨first, others, hops, -⟩ := left.exists_operands
    have hne : left.operands.map Expr.write ≠ [] := by
      rw [hops]
      exact List.cons_ne_nil _ _
    have hjoin := join_concat " + ".toList hne right.write
    rw [← hl] at hjoin
    rw [Expr.operands, List.map_append, List.map_singleton, hjoin]
    rfl
  | _ => rfl

/-! ## Calls -/

/-- What can stand between the commas of a call. -/
structure Argument (t : Text) : Prop where
  comma : Piece (· == ',') t
  close : Piece (· == ')') t
  trimmed : t.Trimmed
  ne_nil : t ≠ []

theorem argument_write (e : Expr) : Argument e.write where
  comma := piece_write (forall_of_separator (by decide)) e
  close := piece_write (forall_of_separator (by decide)) e
  trimmed := trimmed_write e
  ne_nil := write_ne_nil e

theorem argument_quote (t : Text) : Argument (quote t) where
  comma := piece_quote _ t
  close := piece_quote _ t
  trimmed := trimmed_quote t
  ne_nil := by simp [quote]

theorem Argument.isBlank_eq_false {t : Text} (h : Argument t) : t.isBlank = false :=
  h.trimmed.isBlank_eq_false h.ne_nil

theorem splitArguments_of_parts {ruleId : Text} {function : Function} {least most : Nat}
    {source arguments : Text} (hblank : arguments.isBlank = false) {parts : List Text}
    (hparts : splitTopLevel (· == ',') arguments = parts) (hleast : least ≤ parts.length)
    (hmost : parts.length ≤ most) (hfilled : ∀ q ∈ parts, q.isBlank = false) :
    splitArguments ruleId function least most source arguments = .ok parts := by
  have hany : parts.any Text.isBlank = false :=
    List.any_eq_false.mpr fun q hq => by simp [hfilled q hq]
  unfold splitArguments
  simp only [hblank, Bool.false_eq_true, if_false, hparts, hany]
  rw [if_neg (by omega)]

/-- The arguments of a written call are read back. -/
theorem readCall_writeCall (ruleId : Text) (f : Function) {least most : Nat} {es : List Expr}
    (hne : es ≠ []) (h : ∀ e ∈ es, compileExpr ruleId e.write = .ok e)
    (hleast : least ≤ es.length) (hmost : es.length ≤ most) :
    readCall (compileExpr ruleId) ruleId f least most (writeCall f (es.map Expr.write)) =
      .ok (some es) := by
  have hargument : ∀ t ∈ es.map Expr.write, Argument t := by
    simp only [List.forall_mem_map]
    exact fun e _ => argument_write e
  have hcall := callArguments_writeCall f fun t ht => (hargument t ht).close
  -- The parts between the commas are the written arguments, but for the blank after a comma.
  have htrim : (splitTopLevel (· == ',') (Text.join ", " (es.map Expr.write))).map Text.trim =
      es.map Expr.write :=
    map_trim_splitTopLevel_join (by decide) (by decide) [] " " rfl (by decide) (by simpa using hne)
      fun t ht => ⟨(hargument t ht).comma, (hargument t ht).trimmed⟩
  have hlen := congrArg List.length htrim
  rw [List.length_map, List.length_map] at hlen
  have hfilled : ∀ q ∈ splitTopLevel (· == ',') (Text.join ", " (es.map Expr.write)),
      q.isBlank = false := by
    intro q hq
    have hmem : q.trim ∈ es.map Expr.write := htrim ▸ List.mem_map_of_mem hq
    rw [← Bool.not_eq_true, ← Text.trim_eq_nil_iff]
    exact (hargument _ hmem).ne_nil
  have hblank : (Text.join ", " (es.map Expr.write)).isBlank = false := by
    obtain ⟨e, r, rfl⟩ := List.exists_cons_of_ne_nil hne
    have he := (argument_write e).isBlank_eq_false
    cases r with
    | nil => exact he
    | cons e' r =>
      rw [List.map_cons, List.map_cons, Text.join, Text.isBlank_append, Text.isBlank_append, he]
      rfl
  rw [readCall, hcall]
  dsimp only
  rw [splitArguments_of_parts hblank rfl (by omega) (by omega) hfilled]
  simp only [bind, Except.bind, mapM_compileExpr_of_map_trim htrim, Except.mapM_map_eq_ok h]
  rfl

/-! ## Shapes -/

section Shapes

variable {ruleId source : Text} {compile : Text → Except Error Expr}

theorem readConcat_of_piece (h : Piece (· == '+') source) :
    readConcat compile ruleId source = .ok none := by
  unfold readConcat
  rw [h.parts_eq]
  rfl

theorem readCall_of_none {f : Function} (h : callArguments f.name source = none) (least most : Nat) :
    readCall compile ruleId f least most source = .ok none := by
  rw [readCall, h]

theorem readNormalize_of_none (h : callArguments (Function.name .normalize) source = none) :
    readNormalize compile ruleId source = .ok none := by
  rw [readNormalize, h]

/-- A source that the shapes read as an expression is compiled to it. -/
theorem compileExpr_eq_ok (htrim : source.Trimmed) (hne : source ≠ []) {e : Expr}
    (h : firstReading source (expressionShapes (compileExpr ruleId) ruleId) = .ok (some e)) :
    compileExpr ruleId source = .ok e := by
  rw [compileExpr_eq, htrim.trim_eq, h, if_neg (by simpa using hne)]

end Shapes

/-- Only the number signs at its beginning are no part of the id in a literal. -/
theorem tableId_cons {table : Text} (hsign : table.head? ≠ some '#') :
    tableId ('#' :: table) = table := by
  cases table with
  | nil => rfl
  | cons c r =>
    have hc : c ≠ '#' := by simpa using hsign
    simp [tableId, hc]

/-- A table in quotes and a source that compiles are read as the two arguments of a call. -/
theorem readNormalize_writeCall {ruleId literal source : Text} (hid : tableId literal ≠ [])
    (hcomma : Piece (· == ',') source) (hclose : Piece (· == ')') source)
    (hfilled : source.isBlank = false) {operand : Expr}
    (h : compileExpr ruleId source = .ok operand) :
    readNormalize (compileExpr ruleId) ruleId (writeCall .normalize [quote literal, source]) =
      .ok (some (.normalize (tableId literal) operand)) := by
  have hquote := argument_quote literal
  have hclose : ∀ t ∈ [quote literal, source], Piece (· == ')') t := by
    simp [hquote.close, hclose]
  have hcall := callArguments_writeCall .normalize hclose
  have hspace : Piece (· == ',') (' ' :: source) :=
    (Piece.of_isPlain (t := [' ']) (by decide) (by decide)).append hcomma
  have hparts : splitTopLevel (· == ',') (Text.join ", " [quote literal, source]) =
      [quote literal, ' ' :: source] := by
    have h := hquote.comma.parts_append_cons (c := ',') rfl (by decide) (' ' :: source)
    rw [hspace.parts_eq] at h
    simpa [Text.join] using h
  have hblank : (Text.join ", " [quote literal, source]).isBlank = false := by
    rw [Text.join, Text.isBlank_append, Text.isBlank_append, hquote.isBlank_eq_false]
    rfl
  have hfilled : ∀ q ∈ [quote literal, ' ' :: source], q.isBlank = false := by
    have hspaced : Text.isBlank (' ' :: source) = false := by
      rw [← List.singleton_append, Text.isBlank_append, hfilled, Bool.and_false]
    simp [hquote.isBlank_eq_false, hspaced]
  have hoperand : compileExpr ruleId (' ' :: source) = .ok operand := by
    rw [← h, ← compileExpr_trim ruleId (' ' :: source), ← compileExpr_trim ruleId source]
    have htrim : Text.trim (' ' :: source) = source.trim := by
      rw [Text.trim, Text.stripWhile, List.dropWhile_cons_of_pos (by decide)]
      rfl
    rw [htrim]
  rw [readNormalize, hcall]
  dsimp only
  rw [splitArguments_of_parts hblank hparts (by simp) (by simp) hfilled]
  simp [bind, Except.bind, wholeLiteral_quote, hid, hoperand, pure, Except.pure]

/-! ## Expressions -/

/-- An expression is compiled if each of its operands is. -/
theorem compileExpr_write_of_operands {ruleId : Text} {e : Expr} (he : e.isExpressible = true)
    (h : ∀ o ∈ e.operands, compileExpr ruleId o.write = .ok o) :
    compileExpr ruleId e.write = .ok e := by
  obtain ⟨first, others, hops, hfold⟩ := e.exists_operands
  cases others with
  | nil =>
    obtain rfl : first = e := hfold
    exact h first (by simp [hops])
  | cons second others =>
    -- The parts between the plus signs are the written operands, but for the blanks around them.
    have htrim : (splitTopLevel (· == '+') e.write).map Text.trim = e.operands.map Expr.write := by
      rw [write_eq_join e]
      refine map_trim_splitTopLevel_join (by decide) (by decide) " " " " (by decide) (by decide)
        (by simp [hops]) ?_
      simp only [List.forall_mem_map]
      exact fun o ho => ⟨piece_write_operand (forall_of_separator (by decide))
        (Expr.isConcat_of_mem_operands he o ho), trimmed_write o⟩
    have hlen : 2 ≤ (splitTopLevel (· == '+') e.write).length := by
      have := congrArg List.length htrim
      simp [hops] at this
      omega
    have hfilled : (splitTopLevel (· == '+') e.write).any Text.isBlank = false := by
      refine List.any_eq_false.mpr fun q hq => ?_
      have hmem : q.trim ∈ e.operands.map Expr.write := htrim ▸ List.mem_map_of_mem hq
      obtain ⟨o, -, ho⟩ := List.mem_map.mp hmem
      rw [← Text.trim_eq_nil_iff, ← ho]
      exact write_ne_nil o
    refine compileExpr_eq_ok (trimmed_write e) (write_ne_nil e) ?_
    have hmap : (splitTopLevel (· == '+') e.write).mapM (compileExpr ruleId) =
        .ok (first :: second :: others) := by
      rw [mapM_compileExpr_of_map_trim htrim, Except.mapM_map_eq_ok h, hops]
    have hconcat : readConcat (compileExpr ruleId) ruleId e.write = .ok (some e) := by
      unfold readConcat
      simp only [hfilled, hmap]
      rw [if_neg (by omega), if_neg (by simp), ← hfold]
      rfl
    simp only [expressionShapes, firstReading, hconcat]

section Head

variable {source : Text} {c : Char}

/-- A source that begins like no name of a function is no call. -/
theorem callArguments_eq_none_of_head (hsource : source.head? = some c) (hgap : isGap c = false)
    (hname : ∀ f : Function, f.name.head? ≠ some c) (f : Function) :
    callArguments f.name source = none := by
  obtain ⟨r, rfl⟩ := List.head?_eq_some_iff.mp hsource
  refine callArguments_eq_none fun h => hname f ?_
  rw [skipGap_cons hgap] at h
  obtain ⟨d, w, hw⟩ : ∃ d w, f.name = d :: w := by cases f <;> exact ⟨_, _, rfl⟩
  rw [hw, List.cons_prefix_cons] at h
  rw [hw, h.1]
  rfl

theorem wholeLookup_eq_none_of_head (hsource : source.head? = some c) (hgap : isGap c = false)
    (hc : c ≠ 't') : wholeLookup source = none := by
  obtain ⟨r, rfl⟩ := List.head?_eq_some_iff.mp hsource
  have hafter : Text.after? (c :: r) "timex" = none := if_neg (Ne.symm hc)
  rw [wholeLookup, lookupKey, skipGap_cons hgap, hafter]

/-- A source without plus signs that is no call is left to the last three shapes. -/
theorem firstReading_of_head (ruleId : Text) (hpiece : Piece (· == '+') source)
    (hsource : source.head? = some c) (hgap : isGap c = false)
    (hname : ∀ f : Function, f.name.head? ≠ some c) :
    firstReading source (expressionShapes (compileExpr ruleId) ruleId) =
      .ok (((wholeLookup source).map .lookup).or
        ((if source = "value" then some .captured else none).or
          ((wholeLiteral source).map .constant))) := by
  have hcall (f : Function) := callArguments_eq_none_of_head hsource hgap hname f
  have hread (f : Function) (least most : Nat) :
      readCall (compileExpr ruleId) ruleId f least most source = .ok none :=
    readCall_of_none (hcall f) least most
  simp only [expressionShapes, firstReading, readConcat_of_piece hpiece,
    readNormalize_of_none (hcall .normalize), readSubstring, readSum, readMinus, readMult, hread,
    bind, Except.bind, pure, Except.pure]
  cases wholeLookup source with
  | some key => rfl
  | none =>
    by_cases hvalue : source = "value"
    · simp only [if_pos hvalue]
      rfl
    · simp only [if_neg hvalue]
      cases wholeLiteral source <;> rfl

end Head

theorem compileExpr_write_constant (ruleId value : Text) :
    compileExpr ruleId (Expr.constant value).write = .ok (.constant value) := by
  refine compileExpr_eq_ok (trimmed_write _) (write_ne_nil _) ?_
  have hhead : (quote value).head? = some '"' := rfl
  have hvalue : quote value ≠ "value" := fun h => by simp [h] at hhead
  show firstReading (quote value) _ = _
  rw [firstReading_of_head ruleId (piece_quote _ value) hhead (by decide)
    (by rintro ⟨⟩ <;> decide), wholeLookup_eq_none_of_head hhead (by decide) (by decide),
    if_neg hvalue, wholeLiteral_quote]
  rfl

theorem compileExpr_write_captured (ruleId : Text) :
    compileExpr ruleId Expr.captured.write = .ok .captured := by
  refine compileExpr_eq_ok (trimmed_write _) (write_ne_nil _) ?_
  have hpiece : Piece (· == '+') "value".toList := Piece.of_isPlain (by decide) (by decide)
  show firstReading "value".toList _ = _
  rw [firstReading_of_head ruleId hpiece rfl (by decide) (by rintro ⟨⟩ <;> decide)]
  rfl

theorem compileExpr_write_lookup (ruleId key : Text) :
    compileExpr ruleId (Expr.lookup key).write = .ok (.lookup key) := by
  refine compileExpr_eq_ok (trimmed_write _) (write_ne_nil _) ?_
  have hpiece : Piece (· == '+') (writeLookup key) :=
    ⟨balanced_writeLookup key, (Scan.avoids_writeLookup key).mono (forall_of_separator (by decide))⟩
  show firstReading (writeLookup key) _ = _
  rw [firstReading_of_head ruleId hpiece rfl (by decide) (by rintro ⟨⟩ <;> decide),
    wholeLookup_writeLookup]
  rfl

/-- The shape that reads the calls of a function. -/
def readFunction (compile : Text → Except Error Expr) (ruleId : Text) :
    Function → Text → Except Error (Option Expr)
  | .normalize => readNormalize compile ruleId
  | .substring => readSubstring compile ruleId
  | .sum => readSum compile ruleId
  | .minus => readMinus compile ruleId
  | .mult => readMult compile ruleId

theorem expressionShapes_eq (compile : Text → Except Error Expr) (ruleId : Text) :
    expressionShapes compile ruleId =
      [⟨"concatenation", readConcat compile ruleId⟩,
       ⟨"Normalize", readFunction compile ruleId .normalize⟩,
       ⟨"Substring", readFunction compile ruleId .substring⟩,
       ⟨"Sum", readFunction compile ruleId .sum⟩,
       ⟨"Minus", readFunction compile ruleId .minus⟩,
       ⟨"Mult", readFunction compile ruleId .mult⟩,
       ⟨"lookup", fun source => .ok ((wholeLookup source).map .lookup)⟩,
       ⟨"value", fun source => .ok (if source = "value" then some .captured else none)⟩,
       ⟨"constant", fun source => .ok ((wholeLiteral source).map .constant)⟩] := rfl

/-- The shape of one function does not recognise a call of another one. -/
theorem readFunction_eq_none (compile : Text → Except Error Expr) (ruleId : Text) {f : Function}
    (l : List Text) (g : Function) (h : f ≠ g) :
    readFunction compile ruleId g (writeCall f l) = .ok none := by
  have hcall := callArguments_writeCall_of_ne h l
  cases g with
  | normalize => exact readNormalize_of_none hcall
  | substring =>
    rw [readFunction, readSubstring, readCall_of_none hcall]
    rfl
  | sum =>
    rw [readFunction, readSum, readCall_of_none hcall]
    rfl
  | minus =>
    rw [readFunction, readMinus, readCall_of_none hcall]
    rfl
  | mult =>
    rw [readFunction, readMult, readCall_of_none hcall]
    rfl

/-- A written call is read by the shape of its function: the shapes before it recognise nothing. -/
theorem compileExpr_writeCall {ruleId : Text} {e : Expr} {f : Function} {l : List Text}
    (hbalanced : ∀ t ∈ l, Balanced t)
    (h : readFunction (compileExpr ruleId) ruleId f (writeCall f l) = .ok (some e)) :
    compileExpr ruleId (writeCall f l) = .ok e := by
  refine compileExpr_eq_ok (trimmed_writeCall f l) (writeCall_ne_nil f l) ?_
  have hpiece : Piece (· == '+') (writeCall f l) :=
    ⟨balanced_writeCall f hbalanced,
      (Scan.avoids_writeCall f hbalanced).mono (forall_of_separator (by decide))⟩
  have hconcat : readConcat (compileExpr ruleId) ruleId (writeCall f l) = .ok none :=
    readConcat_of_piece hpiece
  have hnone := readFunction_eq_none (compileExpr ruleId) ruleId (f := f) l
  rw [expressionShapes_eq]
  cases f with
  | normalize => simp only [firstReading, hconcat, h]
  | substring => simp only [firstReading, hconcat, hnone .normalize (by decide), h]
  | sum =>
    simp only [firstReading, hconcat, hnone .normalize (by decide), hnone .substring (by decide), h]
  | minus =>
    simp only [firstReading, hconcat, hnone .normalize (by decide), hnone .substring (by decide),
      hnone .sum (by decide), h]
  | mult =>
    simp only [firstReading, hconcat, hnone .normalize (by decide), hnone .substring (by decide),
      hnone .sum (by decide), hnone .minus (by decide), h]

/-- A call is compiled if its arguments are, and if its shape makes the expression of them. -/
theorem compileExpr_write_call {ruleId : Text} {e : Expr} {f : Function} (es : List Expr)
    {least most : Nat} (hwrite : e.write = writeCall f (es.map Expr.write))
    (hne : es ≠ []) (hleast : least ≤ es.length) (hmost : es.length ≤ most)
    (hread : ∀ source, readCall (compileExpr ruleId) ruleId f least most source = .ok (some es) →
      readFunction (compileExpr ruleId) ruleId f source = .ok (some e))
    (h : ∀ a ∈ es, compileExpr ruleId a.write = .ok a) : compileExpr ruleId e.write = .ok e := by
  have hbalanced : ∀ t ∈ es.map Expr.write, Balanced t :=
    List.forall_mem_map.mpr fun a _ => balanced_write a
  rw [hwrite]
  exact compileExpr_writeCall hbalanced (hread _ (readCall_writeCall ruleId f hne h hleast hmost))

/-- The operands of an expression are compiled, by induction on the expression: the operands of what
    is joined are those of its left side and its right side itself. -/
theorem compileExpr_write_of_mem_operands (ruleId : Text) {e : Expr} (he : e.isExpressible = true) :
    ∀ o ∈ e.operands, compileExpr ruleId o.write = .ok o := by
  induction e with
  | concat left right hl hr =>
    simp only [Expr.isExpressible, Bool.and_eq_true] at he
    simp only [Expr.operands, List.mem_append, List.mem_singleton]
    rintro o (ho | rfl)
    · exact hl he.1.1 o ho
    · exact compileExpr_write_of_operands he.1.2 (hr he.1.2)
  | constant value =>
    rw [Expr.operands_of_not_isConcat rfl, List.forall_mem_singleton]
    exact compileExpr_write_constant ruleId value
  | captured =>
    rw [Expr.operands_of_not_isConcat rfl, List.forall_mem_singleton]
    exact compileExpr_write_captured ruleId
  | lookup key =>
    rw [Expr.operands_of_not_isConcat rfl, List.forall_mem_singleton]
    exact compileExpr_write_lookup ruleId key
  | sum left right hl hr =>
    simp only [Expr.isExpressible, Bool.and_eq_true] at he
    have hleft := compileExpr_write_of_operands he.1 (hl he.1)
    have hright := compileExpr_write_of_operands he.2 (hr he.2)
    rw [Expr.operands_of_not_isConcat rfl, List.forall_mem_singleton]
    exact compileExpr_write_call [left, right] rfl (by simp) (Nat.le_refl 2)
      (Nat.le_refl 2) (fun source h => by rw [readFunction, readSum, h]; rfl)
      (by simp [hleft, hright])
  | minus left right hl hr =>
    simp only [Expr.isExpressible, Bool.and_eq_true] at he
    have hleft := compileExpr_write_of_operands he.1 (hl he.1)
    have hright := compileExpr_write_of_operands he.2 (hr he.2)
    rw [Expr.operands_of_not_isConcat rfl, List.forall_mem_singleton]
    exact compileExpr_write_call [left, right] rfl (by simp) (Nat.le_succ 1)
      (Nat.le_refl 2) (fun source h => by rw [readFunction, readMinus, h]; rfl)
      (by simp [hleft, hright])
  | negation operand ho =>
    replace he : operand.isExpressible = true := he
    have hoperand := compileExpr_write_of_operands he (ho he)
    rw [Expr.operands_of_not_isConcat rfl, List.forall_mem_singleton]
    exact compileExpr_write_call [operand] rfl (by simp) (Nat.le_refl 1)
      (Nat.le_succ 1) (fun source h => by rw [readFunction, readMinus, h]; rfl) (by simp [hoperand])
  | mult left right hl hr =>
    simp only [Expr.isExpressible, Bool.and_eq_true] at he
    have hleft := compileExpr_write_of_operands he.1 (hl he.1)
    have hright := compileExpr_write_of_operands he.2 (hr he.2)
    rw [Expr.operands_of_not_isConcat rfl, List.forall_mem_singleton]
    exact compileExpr_write_call [left, right] rfl (by simp) (Nat.le_refl 2)
      (Nat.le_refl 2) (fun source h => by rw [readFunction, readMult, h]; rfl)
      (by simp [hleft, hright])
  | normalize table operand ho =>
    simp only [Expr.isExpressible, Bool.and_eq_true, Bool.not_eq_true', List.isEmpty_eq_false_iff,
      bne_iff_ne] at he
    have hoperand := compileExpr_write_of_operands he.2 (ho he.2)
    rw [Expr.operands_of_not_isConcat rfl, List.forall_mem_singleton]
    have hwrite := argument_write operand
    have hid := tableId_cons he.1.2
    have hne : tableId ('#' :: table) ≠ [] := by
      rw [hid]
      exact he.1.1
    have hread := readNormalize_writeCall hne hwrite.comma hwrite.close hwrite.isBlank_eq_false
      hoperand
    rw [hid] at hread
    refine compileExpr_writeCall ?_ hread
    simp [balanced_quote, balanced_write]
  | substring operand start length ho hs hl =>
    simp only [Expr.isExpressible, Bool.and_eq_true] at he
    have hoperand := compileExpr_write_of_operands he.1.1 (ho he.1.1)
    have hstart := compileExpr_write_of_operands he.1.2 (hs he.1.2)
    have hlength := compileExpr_write_of_operands he.2 (hl he.2)
    rw [Expr.operands_of_not_isConcat rfl, List.forall_mem_singleton]
    exact compileExpr_write_call [operand, start, length] rfl (by simp) (Nat.le_succ 2)
      (Nat.le_refl 3) (fun source h => by rw [readFunction, readSubstring, h]; rfl)
      (by simp [hoperand, hstart, hlength])
  | suffix operand start ho hs =>
    simp only [Expr.isExpressible, Bool.and_eq_true] at he
    have hoperand := compileExpr_write_of_operands he.1 (ho he.1)
    have hstart := compileExpr_write_of_operands he.2 (hs he.2)
    rw [Expr.operands_of_not_isConcat rfl, List.forall_mem_singleton]
    exact compileExpr_write_call [operand, start] rfl (by simp) (Nat.le_refl 2)
      (Nat.le_succ 2) (fun source h => by rw [readFunction, readSubstring, h]; rfl)
      (by simp [hoperand, hstart])

/-- What is written of an expression is read back. -/
theorem compileExpr_write (ruleId : Text) {e : Expr} (he : e.isExpressible = true) :
    compileExpr ruleId e.write = .ok e :=
  compileExpr_write_of_operands he (compileExpr_write_of_mem_operands ruleId he)

end TimePhrase.Script
