import TimePhrase.Proofs.Script.CompileExpr

/-!
# Writing scripts

Every expression that some source stands for is written in one way: literals between double
quotes, calls with a comma and a space between their arguments, and operands with plus signs
between them. A written expression is balanced and trimmed, and its top level shows little more
than the names of functions, so what contains it can be taken apart again.

* `Expr.write`, `Statement.write`, `writeScript`  the written forms
* `Expr.isExpressible`  the expressions that some source stands for
* `balanced_write`, `avoids_write`, `trimmed_write`  what a scan finds in a written expression
-/

namespace TimePhrase.Script

/-! ## Written forms -/

/-- A text between double quotes. -/
def quote (t : Text) : Text := '"' :: escape '"' t ++ ['"']

/-- A lookup of a key. -/
def writeLookup (key : Text) : Text := "timex" ++ ('[' :: quote key ++ [']'])

/-- A call with its arguments. -/
def writeCall (function : Function) (arguments : List Text) : Text :=
  function.name ++ ('(' :: Text.join ", " arguments ++ [')'])

namespace Expr

/-- Whether the expression joins two texts. -/
def isConcat : Expr → Bool
  | .concat _ _ => true
  | _ => false

/-- An expression as a source. -/
def write : Expr → Text
  | .constant value => quote value
  | .captured => "value"
  | .lookup key => writeLookup key
  | .concat left right => left.write ++ " + " ++ right.write
  | .sum left right => writeCall .sum [left.write, right.write]
  | .minus left right => writeCall .minus [left.write, right.write]
  | .negation operand => writeCall .minus [operand.write]
  | .mult left right => writeCall .mult [left.write, right.write]
  | .normalize table operand => writeCall .normalize [quote ('#' :: table), operand.write]
  | .substring operand start length =>
    writeCall .substring [operand.write, start.write, length.write]
  | .suffix operand start => writeCall .substring [operand.write, start.write]

/-- Whether some source stands for the expression. What is joined leans to the left, and the id of
    a table has a first character other than a number sign. -/
def isExpressible : Expr → Bool
  | .constant _ | .captured | .lookup _ => true
  | .concat left right => left.isExpressible && right.isExpressible && !right.isConcat
  | .sum left right | .minus left right | .mult left right =>
    left.isExpressible && right.isExpressible
  | .negation operand => operand.isExpressible
  | .normalize table operand => !table.isEmpty && table.head? != some '#' && operand.isExpressible
  | .substring operand start length =>
    operand.isExpressible && start.isExpressible && length.isExpressible
  | .suffix operand start => operand.isExpressible && start.isExpressible

/-- The operands of what is joined, from left to right. -/
def operands : Expr → List Expr
  | .concat left right => left.operands ++ [right]
  | e => [e]

end Expr

/-- A statement as a source. -/
def Statement.write (s : Statement) : Text := writeLookup s.key ++ " = " ++ s.value.write

/-- Statements with separators between neighbours, semicolons where no others are given. -/
def writeScript : List Statement → List Text → Text
  | [], _ => []
  | [s], _ => s.write
  | s :: r, [] => s.write ++ ";" ++ writeScript r []
  | s :: r, separator :: separators => s.write ++ separator ++ writeScript r separators

/-! ## What a scan finds -/

namespace Scan

/-- A scan stays between the quotes of an escaped text. -/
theorem after_escape (q : Char) (d : Nat) (t : Text) :
    (Scan.quoted q d).after (escape q t) = .quoted q d := by
  induction t with
  | nil => rfl
  | cons c r ih =>
    simp only [escape]
    split
    · simp [next, ih]
    · rename_i hc
      rw [not_or] at hc
      simp [next, hc.1, hc.2, ih]

theorem avoids_escape (q : Char) (p : Char → Bool) (d : Nat) (t : Text) :
    Avoids p (.quoted q d) (escape q t) := by
  induction t with
  | nil => trivial
  | cons c r ih =>
    simp only [escape]
    split
    · simpa [sees, next] using ih
    · rename_i hc
      rw [not_or] at hc
      simpa [sees, next, hc.1, hc.2] using ih

theorem after_quote (d : Nat) (t : Text) : (Scan.code d).after (quote t) = .code d := by
  rw [quote, after_append, after_cons]
  simp [next, isQuote, after_escape]

theorem avoids_quote (p : Char → Bool) (d : Nat) (t : Text) : Avoids p (.code d) (quote t) := by
  have hopen : (Scan.code d).next '"' = .quoted '"' d := by simp [next, isQuote]
  have hsees : (Scan.code d).sees '"' = false := by cases d <;> rfl
  rw [quote, avoids_append, avoids_cons, after_cons, hopen, after_escape, hsees]
  exact ⟨⟨by simp, avoids_escape '"' p d t⟩, by simp [sees]⟩

end Scan

theorem balanced_quote (t : Text) : Balanced (quote t) :=
  ⟨fun d => Scan.after_quote d t, fun d p => Scan.avoids_quote p (d + 1) t⟩

theorem balanced_of_isBlank {t : Text} (h : t.isBlank = true) : Balanced t :=
  Balanced.of_isPlain fun c hc => isPlain_of_class (by decide) (List.all_eq_true.mp h c hc)

theorem balanced_of_isAlpha {t : Text} (h : ∀ c ∈ t, c.isAlpha = true) : Balanced t :=
  Balanced.of_isPlain fun c hc => isPlain_of_class (by decide) (h c hc)

theorem isAlpha_of_mem_name (f : Function) : ∀ c ∈ f.name, c.isAlpha = true := by
  cases f <;> decide

/-- What holds of texts one after the other holds of texts that are joined. -/
theorem join_of_append {P : Text → Prop} (hnil : P [])
    (happend : ∀ {t u : Text}, P t → P u → P (t ++ u)) {sep : Text} (hsep : P sep) {l : List Text}
    (h : ∀ t ∈ l, P t) : P (Text.join sep l) := by
  induction l with
  | nil => exact hnil
  | cons t r ih =>
    have ht := h t (List.mem_cons_self ..)
    cases r with
    | nil => exact ht
    | cons u r =>
      exact happend (happend ht hsep) (ih fun v hv => h v (List.mem_cons_of_mem _ hv))

theorem balanced_join {l : List Text} (h : ∀ t ∈ l, Balanced t) : Balanced (Text.join ", " l) :=
  join_of_append Balanced.nil Balanced.append (Balanced.of_isPlain (by decide)) h

theorem balanced_writeLookup (key : Text) : Balanced (writeLookup key) :=
  (balanced_of_isAlpha (by decide)).append
    (Balanced.bracketed (fun _ => rfl) (fun _ => rfl) (balanced_quote key))

theorem balanced_writeCall (f : Function) {arguments : List Text}
    (h : ∀ t ∈ arguments, Balanced t) : Balanced (writeCall f arguments) :=
  (balanced_of_isAlpha (isAlpha_of_mem_name f)).append
    (Balanced.bracketed (fun _ => rfl) (fun _ => rfl) (balanced_join h))

/-- A written expression closes what it opens. -/
theorem balanced_write (e : Expr) : Balanced e.write := by
  induction e with
  | constant value => exact balanced_quote value
  | captured => exact balanced_of_isAlpha (by decide)
  | lookup key => exact balanced_writeLookup key
  | concat left right hl hr => exact (hl.append (Balanced.of_isPlain (by decide))).append hr
  | sum left right hl hr => exact balanced_writeCall _ (by simp [hl, hr])
  | minus left right hl hr => exact balanced_writeCall _ (by simp [hl, hr])
  | negation operand h => exact balanced_writeCall _ (by simp [h])
  | mult left right hl hr => exact balanced_writeCall _ (by simp [hl, hr])
  | normalize table operand h => exact balanced_writeCall _ (by simp [h, balanced_quote])
  | substring operand start length ho hs hl => exact balanced_writeCall _ (by simp [ho, hs, hl])
  | suffix operand start ho hs => exact balanced_writeCall _ (by simp [ho, hs])

/-! ## The top level -/

/-- The characters at the top level of a written expression that joins nothing. -/
def isOperandChar (c : Char) : Bool := c.isAlpha || c == '(' || c == '['

/-- The characters at the top level of a written expression. -/
def isExprChar (c : Char) : Bool := isOperandChar c || c == ' ' || c == '+'

namespace Scan

/-- A word and a bracketed text after it show only the word and the opening bracket. -/
theorem avoids_append_bracketed {p : Char → Bool} {w t : Text} {o c : Char}
    (hw : ∀ a ∈ w, a.isAlpha = true) (hp : ∀ a ∈ w, p a = false) (hpo : p o = false)
    (ho : outside.next o = .code 1) (ht : Balanced t) : Avoids p outside (w ++ (o :: t ++ [c])) := by
  have hafter : outside.after w = outside := (balanced_of_isAlpha hw).after_eq 0
  rw [avoids_append, hafter, avoids_append, avoids_cons, after_cons, ho, ht.after_eq]
  exact ⟨avoids_of_all hp _, ⟨fun _ => hpo, ht.avoids 0 p⟩, by simp [sees]⟩

theorem avoids_writeLookup (key : Text) :
    Avoids (fun c => !isOperandChar c) outside (writeLookup key) :=
  avoids_append_bracketed (by decide) (by decide) (by decide) rfl (balanced_quote key)

theorem avoids_writeCall (f : Function) {arguments : List Text}
    (h : ∀ t ∈ arguments, Balanced t) :
    Avoids (fun c => !isOperandChar c) outside (writeCall f arguments) :=
  avoids_append_bracketed (isAlpha_of_mem_name f)
    (fun a ha => by simp [isOperandChar, isAlpha_of_mem_name f a ha]) (by decide) rfl
    (balanced_join h)

end Scan

/-- Without a plus sign the top level shows names and opening brackets only. -/
theorem avoids_write_operand {e : Expr} (h : e.isConcat = false) :
    Scan.Avoids (fun c => !isOperandChar c) .outside e.write := by
  cases e with
  | constant value => exact Scan.avoids_quote _ 0 value
  | captured => exact Scan.avoids_of_all (by decide) _
  | lookup key => exact Scan.avoids_writeLookup key
  | concat left right => simp [Expr.isConcat] at h
  | sum left right => exact Scan.avoids_writeCall _ (by simp [balanced_write])
  | minus left right => exact Scan.avoids_writeCall _ (by simp [balanced_write])
  | negation operand => exact Scan.avoids_writeCall _ (by simp [balanced_write])
  | mult left right => exact Scan.avoids_writeCall _ (by simp [balanced_write])
  | normalize table operand =>
    exact Scan.avoids_writeCall _ (by simp [balanced_write, balanced_quote])
  | substring operand start length => exact Scan.avoids_writeCall _ (by simp [balanced_write])
  | suffix operand start => exact Scan.avoids_writeCall _ (by simp [balanced_write])

/-- The top level of a written expression shows names, opening brackets and plus signs only. -/
theorem avoids_write (e : Expr) : Scan.Avoids (fun c => !isExprChar c) .outside e.write := by
  induction e with
  | concat left right hl hr =>
    have hsign : Piece (fun c => !isExprChar c) " + ".toList :=
      ⟨Balanced.of_isPlain (by decide), Scan.avoids_of_all (by decide) _⟩
    have hleft : Piece (fun c => !isExprChar c) left.write := ⟨balanced_write left, hl⟩
    have hright : Piece (fun c => !isExprChar c) right.write := ⟨balanced_write right, hr⟩
    exact ((hleft.append hsign).append hright).avoids_outside
  | _ =>
    exact (avoids_write_operand rfl).mono fun c hc => by
      simp only [isExprChar, Bool.not_or, Bool.and_eq_true] at hc
      exact hc.1.1

/-- What is said of a separator is said of all characters that are one. -/
theorem forall_of_separator {separator : Char} {q : Char → Bool} {b : Bool} (h : q separator = b) :
    ∀ c, (c == separator) = true → q c = b := by
  intro c hc
  rw [beq_iff_eq.mp hc, h]

/-- Nothing but a character of its top level splits a written expression. -/
theorem piece_write {p : Char → Bool} (hp : ∀ c, p c = true → isExprChar c = false) (e : Expr) :
    Piece p e.write :=
  ⟨balanced_write e, (avoids_write e).mono fun c hc => by simp [hp c hc]⟩

theorem piece_write_operand {p : Char → Bool} (hp : ∀ c, p c = true → isOperandChar c = false)
    {e : Expr} (he : e.isConcat = false) : Piece p e.write :=
  ⟨balanced_write e, (avoids_write_operand he).mono fun c hc => by simp [hp c hc]⟩

theorem piece_quote (p : Char → Bool) (t : Text) : Piece p (quote t) :=
  ⟨balanced_quote t, Scan.avoids_quote p 0 t⟩

/-! ## Both ends -/

theorem trimmed_quote (t : Text) : (quote t).Trimmed :=
  Text.tight_cons_concat (by decide) (by decide) _

theorem trimmed_writeLookup (key : Text) : (writeLookup key).Trimmed :=
  Text.tight_cons_concat (by decide) (by decide) ("imex" ++ ('[' :: quote key))

theorem trimmed_writeCall (f : Function) (arguments : List Text) :
    (writeCall f arguments).Trimmed := by
  have hname : (Function.name f).Trimmed ∧ Function.name f ≠ [] := by
    cases f <;> exact ⟨Text.tight_of_all (by decide), by decide⟩
  have hclose : Text.Trimmed [')'] := Text.tight_of_all (by decide)
  have h := hname.1.append hname.2 hclose (by simp) ('(' :: Text.join ", " arguments)
  rwa [List.append_assoc] at h

theorem writeLookup_ne_nil (key : Text) : writeLookup key ≠ [] :=
  List.append_ne_nil_of_right_ne_nil _ (List.cons_ne_nil _ _)

theorem writeCall_ne_nil (f : Function) (arguments : List Text) : writeCall f arguments ≠ [] :=
  List.append_ne_nil_of_right_ne_nil _ (List.cons_ne_nil _ _)

theorem write_ne_nil (e : Expr) : e.write ≠ [] := by
  induction e with
  | constant value => exact List.cons_ne_nil _ _
  | captured => decide
  | lookup key => exact writeLookup_ne_nil key
  | concat left right _ hr => exact List.append_ne_nil_of_right_ne_nil _ hr
  | _ => exact writeCall_ne_nil _ _

/-- A written expression neither begins nor ends with a blank. -/
theorem trimmed_write (e : Expr) : e.write.Trimmed := by
  induction e with
  | constant value => exact trimmed_quote value
  | captured => exact Text.tight_of_all (by decide)
  | lookup key => exact trimmed_writeLookup key
  | concat left right hl hr => exact hl.append (write_ne_nil left) hr (write_ne_nil right) _
  | _ => exact trimmed_writeCall _ _

/-! ## Splitting what is joined -/

/-- Blanks are not split by a separator that is no blank. -/
theorem piece_of_isBlank {c : Char} (hc : isBlank c = false) {t : Text} (h : t.isBlank = true) :
    Piece (· == c) t := by
  refine ⟨balanced_of_isBlank h, Scan.avoids_of_all (fun d hd => ?_) _⟩
  rw [beq_eq_false_iff_ne]
  rintro rfl
  simp [List.all_eq_true.mp h d hd] at hc

/-- What is joined by a separator, with blanks around it or not, splits into the trimmed parts. -/
theorem map_trim_parts_join {c : Char} (hc : isBlank c = false) (hplain : isPlain c = true)
    {before behind b : Text} (hbefore : before.isBlank = true) (hbehind : behind.isBlank = true)
    (hb : b.isBlank = true) {t : Text} {l : List Text}
    (h : ∀ u ∈ t :: l, Piece (· == c) u ∧ u.Trimmed) :
    (splitTopLevel (· == c) (b ++ Text.join (before ++ c :: behind) (t :: l))).map Text.trim =
      t :: l := by
  obtain ⟨ht, htrim⟩ := h t (List.mem_cons_self ..)
  have hbt : Piece (· == c) (b ++ t) := (piece_of_isBlank hc hb).append ht
  induction l generalizing t b with
  | nil =>
    rw [Text.join, hbt.parts_eq, List.map_singleton]
    simpa using Text.trim_append_append hb htrim (b := []) rfl
  | cons u l ih =>
    obtain ⟨hu, hutrim⟩ := h u (by simp)
    have hpiece : Piece (· == c) (b ++ t ++ before) := hbt.append (piece_of_isBlank hc hbefore)
    have hsplit : b ++ Text.join (before ++ c :: behind) (t :: u :: l) =
        b ++ t ++ before ++ c :: (behind ++ Text.join (before ++ c :: behind) (u :: l)) := by
      simp [Text.join]
    rw [hsplit, hpiece.parts_append_cons (beq_self_eq_true c) hplain, List.map_cons,
      Text.trim_append_append hb htrim hbefore]
    rw [ih hbehind (fun v hv => h v (List.mem_cons_of_mem _ hv)) hu hutrim
      ((piece_of_isBlank hc hbehind).append hu)]

/-- Any list of texts splits into its members where it is joined. -/
theorem map_trim_splitTopLevel_join {c : Char} (hc : isBlank c = false) (hplain : isPlain c = true)
    (before behind : Text) (hbefore : before.isBlank = true) (hbehind : behind.isBlank = true)
    {l : List Text} (hne : l ≠ []) (h : ∀ u ∈ l, Piece (· == c) u ∧ u.Trimmed) :
    (splitTopLevel (· == c) (Text.join (before ++ c :: behind) l)).map Text.trim = l := by
  obtain ⟨t, l, rfl⟩ := List.exists_cons_of_ne_nil hne
  exact map_trim_parts_join hc hplain hbefore hbehind (b := []) rfl h

end TimePhrase.Script
