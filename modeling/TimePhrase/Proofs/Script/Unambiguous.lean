import TimePhrase.Proofs.Script.Form
import TimePhrase.Proofs.Script.Openings

/-!
# One shape for a source

The shapes of expressions are tried in an order, but the order decides next to nothing: of a source
that is compiled, one shape makes the expression, and all others do not recognise it. Only the word
for the captured text is a literal, too. What makes this hold is that a source that is compiled
closes every bracket that it opens, so its plus signs are not inside of what another shape reads,
and that a call that is an operand ends before the plus sign after it.

* `Form.eq_of_fits`  shapes that do not join are told apart by the beginning of a source
* `ReadsForms.piece`, `ReadsForms.balanced`  a source that is compiled closes what it opens, and shows
  nothing but plus signs between its parts
* `callArguments_eq_none_of_readConcat`  what joins is no call
* `compileExpr_unambiguous`  one shape for a source, and any order of the shapes
-/

namespace TimePhrase.Script

namespace Form

variable {source w : Text} {form other : Form}

/-! ## What a source begins with -/

/-- The word that every source of the shape begins with, if there is one. -/
def word? : Form → Option Text
  | .call f => some f.name
  | .lookup => some "timex"
  | .captured => some "value"
  | .concat | .constant => none

theorem eq_of_word? (h : form.word? = some w) (h' : other.word? = some w) : form = other := by
  have hall : ∀ a ∈ all, ∀ b ∈ all, a.word? = b.word? → a.word? ≠ none → a = b := by decide
  exact hall form form.mem_all other other.mem_all (h.trans h'.symm) (by simp [h])

theorem leadingWord_of_fits (h : form.word? = some w) (hfits : form.fits source = true) :
    leadingWord source = w := by
  cases form with
  | concat | constant => exact nomatch h
  | call f =>
    obtain rfl := Option.some.inj h
    obtain ⟨arguments, hcall⟩ := Option.isSome_iff_exists.mp hfits
    exact (Opens.of_callArguments hcall).leadingWord_eq (isAlpha_of_mem_name f)
      (by cases f <;> decide) (by decide)
  | lookup =>
    obtain rfl := Option.some.inj h
    obtain ⟨key, hkey⟩ := Option.isSome_iff_exists.mp hfits
    exact (Opens.of_wholeLookup hkey).leadingWord_eq (by decide) (by decide) (by decide)
  | captured =>
    obtain rfl := Option.some.inj h
    obtain rfl : source = "value".toList := by simpa [fits] using hfits
    decide

/-- A name and a bracket show the shape, if nothing is joined. -/
theorem word?_of_opens {o : Char} (hw : ∀ c ∈ w, c.isAlpha = true) (hne : w ≠ [])
    (hbare : ∀ c ∈ w, isBareChar c = true) (ho : o.isAlpha = false) (hobare : isBareChar o = false)
    (hogap : isGap o = false) (h : Opens w o source) (hform : form ≠ .concat)
    (hfits : form.fits source = true) : form.word? = some w := by
  have hleading := h.leadingWord_eq hw hne ho
  cases form with
  | concat => exact absurd rfl hform
  | constant =>
    have hnone := h.wholeLiteral_eq_none hw hne hbare hobare hogap
    simp [fits, hnone] at hfits
  | call f => rw [← hleading, leadingWord_of_fits rfl hfits, word?]
  | lookup => rw [← hleading, leadingWord_of_fits rfl hfits, word?]
  | captured => rw [← hleading, leadingWord_of_fits rfl hfits, word?]

theorem eq_call_of_opens {f : Function} (h : Opens f.name '(' source) (hform : form ≠ .concat)
    (hfits : form.fits source = true) : form = .call f :=
  eq_of_word? (word?_of_opens (isAlpha_of_mem_name f) (by cases f <;> decide)
    (by cases f <;> decide) (by decide) (by decide) (by decide) h hform hfits) rfl

theorem eq_lookup_of_opens (h : Opens "timex" '[' source) (hform : form ≠ .concat)
    (hfits : form.fits source = true) : form = .lookup :=
  eq_of_word? (word?_of_opens (by decide) (by decide) (by decide) (by decide) (by decide)
    (by decide) h hform hfits) rfl

/-- A source that joins nothing has one shape only, but for the word for the captured text. -/
theorem eq_of_fits (hform : form ≠ .concat) (hother : other ≠ .concat) (hvalue : source ≠ "value")
    (h : form.fits source = true) (h' : other.fits source = true) : form = other := by
  have hcall {f : Function} (h : (Form.call f).fits source = true) : Opens f.name '(' source := by
    obtain ⟨arguments, hcall⟩ := Option.isSome_iff_exists.mp h
    exact .of_callArguments hcall
  have hlookup (h : lookup.fits source = true) : Opens "timex" '[' source := by
    obtain ⟨key, hkey⟩ := Option.isSome_iff_exists.mp h
    exact .of_wholeLookup hkey
  have hcaptured : captured.fits source = false := by simpa [fits] using hvalue
  cases form with
  | concat => exact absurd rfl hform
  | call f => exact (eq_call_of_opens (hcall h) hother h').symm
  | lookup => exact (eq_lookup_of_opens (hlookup h) hother h').symm
  | captured => exact absurd h (by simp [hcaptured])
  | constant =>
    cases other with
    | concat => exact absurd rfl hother
    | call f => exact eq_call_of_opens (hcall h') hform h
    | lookup => exact eq_lookup_of_opens (hlookup h') hform h
    | captured => exact absurd h' (by simp [hcaptured])
    | constant => rfl

/-- The word for the captured text is a literal, too, and nothing else. -/
theorem fits_value (form : Form) :
    form.fits "value" = (form == .captured || form == .constant) := by
  cases form with
  | call f => cases f <;> decide +kernel
  | _ => decide +kernel

end Form

/-! ## Brackets -/

section Brackets

/-- A class of characters that a source shows at its top level, outside quotes and brackets, only
    between what it joins. -/
structure IsForeign (p : Char → Bool) : Prop where
  bare : ∀ c, isBareChar c = true → p c = false
  blank : ∀ c, isBlank c = true → p c = false
  round : p '(' = false
  square : p '[' = false

/-- A separator that is neither a character of literals nor a blank. -/
theorem isForeign_beq {c : Char} (hbare : isBareChar c = false) (hblank : isBlank c = false)
    (hround : c ≠ '(') (hsquare : c ≠ '[') : IsForeign (· == c) where
  bare _ hd := beq_eq_false_of_class hbare hd
  blank _ hd := beq_eq_false_of_class hblank hd
  round := beq_false_of_ne (Ne.symm hround)
  square := beq_false_of_ne (Ne.symm hsquare)

variable {p : Char → Bool} (hp : IsForeign p) {source : Text}

include hp

theorem IsForeign.gap : ∀ c, isGap c = true → p c = false :=
  fun c hc => hp.blank c (eq_of_isGap (by decide) hc)

theorem IsForeign.of_all {t : Text} (h : t.all isBareChar = true) : ∀ c ∈ t, p c = false :=
  fun c hc => hp.bare c (List.all_eq_true.mp h c hc)

/-- A call with balanced arguments. -/
theorem piece_of_callArguments {f : Function} {arguments : Text}
    (h : callArguments f.name source = some arguments) (hbalanced : Balanced arguments) :
    Piece p source := by
  obtain ⟨a, b, rest, rfl, ha, hb, hrest, -⟩ := eq_append_of_callArguments h
  have hpiece : Piece p rest := Piece.of_isPlain
    (fun c hc => isPlain_of_class (by decide) (List.all_eq_true.mp hrest c hc))
    fun c hc => hp.blank c (List.all_eq_true.mp hrest c hc)
  exact piece_bracketed hp.gap ha (isAlpha_of_mem_name f) (hp.of_all (by cases f <;> decide)) hb
    (fun _ => rfl) hp.round (fun _ => rfl) hbalanced hpiece

/-- A lookup, the word for the captured text and a literal show neither plus signs nor separators. -/
theorem piece_of_fits {form : Form} (hconcat : form ≠ .concat) (hcall : ∀ f, form ≠ .call f)
    (h : form.fits source = true) : Piece p source := by
  cases form with
  | concat => exact absurd rfl hconcat
  | call f => exact absurd rfl (hcall f)
  | lookup =>
    obtain ⟨key, hkey⟩ := Option.isSome_iff_exists.mp h
    obtain ⟨a, b, inner, rest, rfl, ha, hb, hinner, hrest⟩ := eq_append_of_wholeLookup hkey
    exact piece_bracketed hp.gap ha (by decide) (hp.of_all (by decide)) hb (fun _ => rfl) hp.square
      (fun _ => rfl) hinner (piece_of_skipGap_nil hp.gap hrest)
  | captured =>
    obtain rfl : source = "value".toList := by simpa [Form.fits] using h
    exact Piece.of_isPlain (by decide) (hp.of_all (by decide))
  | constant =>
    obtain ⟨value, hvalue⟩ := Option.isSome_iff_exists.mp h
    exact piece_of_wholeLiteral hp.bare hp.gap hvalue

end Brackets

theorem isForeign_plus : IsForeign (· == '+') :=
  isForeign_beq (by decide) (by decide) (by decide) (by decide)

/-- A compiler that gives nothing but what the shapes read. -/
def ReadsForms (ruleId : Text) (compile : Text → Except Error Expr) : Prop :=
  ∀ t e, compile t = .ok e → ∃ form : Form, form.read compile ruleId t.trim = .ok (some e)

theorem readsForms_compileInOrder (order : List Form) (ruleId : Text) :
    ReadsForms ruleId (compileInOrder order ruleId) := by
  intro t e h
  obtain ⟨-, form, -, hread⟩ := exists_form_of_compileInOrder h
  exact ⟨form, hread⟩

section Balance

variable {compile : Text → Except Error Expr} {ruleId source : Text} {form other : Form} {e : Expr}

/-- Where the parts close what they open, a source does as well, and it shows no plus signs and no
    separators if it joins nothing. -/
theorem piece_of_read {p : Char → Bool} (hp : IsForeign p)
    (hshort : ∀ t : Text, t.length < source.length → ∀ a, compile t = .ok a → Balanced t)
    (hform : form ≠ .concat) (h : form.read compile ruleId source = .ok (some e)) :
    Piece p source := by
  by_cases hcall : ∃ f, form = .call f
  · obtain ⟨f, rfl⟩ := hcall
    obtain ⟨arguments, hcall, hparts⟩ := exists_of_readFunction h
    refine piece_of_callArguments hp hcall ?_
    -- An argument is compiled, and shorter than the source, or it is the name of a table.
    have hbalanced : ∀ q ∈ splitTopLevel (· == ',') arguments, Balanced q := by
      intro q hq
      rcases hparts q hq with ⟨a, ha⟩ | ⟨value, hvalue⟩
      · have hle := Scan.length_add_le_of_mem_parts hq
        have hpos := List.length_pos_of_mem hq
        have hlt := length_lt_of_callArguments hcall
        unfold splitTopLevel at hpos
        exact hshort q (by omega) a ha
      · exact (piece_of_wholeLiteral (p := fun _ => false) (fun _ _ => rfl) (fun _ _ => rfl)
          hvalue).toBalanced
    rw [← Scan.join_parts ',' .outside arguments]
    exact join_of_append Balanced.nil Balanced.append (Balanced.of_isPlain (by decide)) hbalanced
  · exact piece_of_fits hp hform (fun f hf => hcall ⟨f, hf⟩) (Form.fits_of_read h)

/-- What is compiled closes what it opens, and shows nothing but plus signs between its parts, by
    induction on the length. -/
theorem ReadsForms.piece (hc : ReadsForms ruleId compile) {p : Char → Bool} (hp : IsForeign p)
    (hplus : p '+' = false) (h : compile source = .ok e) : Piece p source := by
  generalize hn : source.length = n
  induction n using Nat.strongRecOn generalizing source e with
  | ind n ih =>
    subst hn
    have hlen := Text.length_trim_le source
    have hshort (t : Text) (ht : t.length < source.trim.length) (a : Expr) (ha : compile t = .ok a) :
        Piece p t := ih t.length (by omega) ha rfl
    obtain ⟨form, hread⟩ := hc source e h
    have htrim : Piece p source.trim := by
      by_cases hform : form = .concat
      · subst hform
        obtain ⟨htwo, -, first, others, hes, -⟩ := readConcat_eq_ok.mp hread
        have hsign : Piece p ['+'] := Piece.of_isPlain (by decide) (by simpa using hplus)
        rw [← Scan.join_parts '+' .outside source.trim]
        refine join_of_append (Piece.of_isPlain (by simp) (by simp)) Piece.append hsign ?_
        intro q hq
        obtain ⟨a, ha⟩ := Except.exists_result_of_mapM_eq_ok hes q hq
        have hle := Scan.length_add_le_of_mem_parts hq
        unfold splitTopLevel at htwo
        exact hshort q (by omega) a ha
      · exact piece_of_read hp (fun t ht a ha => (hshort t ht a ha).toBalanced) hform hread
    have hblank {t : Text} (ht : t.isBlank = true) : Piece p t :=
      ⟨balanced_of_isBlank ht,
        Scan.avoids_of_all (fun c hc => hp.blank c (List.all_eq_true.mp ht c hc)) _⟩
    obtain ⟨a, b, hs, ha, hb⟩ := Text.exists_trim source
    rw [hs]
    exact ((hblank ha).append htrim).append (hblank hb)

/-- What is compiled closes what it opens. -/
theorem ReadsForms.balanced (hc : ReadsForms ruleId compile) (h : compile source = .ok e) :
    Balanced source :=
  (hc.piece (p := fun _ => false) ⟨fun _ _ => rfl, fun _ _ => rfl, rfl, rfl⟩ rfl h).toBalanced

/-! ## Plus signs behind a call -/

/-- What can be read behind the closing parenthesis of a call decides whether it is one. -/
theorem callArguments_append {f : Function} {arguments : Text}
    (h : callArguments f.name source = some arguments) (t : Text) :
    callArguments f.name (source ++ t) = if t.isBlank then some arguments else none := by
  obtain ⟨a, b, rest, rfl, ha, hb, hrest, havoids, hsees⟩ := eq_append_of_callArguments h
  have hshape : a ++ f.name ++ b ++ '(' :: (arguments ++ ')' :: rest) ++ t =
      a ++ f.name ++ b ++ '(' :: (arguments ++ ')' :: (rest ++ t)) := by simp
  rw [hshape, callArguments_append_cons (by cases f <;> decide) ha hb havoids hsees,
    Text.isBlank_append, hrest, Bool.true_and]

/-- A name and a bracket in front of blanks and another mark are in front of the blanks. -/
theorem Opens.of_append {w t y u : Text} {o c : Char} (h : Opens w o (t ++ (y ++ c :: u)))
    (hy : y.isBlank = true) (ho : isBlank o = false) (hw : c ∉ w) (hgap : isGap c = false)
    (hne : c ≠ o) : Opens w o t := by
  obtain ⟨a, b, r, hs, ha, hb⟩ := h
  have hgaps {v : Text} (hv : ∀ d ∈ v, isGap d = true) : c ∉ v := fun hc => by simp [hv c hc] at hgap
  have hc : c ∉ a ++ w ++ b ++ [o] := by simp [hgaps ha, hw, hgaps hb, hne]
  have hs : t ++ (y ++ c :: u) = (a ++ w ++ b ++ [o]) ++ r := by simpa using hs
  rcases List.append_eq_append_iff.mp hs with ⟨m, hm, hrest⟩ | ⟨m, ht, -⟩
  · rcases List.eq_nil_or_concat m with rfl | ⟨m', d, rfl⟩
    · exact ⟨a, b, [], by simpa using hm.symm, ha, hb⟩
    · -- The bracket would be a blank, or the mark would stand before it.
      rw [List.concat_eq_append] at hm hrest
      obtain rfl : o = d := by simpa using congrArg List.getLast? hm
      have hcm : c ∉ m' ++ [o] := fun h => hc (by rw [hm]; exact List.mem_append_right t h)
      rcases List.append_eq_append_iff.mp hrest with ⟨k, hk, hu⟩ | ⟨k, hk, -⟩
      · cases k with
        | nil =>
          have hmem : o ∈ y := by
            rw [List.append_nil] at hk
            simp [← hk]
          simp [List.all_eq_true.mp hy o hmem] at ho
        | cons c' k =>
          obtain ⟨rfl, -⟩ := List.cons.inj hu
          exact absurd (by rw [hk]; simp) hcm
      · have hmem : o ∈ y := by simp [hk]
        simp [List.all_eq_true.mp hy o hmem] at ho
  · exact ⟨a, b, m, by simpa using ht, ha, hb⟩

/-- What joins is no call: its first part would be one, and end before the plus sign. -/
theorem callArguments_eq_none_of_readConcat (hc : ReadsForms ruleId compile)
    (htrim : source.Trimmed) (h : readConcat compile ruleId source = .ok (some e)) (f : Function) :
    callArguments f.name source = none := by
  by_contra hsome
  obtain ⟨arguments, hcall⟩ := Option.ne_none_iff_exists'.mp hsome
  obtain ⟨htwo, -, first, others, hes, -⟩ := readConcat_eq_ok.mp h
  rcases Scan.parts_cases (· == '+') .outside source with
    havoids | ⟨q, c, u, rfl, havoids, hsees, hplus⟩
  · rw [splitTopLevel, Scan.parts_eq_singleton havoids] at htwo
    simp at htwo
  -- The part before the first plus sign is compiled by itself, without its blanks.
  obtain rfl : c = '+' := by simpa using hplus
  have hq : q ∈ splitTopLevel (· == '+') (q ++ '+' :: u) := by
    rw [splitTopLevel, Scan.parts_append_cons havoids hsees hplus]
    exact List.mem_cons_self
  obtain ⟨a, ha⟩ := Except.exists_result_of_mapM_eq_ok hes q hq
  obtain ⟨form, hread⟩ := hc q a ha
  obtain ⟨x, y, hq, hx, hy⟩ := Text.exists_trim q
  obtain rfl : x = [] := by
    cases x with
    | nil => rfl
    | cons d x =>
      have hd := htrim.head d (by rw [hq]; rfl)
      simp [List.all_eq_true.mp hx d List.mem_cons_self] at hd
  have hsource : q ++ '+' :: u = q.trim ++ (y ++ '+' :: u) := by
    conv => lhs; rw [hq]
    simp
  rw [hsource] at hcall
  -- It opens the call that the source opens, and has no plus sign, so it is that call.
  have hopens : Opens f.name '(' q.trim := (Opens.of_callArguments hcall).of_append hy (by decide)
    (by cases f <;> decide) (by decide) (by decide)
  have hform : form ≠ .concat := by
    rintro rfl
    obtain ⟨htwo, -⟩ := readConcat_eq_ok.mp hread
    rw [splitTopLevel, Scan.parts_eq_singleton (avoids_trim havoids)] at htwo
    simp at htwo
  obtain rfl := Form.eq_call_of_opens hopens hform (Form.fits_of_read hread)
  obtain ⟨arguments', hcall', -⟩ := exists_of_readFunction hread
  have hblank : Text.isBlank (y ++ '+' :: u) = false := by
    rw [Text.isBlank_append]
    have hcons : Text.isBlank ('+' :: u) = false := rfl
    rw [hcons, Bool.and_false]
  rw [callArguments_append hcall', hblank] at hcall
  cases hcall

/-! ## One shape -/

/-- No other shape recognises what one shape reads. -/
theorem not_fits_of_read (hc : ReadsForms ruleId compile) (htrim : source.Trimmed)
    (hvalue : source ≠ "value") (h : form.read compile ruleId source = .ok (some e))
    (hne : other ≠ form) : other.fits source = false := by
  have hpiece (hform : Piece (· == '+') source) : Form.concat.fits source = false := by
    rw [Form.fits, hform.parts_eq]
    rfl
  by_contra hfits
  rw [Bool.not_eq_false] at hfits
  by_cases hform : form = .concat
  · subst hform
    by_cases hcall : ∃ f, other = .call f
    · obtain ⟨f, rfl⟩ := hcall
      rw [Form.fits, callArguments_eq_none_of_readConcat hc htrim h f] at hfits
      cases hfits
    · have hother := hpiece (piece_of_fits isForeign_plus hne (fun f hf => hcall ⟨f, hf⟩) hfits)
      rw [Form.fits_of_read h] at hother
      cases hother
  · by_cases hother : other = .concat
    · subst hother
      rw [hpiece (piece_of_read isForeign_plus (fun t _ a => hc.balanced) hform h)] at hfits
      cases hfits
    · exact hne (Form.eq_of_fits hother hform hvalue hfits (Form.fits_of_read h))

end Balance

/-- An order of the shapes in which the word for the captured text comes before the literals. -/
structure IsOrder (order : List Form) : Prop where
  perm : order.Perm Form.all
  captured_first : [Form.captured, .constant].Sublist order

theorem isOrder_all : IsOrder Form.all := ⟨.refl _, by decide⟩

namespace IsOrder

variable {order order' : List Form} {ruleId source : Text} {e : Expr}

theorem nodup (h : IsOrder order) : order.Nodup := h.perm.nodup_iff.mpr Form.nodup_all

/-- A shape has a place, and stands in no other one. -/
theorem exists_append (h : IsOrder order) (form : Form) :
    ∃ a b, order = a ++ form :: b ∧ form ∉ a ++ b := by
  obtain ⟨a, b, hab⟩ := List.append_of_mem (h.perm.mem_iff.mpr form.mem_all)
  have hnodup := h.nodup
  rw [hab] at hnodup
  exact ⟨a, b, hab, (List.nodup_cons.mp (List.perm_middle.nodup_iff.mp hnodup)).1⟩

/-- The word for the captured text stands for it. -/
theorem compileInOrder_value (h : IsOrder order) (hvalue : source.trim = "value") :
    compileInOrder order ruleId source = .ok .captured := by
  obtain ⟨r, s, horder, hcaptured, hconstant⟩ := List.cons_sublist_iff.mp h.captured_first
  obtain ⟨a, b, rfl⟩ := List.append_of_mem hcaptured
  rw [List.append_assoc, List.cons_append] at horder
  have hnodup := h.nodup
  rw [horder] at hnodup
  refine compileInOrder_eq_ok horder (by rw [hvalue]; rfl) (fun other hother => ?_) ?_
  · -- Neither of the two shapes that recognise the word stands before the first of them.
    refine Form.read_of_not_fits ?_
    have hne : other ≠ .captured := by
      rintro rfl
      exact (List.nodup_cons.mp (List.perm_middle.nodup_iff.mp hnodup)).1
        (List.mem_append_left _ hother)
    have hne' : other ≠ .constant := by
      rintro rfl
      refine (List.nodup_append.mp hnodup).2.2 _ hother .constant ?_ rfl
      exact List.mem_cons_of_mem _ (List.mem_append_right b (List.singleton_sublist.mp hconstant))
    rw [hvalue, Form.fits_value]
    simp [hne, hne']
  · rw [hvalue]
    rfl

/-- Two orders compile alike, by induction on the length of the source. -/
theorem compileInOrder_eq_ok (h : IsOrder order) (h' : IsOrder order')
    (hread : compileInOrder order ruleId source = .ok e) :
    compileInOrder order' ruleId source = .ok e := by
  generalize hn : source.length = n
  induction n using Nat.strongRecOn generalizing source e with
  | ind n ih =>
    subst hn
    have hlen := Text.length_trim_le source
    by_cases hvalue : source.trim = "value"
    · rw [h.compileInOrder_value hvalue] at hread
      obtain rfl := Except.ok.inj hread
      exact h'.compileInOrder_value hvalue
    · obtain ⟨hne, form, -, hform⟩ := exists_form_of_compileInOrder hread
      -- The other order compiles the parts alike, since they are shorter.
      have hform' := Form.read_mono (g := compileInOrder order' ruleId)
        (fun t ht a ha => ih t.length (by omega) ha rfl) hform
      obtain ⟨a, b, horder, hnot⟩ := h'.exists_append form
      refine Script.compileInOrder_eq_ok horder hne (fun other hother => ?_) hform'
      refine Form.read_of_not_fits (not_fits_of_read (readsForms_compileInOrder order' ruleId)
        (Text.trimmed_trim source) hvalue hform' ?_)
      rintro rfl
      exact hnot (List.mem_append_left b hother)

end IsOrder

/-- Of a source that is compiled, one shape of the table reads the expression, and the others do not
    recognise it and report no fault. Only the word for the captured text is read as a literal, too.
    So in every order of the shapes in which the word comes before the literals, the same expression
    is compiled. -/
theorem compileExpr_unambiguous {ruleId source : Text} {e : Expr}
    (h : compileExpr ruleId source = .ok e) :
    (source.trim ≠ "value" → ∃ before shape after,
      expressionShapes (compileExpr ruleId) ruleId = before ++ shape :: after ∧
      shape.read source.trim = .ok (some e) ∧
      ∀ other ∈ before ++ after, other.read source.trim = .ok none) ∧
    (source.trim = "value" → e = .captured ∧ ∃ before value constant,
      expressionShapes (compileExpr ruleId) ruleId = before ++ [value, constant] ∧
      value.name = ("value" : Text) ∧ value.read source.trim = .ok (some .captured) ∧
      constant.name = ("constant" : Text) ∧ constant.read source.trim = .ok (some (.constant "value")) ∧
      ∀ other ∈ before, other.read source.trim = .ok none) ∧
    ∀ order : List Form, order.Perm Form.all → [Form.captured, .constant].Sublist order →
      compileInOrder order ruleId source = .ok e := by
  have hall : compileInOrder Form.all ruleId source = .ok e := by rw [compileInOrder_all, h]
  refine ⟨fun hvalue => ?_, fun hvalue => ?_,
    fun order hperm hfirst => isOrder_all.compileInOrder_eq_ok ⟨hperm, hfirst⟩ hall⟩
  · obtain ⟨-, form, -, hform⟩ := exists_form_of_compileInOrder hall
    have hreads := readsForms_compileInOrder Form.all ruleId
    rw [compileInOrder_all] at hform hreads
    obtain ⟨a, b, horder, hnot⟩ := isOrder_all.exists_append form
    refine ⟨a.map (Form.shape (compileExpr ruleId) ruleId), form.shape (compileExpr ruleId) ruleId,
      b.map (Form.shape (compileExpr ruleId) ruleId), ?_, hform, fun shape hshape => ?_⟩
    · rw [← Form.map_shape_all, horder, List.map_append, List.map_cons]
    · rw [← List.map_append] at hshape
      obtain ⟨other, hother, rfl⟩ := List.mem_map.mp hshape
      refine Form.read_of_not_fits
        (not_fits_of_read hreads (Text.trimmed_trim source) hvalue hform ?_)
      rintro rfl
      exact hnot hother
  · have he : compileInOrder Form.all ruleId source = .ok .captured :=
      isOrder_all.compileInOrder_value hvalue
    rw [hall] at he
    refine ⟨Except.ok.inj he, (Form.all.take 7).map (Form.shape (compileExpr ruleId) ruleId),
      Form.captured.shape (compileExpr ruleId) ruleId,
      Form.constant.shape (compileExpr ruleId) ruleId, rfl, rfl, ?_, rfl, ?_, fun shape hshape => ?_⟩
    · rw [hvalue]
      rfl
    · rw [hvalue]
      rfl
    · obtain ⟨other, hother, rfl⟩ := List.mem_map.mp hshape
      refine Form.read_of_not_fits ?_
      have hfirst : ∀ other ∈ Form.all.take 7,
          (other == .captured || other == .constant) = false := by
        decide
      rw [hvalue, Form.fits_value, hfirst other hother]

/-- Plus signs and a bracket between quotes, the shapes in another order, and the word for the
    captured text. -/
theorem compileExpr_unambiguous_joining :
    (compileExpr "rule" " Sum(value, 1) + 'a + ('" =
        .ok (.concat (.sum .captured (.constant "1")) (.constant "a + (")) ∧
      (∃ before shape after,
        expressionShapes (compileExpr "rule") "rule" = before ++ shape :: after ∧
        shape.read "Sum(value, 1) + 'a + ('" =
          .ok (some (.concat (.sum .captured (.constant "1")) (.constant "a + ("))) ∧
        ∀ other ∈ before ++ after, other.read "Sum(value, 1) + 'a + ('" = .ok none) ∧
      compileInOrder [.captured, .constant, .lookup, .call .mult, .call .minus, .call .sum,
          .call .substring, .call .normalize, .concat] "rule" " Sum(value, 1) + 'a + ('" =
        .ok (.concat (.sum .captured (.constant "1")) (.constant "a + ("))) ∧
    compileExpr "rule" "value\n" = .ok .captured ∧
      ∃ before value constant,
        expressionShapes (compileExpr "rule") "rule" = before ++ [value, constant] ∧
        value.name = ("value" : Text) ∧ value.read "value" = .ok (some .captured) ∧
        constant.name = ("constant" : Text) ∧
        constant.read "value" = .ok (some (.constant "value")) ∧
        ∀ other ∈ before, other.read "value" = .ok none := by
  have hsum : compileExpr "rule" " Sum(value, 1) + 'a + ('" =
      .ok (.concat (.sum .captured (.constant "1")) (.constant "a + (")) := by decide +kernel
  have htrim : Text.trim " Sum(value, 1) + 'a + ('" = "Sum(value, 1) + 'a + ('" := by decide +kernel
  have hvalue : compileExpr "rule" "value\n" = .ok .captured := by decide +kernel
  have htrim' : Text.trim "value\n" = "value" := by decide +kernel
  obtain ⟨hone, -, horder⟩ := compileExpr_unambiguous hsum
  obtain ⟨-, hword, -⟩ := compileExpr_unambiguous hvalue
  rw [htrim] at hone
  rw [htrim'] at hword
  exact ⟨⟨hsum, hone (by decide), horder _ (by decide) (by decide)⟩, hvalue, (hword rfl).2⟩

end TimePhrase.Script
