import TimePhrase.Pattern.Escape

/-!
# Escapes before a closing

The pattern for whole texts has an expression in the middle, and a parenthesis and an anchor close
it. Each part of the reader, in turn, takes from the expression what it takes from it alone, and
leaves the closing behind. Only a comment at the end of an expression that is spaced out is longer:
it takes the closing with it.

* `Continues`  what is left of a text, and what is left of it before the closing
* `Prolongs`  whatever is read from a text is read before the closing, too
* `Continues.skip`, `peek_append`  what does not count
* `continues_takeSpacedWhile`, `prolongs_readBraced`  runs of characters
* `prolongs_readHex`, `prolongs_readProperty`, `prolongs_readEscape`  escapes
-/

namespace TimePhrase.Pattern

variable {flags : Flags} {fuel fuel' : Nat} {s s' r r' : Text} {c d : Char}

/-! ## What is left -/

/-- What stands after the expression in the pattern for whole texts. -/
def closing : Text := [')', '$']

/-- What is left of a text, and what is left of the text with the closing after it. -/
def Continues (r r' : Text) : Prop := r' = r ++ closing ∨ r = [] ∧ r' = []

theorem continues_append (r : Text) : Continues r (r ++ closing) := .inl rfl

theorem Continues.length_le (h : Continues r r') : r.length ≤ r'.length := by
  obtain rfl | ⟨rfl, rfl⟩ := h
  · simp
  · exact Nat.le_refl 0

theorem Continues.eq_of_cons (h : Continues (c :: r) r') : r' = c :: (r ++ closing) := by
  obtain h | ⟨h, -⟩ := h
  · exact h
  · exact nomatch h

theorem Continues.of_cons (h : Continues (c :: r) r') : ∃ t, r' = c :: t ∧ Continues r t :=
  ⟨r ++ closing, h.eq_of_cons, continues_append r⟩

/-- No character but the parenthesis can be the first one of the closing. -/
theorem Continues.of_cons_right (h : Continues r (c :: r')) (hc : c ≠ ')') :
    ∃ t, r = c :: t ∧ Continues t r' := by
  obtain heq | ⟨-, heq⟩ := h
  · cases r with
    | nil => exact absurd (List.cons.inj heq).1 hc
    | cons d t =>
      obtain ⟨rfl, rfl⟩ := List.cons.inj heq
      exact ⟨t, rfl, continues_append t⟩
  · exact nomatch heq

theorem Continues.ne_nil (h : Continues r r') (hne : r = [] → False) : r' = [] → False := by
  rintro rfl
  exact hne (List.eq_nil_of_length_eq_zero (Nat.le_zero.mp h.length_le))

theorem Continues.ne_cons (h : Continues r r') (hc : c ≠ ')') (hne : ∀ t, r = c :: t → False)
    (t' : Text) : r' = c :: t' → False := by
  rintro rfl
  obtain ⟨t, rfl, -⟩ := h.of_cons_right hc
  exact hne t rfl

/-- Nor can the parenthesis be the first one, if something comes before the closing. -/
theorem Continues.ne_cons_of_ne_nil (h : Continues r r') (hnil : r = [] → False)
    (hne : ∀ t, r = c :: t → False) (t' : Text) : r' = c :: t' → False := by
  rintro rfl
  obtain ⟨d, t, rfl⟩ := List.exists_cons_of_ne_nil hnil
  obtain ⟨rfl, -⟩ := List.cons.inj h.eq_of_cons
  exact hne t rfl

theorem Continues.ne_cons_cons (h : Continues r r') (hc : c ≠ ')') (hd : d ≠ ')')
    (hne : ∀ t, r = c :: d :: t → False) (t' : Text) : r' = c :: d :: t' → False := by
  rintro rfl
  obtain ⟨t, rfl, ht⟩ := h.of_cons_right hc
  obtain ⟨u, rfl, -⟩ := ht.of_cons_right hd
  exact hne u rfl

/-- Whatever is read from a text is read with the closing after it as well. -/
def Prolongs {α : Type} (x x' : Option (α × Text)) : Prop :=
  ∀ v r, x = some (v, r) → ∃ r', x' = some (v, r') ∧ Continues r r'

theorem prolongs_none {α : Type} (x : Option (α × Text)) : Prolongs none x := nofun

theorem Continues.prolongs {α : Type} (h : Continues r r') (v : α) :
    Prolongs (some (v, r)) (some (v, r')) := by
  rintro _ _ ⟨⟩
  exact ⟨r', rfl, h⟩

theorem Prolongs.map {α β : Type} {x x' : Option (α × Text)} (h : Prolongs x x') (f : α → β) :
    Prolongs (x.map fun (v, r) => (f v, r)) (x'.map fun (v, r) => (f v, r)) := by
  intro v r hx
  obtain ⟨⟨a, r⟩, rfl, heq⟩ := Option.map_eq_some_iff.mp hx
  obtain ⟨rfl, rfl⟩ := Prod.mk.inj heq
  obtain ⟨r', rfl, hr⟩ := h a r rfl
  exact ⟨r', rfl, hr⟩

theorem Continues.map_prolongs {α β : Type} (h : Continues r r') (x : Option α) (f : α → β) :
    Prolongs (x.map fun v => (f v, r)) (x.map fun v => (f v, r')) := by
  cases x with
  | none => exact prolongs_none _
  | some v => exact h.prolongs (f v)

/-! ## What does not count -/

theorem continues_dropSpace (inComment : Bool) (s : Text) :
    Continues (Flags.dropSpace inComment s) (Flags.dropSpace inComment (s ++ closing)) := by
  induction s generalizing inComment with
  | nil =>
    cases inComment with
    -- The closing has no line end in it, at which the comment could stop.
    | true => exact .inr ⟨rfl, by decide⟩
    | false => exact .inl (by decide)
  | cons c s ih =>
    rw [List.cons_append]
    unfold Flags.dropSpace
    split
    · exact ih _
    · split
      · exact ih _
      · split
        · exact ih _
        · exact .inl rfl

theorem Continues.skip (h : Continues s s') : Continues (flags.skip s) (flags.skip s') := by
  obtain rfl | ⟨rfl, rfl⟩ := h
  · unfold Flags.skip
    split
    · exact continues_dropSpace false s
    · exact continues_append s
  · unfold Flags.skip
    split
    · exact .inr ⟨rfl, rfl⟩
    · exact .inr ⟨rfl, rfl⟩

theorem dropSpace_length_le (inComment : Bool) (s : Text) :
    (Flags.dropSpace inComment s).length ≤ s.length := by
  induction s generalizing inComment with
  | nil => simp [Flags.dropSpace]
  | cons c s ih =>
    unfold Flags.dropSpace
    split
    · exact Nat.le_succ_of_le (ih _)
    · split
      · exact Nat.le_succ_of_le (ih _)
      · split
        · exact Nat.le_succ_of_le (ih _)
        · exact Nat.le_refl _

theorem length_skip_le (flags : Flags) (s : Text) : (flags.skip s).length ≤ s.length := by
  unfold Flags.skip
  split
  · exact dropSpace_length_le false s
  · exact Nat.le_refl _

theorem dropWhile_append_closing {p : Char → Bool} (hp : p ')' = false) (s : Text) :
    (s ++ closing).dropWhile p = s.dropWhile p ++ closing := by
  rw [List.dropWhile_append]
  split
  · rename_i hempty
    rw [List.isEmpty_iff.mp hempty]
    simp [closing, hp]
  · rfl

theorem Continues.dropWhile {p : Char → Bool} (h : Continues s s') (hp : p ')' = false) :
    Continues (s.dropWhile p) (s'.dropWhile p) := by
  obtain rfl | ⟨rfl, rfl⟩ := h
  · exact .inl (dropWhile_append_closing hp s)
  · exact .inr ⟨rfl, rfl⟩

theorem peek_append (flags : Flags) (s : Text) :
    flags.peek (s ++ closing) = (flags.peek s).or (some ')') := by
  have hblank : isBlank ')' = false := by decide
  unfold Flags.peek
  split
  · rw [dropWhile_append_closing hblank]
    cases s.dropWhile isBlank with
    | nil => rfl
    | cons c t =>
      by_cases hc : c = '#'
      · subst hc
        show ((t ++ closing).dropWhile isBlank).head? = (t.dropWhile isBlank).head?.or (some ')')
        rw [dropWhile_append_closing hblank, List.head?_append]
        rfl
      · rw [List.cons_append]
        split
        · rename_i heq
          exact absurd (List.cons.inj heq).1 hc
        · simp [hc]
  · simp [closing]

/-! ## Escapes -/

theorem continues_takeSpaced {n : Nat} (h : Continues s s')
    (hn : n ≤ (takeSpaced flags n s).1.length) :
    (takeSpaced flags n s').1 = (takeSpaced flags n s).1 ∧
      Continues (takeSpaced flags n s).2 (takeSpaced flags n s').2 := by
  induction n generalizing s s' with
  | zero => exact ⟨rfl, h⟩
  | succ n ih =>
    cases s with
    | nil => simp [takeSpaced] at hn
    | cons c s =>
      obtain ⟨t, rfl, ht⟩ := h.of_cons
      simp only [takeSpaced, List.length_cons, Nat.add_le_add_iff_right] at hn
      obtain ⟨htaken, hrest⟩ := ih ht.skip hn
      simp only [takeSpaced, htaken]
      exact ⟨trivial, hrest⟩

theorem takeSpacedWhile_nil (p : Char → Bool) : takeSpacedWhile flags p fuel [] = ([], []) := by
  cases fuel <;> rfl

theorem takeSpacedWhile_of_continues_nil {p : Char → Bool} (h : Continues [] s')
    (hparen : p ')' = false) (hfuel : s'.length ≤ fuel) :
    takeSpacedWhile flags p fuel s' = ([], s') := by
  obtain rfl | ⟨-, rfl⟩ := h
  · cases fuel with
    | zero => simp [closing] at hfuel
    | succ n => simp [closing, takeSpacedWhile, hparen]
  · exact takeSpacedWhile_nil p

/-- The closing is not taken if its parenthesis is not accepted, or if a character that is not has
    come before. -/
theorem continues_takeSpacedWhile {p : Char → Bool} (h : Continues s s')
    (hstop : p ')' = false ∨ (takeSpacedWhile flags p fuel s).2 ≠ [])
    (hfuel : s.length ≤ fuel) (hfuel' : s'.length ≤ fuel') :
    (takeSpacedWhile flags p fuel' s').1 = (takeSpacedWhile flags p fuel s).1 ∧
      Continues (takeSpacedWhile flags p fuel s).2 (takeSpacedWhile flags p fuel' s').2 := by
  induction fuel generalizing s s' fuel' with
  | zero =>
    obtain rfl : s = [] := List.eq_nil_of_length_eq_zero (Nat.le_zero.mp hfuel)
    have hparen : p ')' = false := by simpa [takeSpacedWhile] using hstop
    rw [takeSpacedWhile_of_continues_nil h hparen hfuel']
    exact ⟨rfl, h⟩
  | succ n ih =>
    cases s with
    | nil =>
      have hparen : p ')' = false := by simpa [takeSpacedWhile] using hstop
      rw [takeSpacedWhile_of_continues_nil h hparen hfuel']
      exact ⟨rfl, h⟩
    | cons c s =>
      obtain ⟨t, rfl, ht⟩ := h.of_cons
      obtain ⟨m, rfl⟩ := Nat.exists_eq_add_of_le' (Nat.le_trans (Nat.le_add_left 1 _) hfuel')
      simp only [takeSpacedWhile] at hstop ⊢
      by_cases hc : p c
      · simp only [hc, if_true] at hstop ⊢
        have hskip := length_skip_le flags s
        have hskip' := length_skip_le flags t
        simp only [List.length_cons] at hfuel hfuel'
        obtain ⟨htaken, hrest⟩ := ih ht.skip hstop (by omega) (by omega : _ ≤ m)
        rw [htaken]
        exact ⟨rfl, hrest⟩
      · simp only [hc]
        exact ⟨rfl, h⟩

theorem exists_of_takeSpacedWhile {p : Char → Bool} {v : Text} (h : Continues s s')
    (htake : takeSpacedWhile flags p fuel s = (v, c :: r))
    (hfuel : s.length ≤ fuel) (hfuel' : s'.length ≤ fuel') :
    ∃ r', takeSpacedWhile flags p fuel' s' = (v, c :: r') ∧ Continues r r' := by
  have hstop : (takeSpacedWhile flags p fuel s).2 ≠ [] := by
    rw [htake]
    exact List.cons_ne_nil c r
  obtain ⟨htaken, hrest⟩ := continues_takeSpacedWhile h (.inr hstop) hfuel hfuel'
  rw [htake] at htaken hrest
  obtain ⟨r', hr', hr⟩ := hrest.of_cons
  exact ⟨r', Prod.ext htaken hr', hr⟩

/-- What stands in braces ends before the closing. -/
theorem prolongs_readBraced (h : Continues s s') :
    Prolongs (readBraced flags s) (readBraced flags s') := by
  have hlen := length_skip_le flags s
  have hlen' := length_skip_le flags s'
  unfold readBraced
  split
  · rename_i inside rest htake
    obtain ⟨rest', htake', hrest⟩ := exists_of_takeSpacedWhile h.skip htake hlen hlen'
    simp only [htake']
    exact hrest.prolongs inside
  · exact prolongs_none _

theorem prolongs_readHex {width : Nat} (h : Continues s s') :
    Prolongs (readHex flags width s) (readHex flags width s') := by
  have hskip : Continues (flags.skip s) (flags.skip s') := h.skip
  unfold readHex
  generalize flags.skip s = t at hskip
  generalize flags.skip s' = t' at hskip
  split
  · obtain ⟨r', rfl, hr⟩ := hskip.of_cons
    split
    · rename_i digits rest hdigits
      obtain ⟨rest', hdigits', hrest⟩ := prolongs_readBraced hr _ _ hdigits
      simp only [hdigits']
      split
      · exact prolongs_none _
      · exact hrest.skip.map_prolongs (hexChar? digits) Escape.literal
    · exact prolongs_none _
  · rename_i hbrace
    simp only
    split
    · exact prolongs_none _
    · rename_i hwidth
      obtain ⟨htaken, hrest⟩ := continues_takeSpaced hskip (Nat.not_lt.mp hwidth)
      split
      · obtain ⟨r, rfl, -⟩ := hskip.of_cons_right (by decide)
        exact (hbrace r rfl).elim
      · rw [htaken, if_neg hwidth]
        exact hrest.map_prolongs _ Escape.literal

theorem prolongs_readBoundary (h : Continues s s') :
    Prolongs (readBoundary flags s) (readBoundary flags s') := by
  unfold readBoundary
  simp only
  split
  · rename_i r
    obtain ⟨r', rfl, hr⟩ := h.of_cons
    have hskip : Continues (flags.skip r) (flags.skip r') := hr.skip
    have hlen := length_skip_le flags r
    have hlen' := length_skip_le flags r'
    simp only
    generalize flags.skip r = t at hskip hlen
    generalize flags.skip r' = t' at hskip hlen'
    cases t with
    | nil => exact prolongs_none _
    | cons c t =>
      obtain ⟨u, rfl, hu⟩ := hskip.of_cons
      simp only
      split
      · split
        · rename_i name rest htake
          obtain ⟨rest', htake', hrest⟩ :=
            exists_of_takeSpacedWhile hskip htake (Nat.le_succ_of_le hlen)
              (Nat.le_succ_of_le hlen')
          simp only [Nat.succ_eq_add_one] at htake'
          simp only [List.length_cons, htake']
          repeat' split
          all_goals first
            | exact hrest.prolongs _
            | exact prolongs_none _
        · exact prolongs_none _
      · exact h.prolongs _
  · rename_i hbrace
    split
    · obtain ⟨r, rfl, -⟩ := h.of_cons_right (by decide)
      exact (hbrace r rfl).elim
    · exact h.prolongs _

theorem prolongs_readClass (h : Continues s s') (negative : Bool) (set : CharSet) :
    Prolongs (readClass flags negative set s) (readClass flags negative set s') :=
  h.map_prolongs _ Escape.set

variable [PropertyTable]

/-- The name of a property is a letter or stands in braces. -/
theorem prolongs_readProperty {negative : Bool} (h : Continues s s') :
    Prolongs (readProperty flags negative s) (readProperty flags negative s') := by
  have hskip : Continues (flags.skip s) (flags.skip s') := h.skip
  unfold readProperty
  generalize flags.skip s = t at hskip
  generalize flags.skip s' = t' at hskip
  split
  · exact prolongs_none _
  -- The name stands in braces,
  · obtain ⟨r', rfl, hr⟩ := hskip.of_cons
    split
    · rename_i name rest hname
      obtain ⟨rest', hname', hrest⟩ := prolongs_readBraced hr _ _ hname
      simp only [hname']
      exact hrest.map_prolongs _ Escape.set
    · exact prolongs_none _
  -- or it is the letter itself, which is no part of the closing.
  · rename_i c r hbrace
    obtain ⟨r', rfl, hr⟩ := hskip.of_cons
    simp only
    split
    · exact prolongs_none _
    · exact hr.map_prolongs _ Escape.set

theorem prolongs_readEscape (h : Continues s s') :
    Prolongs (readEscape flags s) (readEscape flags s') := by
  unfold readEscape
  cases s with
  | nil => exact prolongs_none _
  | cons c s =>
    obtain ⟨t, rfl, ht⟩ := h.of_cons
    simp only
    split
    · exact ht.prolongs _
    · split
      all_goals first
        | exact ht.prolongs _
        | exact prolongs_readClass ht _ _
        | exact prolongs_readProperty ht
        | exact prolongs_readHex ht
        | exact prolongs_readBoundary ht
        | exact prolongs_none _

end TimePhrase.Pattern
