import TimePhrase.Proofs.Document.Extension

/-!
# Pieces of character data

Character data that is cut in two is read as the two pieces one after the other, wherever it is cut
between two references. Only a line end must not be cut, nor may the second piece consist of a
single carriage return, which a reference before it would keep as it is.

* `units?_append`  the characters of two pieces
* `textOf_append`  the text that they stand for
* `text?_append`  the text between two tags
-/

namespace TimePhrase.Document

variable {s t z : Text} {us vs : List Unit}

/-! ## Characters -/

theorem suffix_of_readReferent {r : Text} {d : Char} (h : readReferent s = some (d, r)) :
    r <:+ s := by
  unfold readReferent at h
  split at h
  · exact (suffix_of_readNumbered h).trans ((List.suffix_cons _ _).trans (List.suffix_cons _ _))
  · exact (suffix_of_readNumbered h).trans (List.suffix_cons _ _)
  · split at h
    · exact nomatch h
    · rename_i name rest hname
      obtain ⟨e, -, heq⟩ := Option.map_eq_some_iff.mp h
      obtain ⟨-, rfl⟩ := Prod.mk.inj heq
      exact suffix_of_readName hname

theorem suffix_of_readReference {r : Text} {d : Char} (h : readReference s = some (d, r)) :
    ';' :: r <:+ s := by
  unfold readReference at h
  split at h
  · rename_i e rest hreferent
    obtain ⟨-, rfl⟩ := Prod.mk.inj (Option.some.inj h)
    exact suffix_of_readReferent hreferent
  · exact nomatch h

theorem length_lt_of_readReference {r : Text} {d : Char} (h : readReference s = some (d, r)) :
    r.length < s.length :=
  (suffix_of_readReference h).length_le

/-- There is enough fuel if there is some for every character. -/
theorem unitsWithin_eq {fuel : Nat} (h : s.length ≤ fuel) : unitsWithin fuel s = units? s := by
  have more (n : Nat) : ∀ {s : Text} {fuel fuel' : Nat}, s.length ≤ n → s.length ≤ fuel →
      s.length ≤ fuel' → unitsWithin fuel s = unitsWithin fuel' s := by
    induction n with
    | zero =>
      intro s fuel fuel' hn _ _
      obtain rfl := List.eq_nil_of_length_eq_zero (Nat.le_zero.mp hn)
      cases fuel <;> cases fuel' <;> rfl
    | succ n ih =>
      intro s fuel fuel' hn hf hf'
      cases s with
      | nil => cases fuel <;> cases fuel' <;> rfl
      | cons c s =>
        rw [List.length_cons] at hn hf hf'
        obtain ⟨k, rfl⟩ : ∃ k, fuel = k + 1 := ⟨fuel - 1, by omega⟩
        obtain ⟨k', rfl⟩ : ∃ k, fuel' = k + 1 := ⟨fuel' - 1, by omega⟩
        by_cases hc : c = '&'
        · subst hc
          simp only [unitsWithin]
          cases hreference : readReference s with
          | none => rfl
          | some found =>
            obtain ⟨d, r⟩ := found
            have hlt := length_lt_of_readReference hreference
            have hrest : unitsWithin k r = unitsWithin k' r :=
              ih (by omega) (by omega) (by omega)
            simp only [hrest]
        · have hrest : unitsWithin k s = unitsWithin k' s := ih (by omega) (by omega) (by omega)
          simp only [unitsWithin, hrest]
  exact more s.length (Nat.le_refl _) h (Nat.le_refl _)

theorem units?_reference {r r' : Text} {d : Char} (h : readReference r = some (d, r')) :
    units? ('&' :: r) = (units? r').map (.reference d :: ·) := by
  have hlt := length_lt_of_readReference h
  show unitsWithin (r.length + 1) ('&' :: r) = _
  simp only [unitsWithin, h]
  rw [unitsWithin_eq (Nat.le_of_lt hlt)]

theorem units?_literal {c : Char} (h : c ≠ '&') (r : Text) :
    units? (c :: r) = (units? r).map (.literal c :: ·) := by
  show unitsWithin (r.length + 1) (c :: r) = _
  simp only [unitsWithin]
  rfl

/-- A character is a literal one, or the beginning of a reference. -/
theorem units?_cons {c : Char} {r : Text} (h : units? (c :: r) = some us) :
    (∃ d r' us', c = '&' ∧ readReference r = some (d, r') ∧ units? r' = some us' ∧
      us = .reference d :: us') ∨
    ∃ us', c ≠ '&' ∧ units? r = some us' ∧ us = .literal c :: us' := by
  by_cases hc : c = '&'
  · subst hc
    cases hreference : readReference r with
    | none =>
      have hnone : units? ('&' :: r) = none := by
        show unitsWithin (r.length + 1) ('&' :: r) = none
        simp only [unitsWithin, hreference]
      rw [hnone] at h
      exact nomatch h
    | some found =>
      obtain ⟨d, r'⟩ := found
      rw [units?_reference hreference] at h
      obtain ⟨us', hus, rfl⟩ := Option.map_eq_some_iff.mp h
      exact .inl ⟨d, r', us', rfl, rfl, hus, rfl⟩
  · rw [units?_literal hc] at h
    obtain ⟨us', hus, rfl⟩ := Option.map_eq_some_iff.mp h
    exact .inr ⟨us', hc, hus, rfl⟩

theorem eq_nil_of_units? (h : units? s = some []) : s = [] := by
  cases s with
  | nil => rfl
  | cons c r => rcases units?_cons h with ⟨_, _, _, _, _, _, heq⟩ | ⟨_, _, _, heq⟩ <;> exact nomatch heq

/-- The characters of two pieces are those of the first one and then those of the second one. -/
theorem units?_append (h : units? s = some us) (z : Text) :
    units? (s ++ z) = (units? z).map (us ++ ·) := by
  generalize hn : s.length = n
  induction n using Nat.strong_induction_on generalizing s us with
  | _ n ih =>
    cases s with
    | nil =>
      obtain rfl := Option.some.inj h
      simp
    | cons c r =>
      rw [List.length_cons] at hn
      rcases units?_cons h with ⟨d, r', us', rfl, hreference, hus, rfl⟩ | ⟨us', hc, hus, rfl⟩
      · have hlt := length_lt_of_readReference hreference
        rw [List.cons_append, units?_reference (readReference_append hreference z),
          ih r'.length (by omega) hus rfl, Option.map_map]
        rfl
      · rw [List.cons_append, units?_literal hc, ih r.length (by omega) hus rfl, Option.map_map]
        rfl

theorem getLast?_of_suffix {r : Text} {c : Char} (h : r <:+ s) (hr : r.getLast? = some c) :
    s.getLast? = some c := by
  obtain ⟨p, rfl⟩ := h
  rw [List.getLast?_append, hr]
  rfl

/-- A literal character at the end is the last one that is written. -/
theorem getLast?_of_units? {c : Char} (h : units? s = some us)
    (hlast : us.getLast? = some (.literal c)) : s.getLast? = some c := by
  generalize hn : s.length = n
  induction n using Nat.strong_induction_on generalizing s us with
  | _ n ih =>
    cases s with
    | nil =>
      obtain rfl := Option.some.inj h
      exact nomatch hlast
    | cons d r =>
      rw [List.length_cons] at hn
      rcases units?_cons h with ⟨e, r', us', rfl, hreference, hus, rfl⟩ | ⟨us', hd, hus, rfl⟩
      · have hsuffix := (List.suffix_cons ';' r').trans (suffix_of_readReference hreference)
        have hlt := length_lt_of_readReference hreference
        cases us' with
        | nil => exact nomatch hlast
        | cons u us' =>
          rw [List.getLast?_cons_cons] at hlast
          have hr := ih r'.length (by omega) hus hlast rfl
          exact getLast?_of_suffix (hsuffix.trans (List.suffix_cons '&' r)) hr
      · cases us' with
        | nil =>
          obtain rfl := eq_nil_of_units? hus
          exact congrArg some (Unit.literal.inj (Option.some.inj hlast))
        | cons u us' =>
          rw [List.getLast?_cons_cons] at hlast
          exact getLast?_of_suffix (List.suffix_cons d r) (ih r.length (by omega) hus hlast rfl)

/-! ## Line ends -/

section Equations

variable (b : Bool) (c : Char) (r : List Unit)

theorem textOf_literal (hc : c ≠ '\r') : textOf b (.literal c :: r) = c :: textOf false r := by
  rw [textOf.eq_def]
  exact if_neg hc

theorem textOf_lineEnd :
    textOf b (.literal '\r' :: .literal '\n' :: r) = '\n' :: textOf false r := by
  rw [textOf.eq_def]
  exact if_pos rfl

theorem textOf_return_literal (hc : c ≠ '\n') :
    textOf b (.literal '\r' :: .literal c :: r) = '\n' :: textOf false (.literal c :: r) := by
  rw [textOf, if_pos rfl]
  exact hc

theorem textOf_return_reference :
    textOf b (.literal '\r' :: .reference c :: r) = '\r' :: textOf false (.reference c :: r) := by
  rw [textOf.eq_def]
  exact if_pos rfl

end Equations

/-- What comes before only matters to a single carriage return. -/
theorem textOf_eq (h : vs ≠ [.literal '\r']) (b : Bool) : textOf b vs = textOf false vs := by
  match vs with
  | [] => rfl
  | .reference c :: r => rfl
  | .literal c :: r =>
    by_cases hc : c = '\r'
    · subst hc
      match r with
      | [] => exact absurd rfl h
      | .reference d :: r => rw [textOf_return_reference, textOf_return_reference]
      | .literal d :: r =>
        by_cases hd : d = '\n'
        · rw [hd, textOf_lineEnd, textOf_lineEnd]
        · rw [textOf_return_literal b d r hd, textOf_return_literal false d r hd]
    · rw [textOf_literal b c r hc, textOf_literal false c r hc]

/-- The text of two pieces is that of the first one and then that of the second one, if no line end
    is cut. -/
theorem textOf_append (hus : us.getLast? ≠ some (.literal '\r')) (hvs : vs ≠ [.literal '\r'])
    (b : Bool) : textOf b (us ++ vs) = textOf b us ++ textOf false vs := by
  induction b, us using textOf.induct with
  | case1 b => exact textOf_eq hvs b
  | case2 b c r ih =>
    have hr : r.getLast? ≠ some (.literal '\r') := by
      cases r with
      | nil => exact nofun
      | cons u r => rwa [List.getLast?_cons_cons] at hus
    exact congrArg (c :: ·) (ih hr)
  | case3 => exact absurd rfl hus
  | case4 => exact absurd rfl hus
  | case5 b r ih =>
    have hr : r.getLast? ≠ some (.literal '\r') := by
      cases r with
      | nil => exact nofun
      | cons u r => rwa [List.getLast?_cons_cons, List.getLast?_cons_cons] at hus
    rw [List.cons_append, List.cons_append, textOf_lineEnd, textOf_lineEnd, ih hr]
    rfl
  | case6 b d r hd ih =>
    rw [List.getLast?_cons_cons] at hus
    rw [List.cons_append, List.cons_append, textOf_return_literal b d _ hd,
      textOf_return_literal b d _ hd, ← List.cons_append, ih hus]
    rfl
  | case7 b d r ih =>
    rw [List.getLast?_cons_cons] at hus
    rw [List.cons_append, List.cons_append, textOf_return_reference, textOf_return_reference,
      ← List.cons_append, ih hus]
    rfl
  | case8 b c r hc ih =>
    have hr : r.getLast? ≠ some (.literal '\r') := by
      cases r with
      | nil => exact nofun
      | cons u r => rwa [List.getLast?_cons_cons] at hus
    rw [List.cons_append, textOf_literal b c _ hc, textOf_literal b c _ hc, ih hr]
    rfl

/-! ## Text between tags -/

theorem text?_eq_some : text? s = some t ↔
    s.all isAllowed = true ∧ s.breakOn? "]]>" = none ∧ ∃ us, units? s = some us ∧
      textOf false us = t := by
  unfold text?
  constructor
  · intro h
    split at h
    · rename_i hwritten
      rw [Bool.and_eq_true, Option.isNone_iff_eq_none] at hwritten
      exact ⟨hwritten.1, hwritten.2, Option.map_eq_some_iff.mp h⟩
    · exact nomatch h
  · rintro ⟨hall, hbreak, us, hus, rfl⟩
    rw [hall, hbreak, hus]
    rfl

/-- Two pieces of text that are read together are read as they are by themselves. -/
theorem text?_append {x : Text} (hs : text? s = some t) (h : text? (s ++ z) = some x)
    (hend : s.getLast? ≠ some '\r') (hz : z ≠ ['\r']) : ∃ t', text? z = some t' ∧ x = t ++ t' := by
  obtain ⟨-, -, us, hus, rfl⟩ := text?_eq_some.mp hs
  obtain ⟨hall, hbreak, ws, hws, rfl⟩ := text?_eq_some.mp h
  rw [units?_append hus] at hws
  obtain ⟨vs, hvs, rfl⟩ := Option.map_eq_some_iff.mp hws
  rw [List.all_append, Bool.and_eq_true] at hall
  have hnone := Text.breakOn?_eq_none_of_append hbreak
  refine ⟨textOf false vs, text?_eq_some.mpr ⟨hall.2, hnone, vs, hvs, rfl⟩, ?_⟩
  refine textOf_append ?_ ?_ false
  · intro hlast
    exact hend (getLast?_of_units? hus hlast)
  · rintro rfl
    cases z with
    | nil => exact nomatch hvs
    | cons c r =>
      rcases units?_cons hvs with ⟨_, _, _, _, _, _, heq⟩ | ⟨us', _, hr, heq⟩
      · exact nomatch heq
      · obtain ⟨hc, rfl⟩ := List.cons.inj heq
        rw [← Unit.literal.inj hc, eq_nil_of_units? hr] at hz
        exact hz rfl

end TimePhrase.Document
