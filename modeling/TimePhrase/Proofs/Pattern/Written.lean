import TimePhrase.Proofs.Pattern.Complete
import TimePhrase.Proofs.Pattern.Meaning
import TimePhrase.Proofs.Pattern.Parts

/-!
# What a written pattern means

Where cases are told apart, a part of a pattern that is read by itself is known by its language,
whatever stands before and after it. The languages of composed parts are composed of the languages
of their parts.

* `spans_anchored`  a pattern with an anchor at both ends
* `Reads`  a part of a body that means a language
* `reads_append`, `reads_join`  parts one after the other
* `readsBody_of_reads`, `readsBody_join`  whole bodies
* `spans_of_read?`, `isIn_iff_of_read?`  a whole text with anchors at both ends
-/

namespace TimePhrase.Pattern

open Text (byteSize)

variable {least : Nat} {most : Option Nat} {s e f : Text} {l m : Language Char}

/-! ## Anchors -/

theorem spans_textStart {text : Text} {i j : Nat} :
    Spans text (.assertion .textStart) i j ↔ i = 0 ∧ j = 0 := by
  constructor
  · rintro ⟨rfl, a, b, -, rfl, hholds⟩
    obtain rfl : a = [] := by simpa [Assertion.holds] using hholds
    exact ⟨rfl, rfl⟩
  · rintro ⟨rfl, rfl⟩
    exact ⟨rfl, [], text, rfl, rfl, rfl⟩

theorem spans_textEnd {text : Text} {i j : Nat} :
    Spans text (.assertion .textEnd) i j ↔ i = byteSize text ∧ j = byteSize text := by
  constructor
  · rintro ⟨rfl, a, b, rfl, rfl, hholds⟩
    obtain rfl : b = [] := by simpa [Assertion.holds] using hholds
    rw [List.append_nil]
    exact ⟨rfl, rfl⟩
  · rintro ⟨rfl, rfl⟩
    exact ⟨rfl, text, [], (List.append_nil text).symm, rfl, rfl⟩

theorem consMember_ne_nil (p : Pattern) (r : List Pattern) : consMember p r ≠ [] := by
  unfold consMember
  split <;> exact List.cons_ne_nil _ _

/-- Between two assertions nothing is left for a choice to simplify. -/
theorem choice_anchored (a b : Assertion) (p : Pattern) :
    choice [sequence [.assertion a, p, .assertion b]] =
      sequence [.assertion a, p, .assertion b] := by
  have hparts : sequence [.assertion a, p, .assertion b] =
      ((p.members ++ [Pattern.assertion b]).foldr consMember []).foldl .concat (.assertion a) := rfl
  have hne : (p.members ++ [Pattern.assertion b]).foldr consMember [] ≠ [] := by
    cases p.members with
    | nil => exact consMember_ne_nil (.assertion b) []
    | cons q r => exact consMember_ne_nil q _
  -- The first assertion is followed by something, so that they are a sequence.
  obtain hnil | ⟨r, q, hr⟩ :=
    List.eq_nil_or_concat' ((p.members ++ [Pattern.assertion b]).foldr consMember [])
  · exact absurd hnil hne
  · rw [hparts, hr, List.foldl_append]
    rfl

/-- With an anchor at both ends, a pattern spans nothing but whole texts. -/
theorem spans_anchored {p : Pattern} {text : Text} {i j : Nat} :
    Spans text (choice [sequence [.assertion .textStart, p, .assertion .textEnd]]) i j ↔
      i = 0 ∧ j = byteSize text ∧ Spans text p 0 (byteSize text) := by
  rw [choice_anchored, spans_sequence]
  simp only [SpansAll, exists_eq_right, spans_textStart, spans_textEnd]
  constructor
  · rintro ⟨_, ⟨rfl, rfl⟩, _, hspans, rfl, rfl⟩
    exact ⟨rfl, rfl, hspans⟩
  · rintro ⟨rfl, rfl, hspans⟩
    exact ⟨0, ⟨rfl, rfl⟩, byteSize text, hspans, rfl, rfl⟩

variable [PropertyTable]

/-! ## Parts -/

/-- A text is read as an atom that means a language; the signs after it have not been read yet. -/
def ReadsAtom (e : Text) (l : Language Char) : Prop := ReadsAtomAs false (fun p => Means p l) e

/-- A text is read as members of a body that mean a language one after the other. -/
def Reads (e : Text) (l : Language Char) : Prop := ReadsAs false (fun ps => MeansAll ps l) e

theorem ReadsAtom.reads (h : ReadsAtom e l) : Reads e l :=
  ReadsAtomAs.reads h fun _ hp => hp.singleton

theorem ReadsAtom.repeated (h : ReadsAtom e l) (hs : IsSign s least most) :
    Reads (e ++ s) (powers (admits least most) l) :=
  ReadsAtomAs.repeated h hs fun hbounds _ hp => (means_repeated hp hbounds true).singleton

theorem reads_nil : Reads [] 1 := ReadsAs.nil meansAll_nil

theorem reads_append (he : Reads e l) (hf : Reads f m) : Reads (e ++ f) (l * m) :=
  ReadsAs.append he hf fun _ _ => MeansAll.append

/-- Languages one after the other, with another one between neighbours. -/
def joined (sep : Language Char) : List (Language Char) → Language Char
  | [] => 1
  | [l] => l
  | l :: m :: r => l * sep * joined sep (m :: r)

/-- Parts with a separator between neighbours. -/
theorem reads_join (hs : Reads s m) {es : List Text} {ls : List (Language Char)}
    (h : List.Forall₂ Reads es ls) : Reads (Text.join s es) (joined m ls) := by
  induction h with
  | nil => exact reads_nil
  | cons he hes ih =>
    cases hes with
    | nil => exact he
    | cons _ _ => exact reads_append (reads_append he hs) ih

/-! ## Whole bodies -/

/-- A text is read as the whole body of a group. -/
def ReadsBody (e : Text) (l : Language Char) : Prop := ReadsBodyAs false (fun p => Means p l) e

theorem readsBody_join {es : List Text} {ls : List (Language Char)} (h : List.Forall₂ Reads es ls)
    (hne : es ≠ []) : ReadsBody (Text.join ['|'] es) ls.sum := by
  refine readsBodyAs_join h hne fun ps hps => means_choice (hps.imp ?_)
  rintro _ l ⟨qs, hqs, rfl⟩
  exact means_sequence hqs

/-- A single part is the only alternative. -/
theorem readsBody_of_reads (h : Reads e l) : ReadsBody e l := by
  have hbody := readsBody_join (.cons h .nil) (List.cons_ne_nil e [])
  rwa [List.sum_singleton] at hbody

/-! ## Atoms -/

/-- Every character stands for itself, with a backslash if it would have another meaning. -/
theorem readsAtom_escape (c : Char) : ReadsAtom (if isMeta c then ['\\', c] else [c]) {[c]} :=
  readsAtomAs_escape (means_literal [c])

theorem readsAtom_blank : ReadsAtom ['\\', 's'] (letters .blanks) :=
  readsAtomAs_blank ((means_char CharSet.isProper_blanks).ofSet CharSet.isProper_blanks)

/-- Parentheses that group and nothing else. -/
theorem readsAtom_parens (h : ReadsBody e l) : ReadsAtom ("(?:" ++ e ++ ")") l :=
  readsAtomAs_parens h

/-- Parentheses with a name. -/
theorem readsAtom_named {name : Text}
    (hname : ∀ rest, readName (name ++ '>' :: rest) = some (name, rest)) (h : ReadsBody e l) :
    ReadsAtom ("(?P<" ++ name ++ ">" ++ e ++ ")") l :=
  readsAtomAs_named hname h fun index _ hp => hp.group index (some name)

/-! ## Whole texts -/

/-- The texts that a pattern with an anchor at both ends spans are the words of its language. -/
theorem spans_of_read? {caseless : Bool} {p : Pattern} (he : ReadsBodyAs caseless (Means · l) e)
    (h : read? caseless ("^(?:" ++ e ++ ")$") = some p) {text : Text} {i j : Nat} :
    Spans text p i j ↔ i = 0 ∧ j = byteSize text ∧ text ∈ l := by
  obtain ⟨q, hq, rfl⟩ := exists_of_read?_anchored h he
  have hdescribes := hq.describes [] text
  simp only [List.nil_append, Text.byteSize_nil] at hdescribes
  rw [spans_anchored, hdescribes]
  constructor
  · rintro ⟨rfl, rfl, w, r, rfl, hw, hsize⟩
    -- The word ends where the text does.
    obtain ⟨-, rfl⟩ := Text.eq_of_byteSize_eq (List.append_nil (w ++ r)) hsize
    rw [List.append_nil]
    exact ⟨rfl, rfl, hw⟩
  · rintro ⟨rfl, rfl, hw⟩
    exact ⟨rfl, rfl, text, [], (List.append_nil text).symm, hw, rfl⟩

/-- With an anchor at both ends, a pattern is found in the words of its language and in no others. -/
theorem isIn_iff_of_read? {caseless : Bool} {p : Pattern} (he : ReadsBodyAs caseless (Means · l) e)
    (h : read? caseless ("^(?:" ++ e ++ ")$") = some p) (text : Text) :
    p.isIn text = true ↔ text ∈ l := by
  constructor
  · intro hin
    obtain ⟨i, j, hij⟩ := exists_spans_of_isIn hin
    exact ((spans_of_read? he h).mp hij).2.2
  · intro htext
    exact isIn_of_spans_zero ((spans_of_read? he h).mpr ⟨rfl, rfl, htext⟩)

end TimePhrase.Pattern
