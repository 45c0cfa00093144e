import TimePhrase.Proofs.Pattern.Written
import TimePhrase.Proofs.Rule.Repeat
import TimePhrase.Rule.Phrase

/-!
# What is written for a phrase

The pattern text of a phrase is composed of the texts of its parts, and it means what the parts
mean together: words stand for themselves, whatever signs they hold, and a part keeps its meaning
between separators, in an alternative, under a repetition sign and in a group.

* `Says`  the language that is written for a phrase
* `says_words`, `says_sequence`, `says_choice`, `says_group`  one lemma for each kind of phrase
-/

namespace TimePhrase

/-- The powers of a language that a range allows, or the language itself without one. -/
def Repeat.powersOf (range : Option Repeat) (l : Language Char) : Language Char :=
  match range with
  | none => l
  | some range => Pattern.powers (fun n => range.allows n = true) l

namespace Phrase

open Pattern

/-- What is written for a phrase means a language. -/
def Says [PropertyTable] (p : Phrase) (l : Language Char) : Prop := Reads p.expression l

theorem expressions_eq_map (ps : List Phrase) : expressions ps = ps.map expression := by
  induction ps with
  | nil => rfl
  | cons p r ih => exact congrArg (p.expression :: ·) ih

theorem reads_escaped [PropertyTable] (w : Text) : Reads (escaped w) {w} := by
  induction w with
  | nil => exact reads_nil
  | cons c w ih =>
    have hcons : ({c :: w} : Language Char) = {[c]} * {w} := by
      ext x
      rw [Language.mem_mul]
      constructor
      · rintro rfl
        exact ⟨[c], rfl, w, rfl, rfl⟩
      · rintro ⟨_, rfl, _, rfl, rfl⟩
        rfl
    rw [escaped, List.flatMap_cons, hcons]
    exact reads_append (readsAtom_escape c).reads ih

theorem reads_gap [PropertyTable] : Reads "\\s*" gap := by
  rw [← powers_blanks_any]
  exact readsAtom_blank.repeated isSign_star

theorem reads_blankRun [PropertyTable] : Reads "\\s+" blankRun := by
  rw [← powers_blanks_some]
  exact readsAtom_blank.repeated isSign_plus

/-- Words mean themselves, with blanks between them. -/
theorem says_words [PropertyTable] (ws : List Text) :
    (words ws).Says (joined blankRun (ws.map fun w => {w})) := by
  have hwords : List.Forall₂ Reads (ws.map escaped) (ws.map fun w => {w}) := by
    rw [List.forall₂_map_left_iff, List.forall₂_map_right_iff, List.forall₂_same]
    exact fun w _ => reads_escaped w
  exact (readsAtom_parens (readsBody_of_reads (reads_join reads_blankRun hwords))).reads

variable {p : Phrase} {ps : List Phrase} {l : Language Char} {ls : List (Language Char)}

theorem forall₂_reads [PropertyTable] (h : List.Forall₂ Says ps ls) :
    List.Forall₂ Reads (expressions ps) ls := by
  rw [expressions_eq_map, List.forall₂_map_left_iff]
  exact h

theorem says_sequence [PropertyTable] (h : List.Forall₂ Says ps ls) :
    (sequence ps).Says (joined gap ls) :=
  reads_join reads_gap (forall₂_reads h)

theorem says_choice [PropertyTable] (h : List.Forall₂ Says ps ls) (hne : ps ≠ []) :
    (choice ps).Says ls.sum := by
  have hne : expressions ps ≠ [] := by
    rw [expressions_eq_map]
    simpa using hne
  exact (readsAtom_parens (readsBody_join (forall₂_reads h) hne)).reads

theorem isNameChar_of_isDigit {c : Char} (h : c.isDigit = true) : isNameChar false c = true := by
  obtain ⟨hlo, hhi⟩ := toNat_of_isDigit h
  -- The digits are the first range of the table.
  have hnumber : isNumber c = true := CharTable.covers_of_head hlo hhi _
  simp [isNameChar, isAlphanumeric, hnumber]

theorem readName_name (part : Nat) (rest : Text) :
    readName (Part.name part ++ '>' :: rest) = some (Part.name part, rest) := by
  have hletters : ∀ d ∈ "art".toList, isNameChar false d = true := by decide +kernel
  have hname : ∀ d ∈ "art".toList ++ Text.ofNat part, isNameChar false d = true := by
    refine List.forall_mem_append.mpr ⟨hletters, fun d hd => ?_⟩
    exact isNameChar_of_isDigit (Text.isDigit_of_mem_ofNat d hd)
  exact readName_append (by decide +kernel) hname

theorem expression_group_none (part : Nat) {m : Mark} (p : Phrase) (h : m.range = none) :
    (group part m p).expression = "(?P<" ++ Part.name part ++ ">" ++ p.expression ++ ")" := by
  cases m
  cases h
  rfl

theorem expression_group_some (part : Nat) {m : Mark} (p : Phrase) {range : Repeat}
    (h : m.range = some range) : (group part m p).expression =
      "(?P<" ++ Part.name part ++ ">" ++ (inParens p.expression ++ range.sign) ++ ")" := by
  cases m
  cases h
  rfl

/-- A group means the powers of its body, if it is repeated. -/
theorem says_group [PropertyTable] (part : Nat) (m : Mark) (h : p.Says l) :
    (group part m p).Says (Repeat.powersOf m.range l) := by
  cases hm : m.range with
  | none =>
    rw [Says, expression_group_none part p hm]
    exact (readsAtom_named (readName_name part) (readsBody_of_reads h)).reads
  | some range =>
    rw [Says, expression_group_some part p hm]
    have hpowers := (readsAtom_parens (readsBody_of_reads h)).repeated range.isSign_sign
    rw [range.admits_eq_allows] at hpowers
    exact (readsAtom_named (readName_name part) (readsBody_of_reads hpowers)).reads

end Phrase

end TimePhrase
