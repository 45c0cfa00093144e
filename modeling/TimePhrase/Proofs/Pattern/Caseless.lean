import TimePhrase.Proofs.Pattern.CaseFolding
import TimePhrase.Proofs.Pattern.Written

/-!
# Patterns that do not mind case

Where case is not told apart, a letter stands for all letters that fold to the same one, and a word
for the texts that fold to the same letters.

* `variantsOf`  the texts that differ from a word in case only
* `means_letter`  what a letter stands for
-/

namespace TimePhrase

namespace CharSet

/-- The set of the characters of a text. -/
theorem has_ofText (s : Text) : (ofText s).IsProper ∧ ∀ c, (ofText s).has c = true ↔ c ∈ s := by
  obtain ⟨hproper, hhas⟩ :=
    has_unions (List.forall_mem_map.mpr fun c (_ : c ∈ s) => isProper_single c)
  refine ⟨hproper, fun c => (hhas c).trans ?_⟩
  simp only [List.mem_map, exists_exists_and_eq_and, has_single, beq_iff_eq, exists_eq_right']

end CharSet

namespace Pattern

/-- The texts that differ from a word in case only. -/
def variantsOf (w : Text) : Language Char := {t | t.map foldCase = w.map foldCase}

theorem mem_variantsOf {t w : Text} : t ∈ variantsOf w ↔ t.map foldCase = w.map foldCase := Iff.rfl

theorem mem_variantsOf_singleton {t : Text} {c : Char} :
    t ∈ variantsOf [c] ↔ ∃ d ∈ caseVariants c, t = [d] := by
  rw [mem_variantsOf, List.map_singleton, List.map_eq_singleton_iff]
  constructor
  · rintro ⟨d, rfl, hd⟩
    exact ⟨d, mem_caseVariants.mpr hd, rfl⟩
  · rintro ⟨d, hd, rfl⟩
    exact ⟨d, rfl, mem_caseVariants.mp hd⟩

theorem variantsOf_nil : variantsOf [] = 1 := by
  ext t
  rw [mem_variantsOf, Language.mem_one, List.map_nil, List.map_eq_nil_iff]

/-- The variants of a word are made letter by letter. -/
theorem variantsOf_cons (c : Char) (w : Text) :
    variantsOf (c :: w) = variantsOf [c] * variantsOf w := by
  ext t
  rw [Language.mem_mul, mem_variantsOf, List.map_cons]
  constructor
  · intro h
    obtain ⟨d, r, rfl, hd, hr⟩ := List.map_eq_cons_iff.mp h
    exact ⟨[d], congrArg ([·]) hd, r, hr, rfl⟩
  · rintro ⟨x, hx, r, hr, rfl⟩
    rw [List.map_append, mem_variantsOf.mp hx, mem_variantsOf.mp hr]
    rfl

theorem letters_ofText_caseVariants (c : Char) :
    letters (.ofText (caseVariants c)) = variantsOf [c] := by
  ext t
  rw [mem_variantsOf_singleton]
  constructor
  · rintro ⟨d, hd, rfl⟩
    exact ⟨d, ((CharSet.has_ofText _).2 d).mp hd, rfl⟩
  · rintro ⟨d, hd, rfl⟩
    exact ⟨d, ((CharSet.has_ofText _).2 d).mpr hd, rfl⟩

/-- A letter stands for its variants. -/
theorem means_letter (c : Char) : Means (letter (.initial true) c) (variantsOf [c]) := by
  have hself : c ∈ caseVariants c := mem_caseVariants.mpr rfl
  have hflags : (Flags.initial true).variants c = caseVariants c := rfl
  rw [letter, hflags]
  split
  · -- A letter without other variants stands for itself.
    rename_i d hd
    rw [hd] at hself
    obtain rfl := List.mem_singleton.mp hself
    have hvariants : variantsOf [c] = {[c]} := by
      ext t
      rw [mem_variantsOf_singleton, hd]
      simp only [List.mem_singleton, exists_eq_left]
      rfl
    rw [hvariants]
    exact means_literal [c]
  · rw [← letters_ofText_caseVariants]
    exact means_char (CharSet.has_ofText _).1

/-- What is written for a word means its variants. -/
theorem readsAs_variantsOf [PropertyTable] (w : Text) :
    ReadsAs true (MeansAll · (variantsOf w))
      (w.flatMap fun c => if isMeta c then ['\\', c] else [c]) := by
  induction w with
  | nil =>
    rw [variantsOf_nil]
    exact ReadsAs.nil meansAll_nil
  | cons c w ih =>
    rw [List.flatMap_cons, variantsOf_cons]
    have hletter : ReadsAtomAs true (Means · (variantsOf [c]))
        (if isMeta c then ['\\', c] else [c]) := readsAtomAs_escape (means_letter c)
    exact (hletter.reads (A := (MeansAll · (variantsOf [c]))) fun _ hp => hp.singleton).append ih
      fun _ _ => MeansAll.append

/-- A single part is a whole body. -/
theorem readsBodyAs_of_readsAs [PropertyTable] {caseless : Bool} {e : Text} {l : Language Char}
    (h : ReadsAs caseless (MeansAll · l) e) : ReadsBodyAs caseless (Means · l) e := by
  refine h.readsBody fun ps hps => ?_
  have hchoice := means_choice (.cons (means_sequence hps) .nil)
  rwa [List.sum_singleton] at hchoice

end Pattern

end TimePhrase
