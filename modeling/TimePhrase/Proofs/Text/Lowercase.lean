import Mathlib.Data.List.Forall2
import TimePhrase.Proofs.Pattern.CaseFolding
import TimePhrase.Text.Lowercase

/-!
# Lower case and case folding

Lower case is told letter by letter once each capital sigma has been read as the small one that its
place asks for. Most letters have the lower case of what they fold to. The others are forms of their
own, such as the long s or the final sigma, and stay as they are in lower case. So two texts that
fold alike have the same lower case unless a form of its own stands against another letter.

* `isOwnForm`  letters that lower case keeps apart from what they fold to
* `lowercase_eq`  lower case letter by letter
* `lowercase_eq_iff`  texts that fold alike and have the same lower case
-/

namespace TimePhrase

/-! ## Letters -/

/-- The lower case of a letter, apart from those that have several characters as their lower case or
    different ones at different places. -/
def lowercaseLetter (c : Char) : Char := Char.ofNat (lowercaseRuns.applyTo c.toNat)

/-- Whether a letter has another lower case than what it folds to. -/
def isOwnForm (c : Char) : Bool := lowercaseLetter c != lowercaseLetter (foldCase c)

theorem isProper_lowercaseRuns : lowercaseRuns.IsProper :=
  CaseMap.isProper_of_isChain (by decide +kernel) (by decide +kernel)

/-- Lower case sends all letters of a run where folding does, or it leaves them alone. -/
theorem lowercase_foldRuns : ∀ r ∈ foldRuns,
    (lowercaseRuns.find? fun q => Nat.ble r.last q.last).any r.isWithin = true ∧
        r.isSparedBy r.offset lowercaseRuns = true ∨
      r.isSparedBy 0 lowercaseRuns = true := by
  decide +kernel

/-- A form of its own is its own lower case. -/
theorem lowercaseLetter_of_isOwnForm {c : Char} (h : isOwnForm c = true) :
    lowercaseLetter c = c := by
  rw [isOwnForm, bne_iff_ne] at h
  rcases holds_or_forall foldRuns c.toNat with ⟨r, hr, hn⟩ | hnone
  · rcases lowercase_foldRuns r hr with ⟨hany, hspared⟩ | hspared
    · -- Both lower case and folding send the letter to one that is left alone.
      obtain ⟨q, hfind, hwithin⟩ := (Option.any_eq_true ..).mp hany
      have hq := List.mem_of_find?_eq_some hfind
      obtain ⟨k, hk, hfold, -⟩ := image_of_holds hr hn
      obtain ⟨hholds, hoffset⟩ := CaseRun.holds_of_isWithin hwithin hn
      have hlower : lowercaseRuns.applyTo c.toNat = k := by
        rw [CaseMap.applyTo_of_holds isProper_lowercaseRuns hq hholds, hoffset, hk, Int.toNat_natCast]
      have hfirst := (bounds_foldRuns r hr).2.1
      have hstay : lowercaseRuns.applyTo k = k := CaseMap.applyTo_of_not_holds
        (CaseRun.not_holds_of_isSparedBy isProper_lowercaseRuns hspared hn hfirst hk)
      refine absurd ?_ h
      rw [lowercaseLetter, lowercaseLetter, toNat_foldCase, hfold, hlower, hstay]
    · have hsame := CaseMap.applyTo_of_not_holds (CaseRun.not_holds_of_isSparedBy
        isProper_lowercaseRuns hspared hn (k := c.toNat) (by omega) (by omega))
      rw [lowercaseLetter, hsame, Char.ofNat_toNat]
  · refine absurd ?_ h
    rw [lowercaseLetter, lowercaseLetter, toNat_foldCase, CaseMap.applyTo_of_not_holds hnone]

/-- Letters that are the same, or that both have the lower case of what they fold to. -/
def AgreesInLowercase (c d : Char) : Prop := c = d ∨ isOwnForm c = false ∧ isOwnForm d = false

theorem lowercaseLetter_eq_iff {c d : Char} (h : foldCase c = foldCase d) :
    lowercaseLetter c = lowercaseLetter d ↔ AgreesInLowercase c d := by
  constructor
  · intro hlower
    cases hc : isOwnForm c with
    | true =>
      cases hd : isOwnForm d with
      | true =>
        rw [lowercaseLetter_of_isOwnForm hc, lowercaseLetter_of_isOwnForm hd] at hlower
        exact .inl hlower
      | false =>
        rw [isOwnForm, bne_iff_ne] at hc
        rw [isOwnForm, bne_eq_false_iff_eq] at hd
        rw [hlower, hd, h] at hc
        exact absurd rfl hc
    | false =>
      refine .inr ⟨hc, ?_⟩
      rw [isOwnForm, bne_eq_false_iff_eq] at hc
      cases hd : isOwnForm d with
      | false => rfl
      | true =>
        rw [isOwnForm, bne_iff_ne, ← hlower, hc, h] at hd
        exact absurd rfl hd
  · rintro (rfl | ⟨hc, hd⟩)
    · rfl
    · rw [isOwnForm, bne_eq_false_iff_eq] at hc hd
      rw [hc, hd, h]

namespace Text

/-! ## Texts -/

/-- A text that follows `before`, with the small sigma that its place asks for in place of each
    capital one. -/
def withSmallSigmasAfter (before : Text) : Text → Text
  | [] => []
  | c :: r =>
    (if c = 'Σ' then if meetsCased before && !meetsCased r then 'ς' else 'σ' else c) ::
      withSmallSigmasAfter (c :: before) r

/-- A text with small sigmas in place of the capital ones. -/
def withSmallSigmas (s : Text) : Text := withSmallSigmasAfter [] s

/-- The lower case of a letter that is no capital sigma. -/
def lowercaseOf (c : Char) : Text := if c = 'İ' then ['i', '\u0307'] else [lowercaseLetter c]

/-- Lower case is told letter by letter once there are no capital sigmas. -/
theorem lowercase_eq (s : Text) : s.lowercase = s.withSmallSigmas.flatMap lowercaseOf := by
  have hsigma : lowercaseOf 'σ' = ['σ'] := by decide +kernel
  have hfinal : lowercaseOf 'ς' = ['ς'] := by decide +kernel
  have hafter (before s : Text) :
      lowercaseAfter before s = (withSmallSigmasAfter before s).flatMap lowercaseOf := by
    induction s generalizing before with
    | nil => rfl
    | cons c r ih =>
      rw [lowercaseAfter, withSmallSigmasAfter, List.flatMap_cons, ih, lowercaseChar,
        List.append_cancel_right_eq]
      by_cases hc : c = 'Σ'
      · rw [if_pos hc, if_pos hc]
        split
        · exact hfinal.symm
        · exact hsigma.symm
      · rw [if_neg hc, if_neg hc]
        rfl
  exact hafter [] s

theorem map_foldCase_withSmallSigmas (s : Text) :
    s.withSmallSigmas.map foldCase = s.map foldCase := by
  have hcapital : foldCase 'Σ' = foldCase 'σ' := by decide +kernel
  have hfinal : foldCase 'ς' = foldCase 'σ' := by decide +kernel
  have hafter (before s : Text) :
      (withSmallSigmasAfter before s).map foldCase = s.map foldCase := by
    induction s generalizing before with
    | nil => rfl
    | cons c r ih =>
      rw [withSmallSigmasAfter, List.map_cons, List.map_cons, ih]
      refine congrArg (· :: _) ?_
      by_cases hc : c = 'Σ'
      · rw [if_pos hc, hc, hcapital]
        split
        · exact hfinal
        · rfl
      · rw [if_neg hc]
  exact hafter [] s

/-- The capital I with a dot differs from no other letter in case only. -/
theorem eq_of_foldCase_eq_dotted {c : Char} (h : foldCase c = foldCase 'İ') : c = 'İ' := by
  have hvariants : caseVariants 'İ' = ['İ'] := by decide +kernel
  have hmem := mem_caseVariants.mpr h
  rw [hvariants] at hmem
  exact List.mem_singleton.mp hmem

theorem flatMap_lowercaseOf_eq_iff {s t : Text} (h : s.map foldCase = t.map foldCase) :
    s.flatMap lowercaseOf = t.flatMap lowercaseOf ↔ List.Forall₂ AgreesInLowercase s t := by
  induction s generalizing t with
  | nil =>
    obtain rfl : t = [] := by simpa using h.symm
    exact iff_of_true rfl .nil
  | cons c s ih =>
    cases t with
    | nil => exact absurd h (by simp)
    | cons d t =>
      obtain ⟨hhead, htail⟩ := List.cons.inj h
      rw [List.flatMap_cons, List.flatMap_cons, List.forall₂_cons, ← ih htail,
        ← lowercaseLetter_eq_iff hhead]
      by_cases hc : c = 'İ'
      · subst hc
        obtain rfl := eq_of_foldCase_eq_dotted hhead.symm
        rw [List.append_cancel_left_eq]
        exact (and_iff_right rfl).symm
      · have hd : d ≠ 'İ' := by
          rintro rfl
          exact hc (eq_of_foldCase_eq_dotted hhead)
        rw [lowercaseOf, lowercaseOf, if_neg hc, if_neg hd]
        exact List.cons_eq_cons

/-- Texts that fold alike have the same lower case exactly if they agree letter by letter, each
    capital sigma read as a small one. -/
theorem lowercase_eq_iff {s t : Text} (h : s.map foldCase = t.map foldCase) :
    s.lowercase = t.lowercase ↔
      List.Forall₂ AgreesInLowercase s.withSmallSigmas t.withSmallSigmas := by
  rw [lowercase_eq, lowercase_eq]
  apply flatMap_lowercaseOf_eq_iff
  rw [map_foldCase_withSmallSigmas, map_foldCase_withSmallSigmas, h]

end Text

end TimePhrase
