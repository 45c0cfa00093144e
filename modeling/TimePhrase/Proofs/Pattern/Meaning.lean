import Mathlib.Computability.Language
import TimePhrase.Proofs.Pattern.Compose

/-!
# What a pattern means

A pattern without conditions spans the same words wherever it stands in a text, and those words are
a language. Patterns one after the other mean the product of their languages, alternatives the sum,
and a number of iterations the power.

* `Means`  the language of a pattern
* `means_sequence`, `means_choice`, `means_repeated`  the languages of composed patterns
* `powers_blanks_any`, `powers_blanks_some`  runs of blanks
-/

namespace TimePhrase.Pattern

open Text (byteSize)

/-! ## Languages -/

/-- The words of one character of a set. -/
def letters (s : CharSet) : Language Char := {w | ∃ c, s.has c = true ∧ w = [c]}

/-- Whether a number lies between two bounds, of which the upper one can be missing. -/
def admits (least : Nat) (most : Option Nat) (n : Nat) : Prop := least ≤ n ∧ ∀ m ∈ most, n ≤ m

/-- As many words of a language one after the other as are wanted. -/
def powers (wanted : Nat → Prop) (l : Language Char) : Language Char :=
  {w | ∃ n, wanted n ∧ w ∈ l ^ n}

/-- Any number of blanks. -/
def gap : Language Char := {w | Text.isBlank w = true}

/-- At least one blank. -/
def blankRun : Language Char := {w | w ≠ [] ∧ Text.isBlank w = true}

/-- As many blanks as the power of single ones says. -/
theorem mem_pow_blanks {w : Text} {n : Nat} :
    w ∈ letters .blanks ^ n ↔ w.length = n ∧ Text.isBlank w = true := by
  induction n generalizing w with
  | zero =>
    rw [pow_zero, Language.mem_one, List.length_eq_zero_iff]
    constructor
    · rintro rfl
      exact ⟨rfl, rfl⟩
    · exact And.left
  | succ n ih =>
    rw [pow_succ', Language.mem_mul]
    constructor
    · rintro ⟨_, ⟨c, hc, rfl⟩, x, hx, rfl⟩
      obtain ⟨hlength, hblank⟩ := ih.mp hx
      refine ⟨by simp [hlength], ?_⟩
      rw [Text.isBlank, List.singleton_append, List.all_cons, Bool.and_eq_true]
      exact ⟨hc, hblank⟩
    · rintro ⟨hlength, hblank⟩
      cases w with
      | nil => simp at hlength
      | cons c w =>
        rw [Text.isBlank, List.all_cons, Bool.and_eq_true] at hblank
        exact ⟨[c], ⟨c, hblank.1, rfl⟩, w, ih.mpr ⟨by simpa using hlength, hblank.2⟩, rfl⟩

theorem mem_powers_blanks {wanted : Nat → Prop} {w : Text} :
    w ∈ powers wanted (letters .blanks) ↔ wanted w.length ∧ Text.isBlank w = true := by
  constructor
  · rintro ⟨n, hn, hw⟩
    obtain ⟨rfl, hblank⟩ := mem_pow_blanks.mp hw
    exact ⟨hn, hblank⟩
  · rintro ⟨hn, hblank⟩
    exact ⟨w.length, hn, mem_pow_blanks.mpr ⟨rfl, hblank⟩⟩

theorem powers_blanks_any : powers (admits 0 none) (letters .blanks) = gap := by
  ext w
  rw [mem_powers_blanks]
  constructor
  · exact And.right
  · intro hw
    exact ⟨⟨Nat.zero_le w.length, by simp⟩, hw⟩

theorem powers_blanks_some : powers (admits 1 none) (letters .blanks) = blankRun := by
  ext w
  rw [mem_powers_blanks]
  constructor
  · rintro ⟨⟨hlength, -⟩, hw⟩
    exact ⟨List.length_pos_iff.mp hlength, hw⟩
  · rintro ⟨hne, hw⟩
    exact ⟨⟨List.length_pos_iff.mpr hne, by simp⟩, hw⟩

/-! ### Languages of relations -/

/-- A relation between places of texts leads from each place to the ends of the words of a language
    that stand there. -/
def Describes (R : Text → Nat → Nat → Prop) (l : Language Char) : Prop :=
  ∀ u v j, R (u ++ v) (byteSize u) j ↔ ∃ w r, v = w ++ r ∧ w ∈ l ∧ j = byteSize (u ++ w)

namespace Describes

variable {R S : Text → Nat → Nat → Prop} {l m : Language Char}

theorem congr (h : Describes R l) (hRS : ∀ text i j, S text i j ↔ R text i j) : Describes S l :=
  fun u v j => (hRS (u ++ v) (byteSize u) j).trans (h u v j)

theorem one : Describes (fun _ i j => i = j) 1 := by
  intro u v j
  constructor
  · rintro rfl
    exact ⟨[], v, rfl, rfl, by rw [List.append_nil]⟩
  · rintro ⟨w, r, -, hw, rfl⟩
    rw [Language.mem_one] at hw
    rw [hw, List.append_nil]

theorem mul (hR : Describes R l) (hS : Describes S m) :
    Describes (fun text i j => ∃ k, R text i k ∧ S text k j) (l * m) := by
  intro u v j
  constructor
  · rintro ⟨k, hk, hj⟩
    obtain ⟨w, r, rfl, hw, rfl⟩ := (hR u v k).mp hk
    -- The second word begins behind the first one.
    rw [← List.append_assoc] at hj
    obtain ⟨x, r, rfl, hx, rfl⟩ := (hS (u ++ w) r j).mp hj
    refine ⟨w ++ x, r, ?_, Language.append_mem_mul hw hx, ?_⟩
    · rw [List.append_assoc]
    · rw [List.append_assoc]
  · rintro ⟨_, r, rfl, hwx, rfl⟩
    obtain ⟨w, hw, x, hx, rfl⟩ := Language.mem_mul.mp hwx
    refine ⟨byteSize (u ++ w), (hR _ _ _).mpr ⟨w, x ++ r, ?_, hw, rfl⟩, ?_⟩
    · rw [List.append_assoc]
    · have hsecond := (hS (u ++ w) (x ++ r) (byteSize (u ++ w ++ x))).mpr ⟨x, r, rfl, hx, rfl⟩
      simpa only [List.append_assoc] using hsecond

theorem pow (hR : Describes R l) (n : Nat) : Describes (fun text => Steps (R text) n) (l ^ n) := by
  induction n with
  | zero =>
    rw [pow_zero]
    exact one
  | succ n ih =>
    rw [pow_succ']
    exact hR.mul ih

theorem zero : Describes (fun _ _ _ => False) 0 := by
  intro u v j
  constructor
  · exact False.elim
  · rintro ⟨w, r, -, hw, -⟩
    exact Language.notMem_zero w hw

theorem add (hR : Describes R l) (hS : Describes S m) :
    Describes (fun text i j => R text i j ∨ S text i j) (l + m) := by
  intro u v j
  show R (u ++ v) (byteSize u) j ∨ S (u ++ v) (byteSize u) j ↔ _
  rw [hR u v j, hS u v j]
  constructor
  · rintro (⟨w, r, hv, hw, hj⟩ | ⟨w, r, hv, hw, hj⟩)
    · exact ⟨w, r, hv, .inl hw, hj⟩
    · exact ⟨w, r, hv, .inr hw, hj⟩
  · rintro ⟨w, r, hv, hw | hw, hj⟩
    · exact .inl ⟨w, r, hv, hw, hj⟩
    · exact .inr ⟨w, r, hv, hw, hj⟩

theorem powers (hR : Describes R l) (wanted : Nat → Prop) :
    Describes (fun text i j => ∃ n, wanted n ∧ Steps (R text) n i j) (powers wanted l) := by
  intro u v j
  constructor
  · rintro ⟨n, hn, hj⟩
    obtain ⟨w, r, hv, hw, hj⟩ := (hR.pow n u v j).mp hj
    exact ⟨w, r, hv, ⟨n, hn, hw⟩, hj⟩
  · rintro ⟨w, r, hv, ⟨n, hn, hw⟩, hj⟩
    exact ⟨n, hn, (hR.pow n u v j).mpr ⟨w, r, hv, hw, hj⟩⟩

end Describes

/-! ## Languages of patterns -/

/-- A pattern spans the words of a language. -/
structure Means (p : Pattern) (l : Language Char) : Prop where
  proper : p.HasProperSets
  describes : Describes (fun text => Spans text p) l

/-- Patterns span the words of a language one after the other. -/
structure MeansAll (ps : List Pattern) (l : Language Char) : Prop where
  proper : ∀ p ∈ ps, p.HasProperSets
  describes : Describes (fun text => SpansAll text ps) l

variable {p : Pattern} {ps qs : List Pattern} {l m : Language Char}

theorem means_literal (t : Text) : Means (.literal t) {t} where
  proper := trivial
  describes := by
    intro u v j
    constructor
    · rintro ⟨a, b, htext, hsize, rfl⟩
      rw [List.append_assoc] at htext
      obtain ⟨rfl, rfl⟩ := Text.eq_of_byteSize_eq htext hsize
      exact ⟨t, b, rfl, rfl, rfl⟩
    · rintro ⟨w, r, rfl, hw, rfl⟩
      obtain rfl : w = t := hw
      exact ⟨u, r, (List.append_assoc u w r).symm, rfl, rfl⟩

theorem means_char {s : CharSet} (hs : s.IsProper) :
    Means (.char s) (letters s) where
  proper := hs
  describes := by
    intro u v j
    constructor
    · rintro ⟨a, c, b, htext, hc, hsize, rfl⟩
      obtain ⟨rfl, rfl⟩ := Text.eq_of_byteSize_eq htext hsize
      refine ⟨[c], b, rfl, ⟨c, hc, rfl⟩, ?_⟩
      simp
    · rintro ⟨_, r, rfl, ⟨c, hc, rfl⟩, rfl⟩
      refine ⟨u, c, r, rfl, hc, rfl, ?_⟩
      simp

theorem Means.ofSet {s : CharSet} (hs : s.IsProper) (h : Means (.char s) l) :
    Means (ofSet s) l where
  proper := hasProperSets_ofSet hs
  describes := h.describes.congr fun _ _ _ => spans_ofSet hs

theorem Means.group (index : Nat) (name : Option Text) (h : Means p l) :
    Means (.group index name p) l := ⟨h.proper, h.describes⟩

theorem meansAll_nil : MeansAll [] 1 := ⟨nofun, Describes.one⟩

theorem MeansAll.append (hp : MeansAll ps l) (hq : MeansAll qs m) :
    MeansAll (ps ++ qs) (l * m) where
  proper := List.forall_mem_append.mpr ⟨hp.proper, hq.proper⟩
  describes := (hp.describes.mul hq.describes).congr fun _ _ _ => spansAll_append

theorem Means.singleton (h : Means p l) : MeansAll [p] l where
  proper := List.forall_mem_singleton.mpr h.proper
  describes := h.describes.congr fun _ _ _ => spansAll_singleton

/-- A sequence means what its members mean one after the other. -/
theorem means_sequence (h : MeansAll ps l) : Means (sequence ps) l where
  proper := isHereditary_hasProperSets.sequence h.proper
  describes := h.describes.congr fun _ _ _ => spans_sequence

/-- A choice means the sum of what its alternatives mean. -/
theorem means_choice {ls : List (Language Char)} (h : List.Forall₂ Means ps ls) :
    Means (choice ps) ls.sum := by
  have hproper : ∀ p ∈ ps, p.HasProperSets := by
    intro p hp
    obtain ⟨i, hi, rfl⟩ := List.mem_iff_getElem.mp hp
    exact (h.get hi (h.length_eq ▸ hi)).proper
  -- The first alternative spans its own words, and the others theirs.
  have hdescribes : Describes (fun text i j => ∃ p ∈ ps, Spans text p i j) ls.sum := by
    clear hproper
    induction h with
    | nil =>
      rw [List.sum_nil]
      exact Describes.zero.congr fun _ _ _ => by simp
    | cons hp _ ih =>
      rw [List.sum_cons]
      refine (hp.describes.add ih).congr fun _ _ _ => ?_
      simp only [List.mem_cons, or_and_right, exists_or, exists_eq_left]
  refine ⟨isHereditary_hasProperSets.choice hproper, ?_⟩
  exact hdescribes.congr fun text i j => spans_choice hproper

/-- A repetition means the powers that its bounds admit. -/
theorem means_repeated {least : Nat} {most : Option Nat} (h : Means p l)
    (hbounds : ∀ m ∈ most, least ≤ m) (greedy : Bool) :
    Means (p.repeated least most greedy) (powers (admits least most) l) where
  proper := hasProperSets_repeated h.proper least most greedy
  describes := by
    refine (h.describes.powers _).congr fun text i j => ?_
    simp only [spans_repeated hbounds, admits, and_assoc]

end TimePhrase.Pattern
