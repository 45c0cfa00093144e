import TimePhrase.Proofs.Pattern.CharSet
import TimePhrase.Proofs.Pattern.Hereditary
import TimePhrase.Proofs.Pattern.Spans

/-!
# Putting patterns together keeps what they span

The simplest form of a sequence, a choice or a repetition spans what the written one does, no matter
which literals have become one, which members have been taken out of a choice, or which iterations
have been found idle.

* `spans_sequence`  one after the other
* `spans_choice`  any of several patterns
* `spans_repeated`  an admitted number of iterations
-/

namespace TimePhrase.Pattern

open Text (byteSize)

variable {text : Text}

/-- All sets in the pattern are proper. -/
def HasProperSets : Pattern → Prop
  | .empty | .literal _ | .assertion _ => True
  | .char set => set.IsProper
  | .group _ _ p => p.HasProperSets
  | .concat p q => p.HasProperSets ∧ q.HasProperSets
  | .either p q => p.HasProperSets ∧ q.HasProperSets
  | .repetition p _ _ _ => p.HasProperSets

theorem hasProperSets_ofSet {s : CharSet} (hs : s.IsProper) : (ofSet s).HasProperSets := by
  unfold ofSet
  split
  · trivial
  · exact hs

theorem isHereditary_hasProperSets : IsHereditary HasProperSets where
  empty := trivial
  concat := Iff.rfl
  either := Iff.rfl
  literal _ _ := trivial
  single _ := CharSet.isProper_single _
  unions hss := hasProperSets_ofSet (CharSet.has_unions hss).1

/-- What patterns span one after the other. -/
def SpansAll (text : Text) : List Pattern → Nat → Nat → Prop
  | [], i, j => i = j
  | p :: r, i, j => ∃ k, Spans text p i k ∧ SpansAll text r k j

theorem spansAll_append {l r : List Pattern} {i j : Nat} : SpansAll text (l ++ r) i j ↔
    ∃ k, SpansAll text l i k ∧ SpansAll text r k j := by
  induction l generalizing i with
  | nil => simp only [List.nil_append, SpansAll, exists_eq_left']
  | cons p l ih =>
    simp only [List.cons_append, SpansAll, ih]
    constructor
    · rintro ⟨k, hk, m, hm, hj⟩
      exact ⟨m, ⟨k, hk, hm⟩, hj⟩
    · rintro ⟨m, ⟨k, hk, hm⟩, hj⟩
      exact ⟨k, hk, m, hm, hj⟩

theorem spansAll_singleton {p : Pattern} {i j : Nat} :
    SpansAll text [p] i j ↔ Spans text p i j := by
  simp only [SpansAll, exists_eq_right]

/-! ## Sequences -/

theorem spansAll_membersBefore {p : Pattern} {l : List Pattern} {i j : Nat} :
    SpansAll text (p.membersBefore l) i j ↔ ∃ k, Spans text p i k ∧ SpansAll text l k j := by
  induction p generalizing l i with
  | empty => simp only [membersBefore, Spans, exists_eq_left']
  | concat p q ihp _ =>
    simp only [membersBefore, ihp, SpansAll, Spans]
    constructor
    · rintro ⟨k, hk, m, hm, hj⟩
      exact ⟨m, ⟨k, hk, hm⟩, hj⟩
    · rintro ⟨m, ⟨k, hk, hm⟩, hj⟩
      exact ⟨k, hk, m, hm, hj⟩
  | _ => rfl

theorem spansAll_members {p : Pattern} {i j : Nat} :
    SpansAll text p.members i j ↔ Spans text p i j := by
  rw [members, spansAll_membersBefore]
  simp only [SpansAll, exists_eq_right]

theorem spans_ofMembers {l : List Pattern} {i j : Nat} :
    Spans text (ofMembers l) i j ↔ SpansAll text l i j := by
  have hfold : ∀ (r : List Pattern) (p : Pattern), Spans text (r.foldl .concat p) i j ↔
      ∃ k, Spans text p i k ∧ SpansAll text r k j := by
    intro r
    induction r with
    | nil => simp only [List.foldl_nil, SpansAll, exists_eq_right, implies_true]
    | cons q r ih =>
      intro p
      rw [List.foldl_cons, ih]
      constructor
      · rintro ⟨m, ⟨k, hk, hm⟩, hj⟩
        exact ⟨k, hk, m, hm, hj⟩
      · rintro ⟨k, hk, m, hm, hj⟩
        exact ⟨m, ⟨k, hk, hm⟩, hj⟩
  cases l with
  | nil => rfl
  | cons p r => exact hfold r p

/-- Two literals next to each other are one. -/
theorem spans_literal_append {s t : Text} {i j : Nat} : Spans text (.literal (s ++ t)) i j ↔
    ∃ k, Spans text (.literal s) i k ∧ Spans text (.literal t) k j := by
  constructor
  · rintro ⟨a, b, htext, hi, hj⟩
    refine ⟨byteSize (a ++ s), ⟨a, t ++ b, ?_, hi, rfl⟩, ⟨a ++ s, b, ?_, rfl, ?_⟩⟩
    · rw [htext]
      simp only [List.append_assoc]
    · rw [htext]
      simp only [List.append_assoc]
    · rw [hj, List.append_assoc]
  · rintro ⟨k, ⟨a, b, htext, hi, hk⟩, ⟨c, d, htext', hk', hj⟩⟩
    -- The second literal begins where the first one ends, so both part the text alike.
    have hsame : a ++ s ++ b = c ++ (t ++ d) := by
      rw [← htext, htext', List.append_assoc]
    obtain ⟨rfl, -⟩ := Text.eq_of_byteSize_eq hsame (hk.symm.trans hk')
    refine ⟨a, d, ?_, hi, ?_⟩
    · rw [htext']
      simp only [List.append_assoc]
    · rw [hj, List.append_assoc]

theorem spansAll_consMember {p : Pattern} {l : List Pattern} {i j : Nat} :
    SpansAll text (consMember p l) i j ↔ SpansAll text (p :: l) i j := by
  unfold consMember
  split
  · rename_i s t r
    simp only [SpansAll, spans_literal_append]
    constructor
    · rintro ⟨m, ⟨k, hk, hm⟩, hj⟩
      exact ⟨k, hk, m, hm, hj⟩
    · rintro ⟨k, hk, m, hm, hj⟩
      exact ⟨m, ⟨k, hk, hm⟩, hj⟩
  · rfl

/-- A sequence spans what its members span one after the other. -/
theorem spans_sequence {l : List Pattern} {i j : Nat} :
    Spans text (sequence l) i j ↔ SpansAll text l i j := by
  -- Neither joining literals nor taking sequences apart changes what is spanned.
  have hfold : ∀ (r : List Pattern) (i : Nat),
      SpansAll text (r.foldr consMember []) i j ↔ SpansAll text r i j := by
    intro r
    induction r with
    | nil => exact fun _ => Iff.rfl
    | cons p r ih =>
      intro i
      rw [List.foldr_cons, spansAll_consMember]
      simp only [SpansAll, ih]
  have hmembers : ∀ i, SpansAll text (l.flatMap members) i j ↔ SpansAll text l i j := by
    induction l with
    | nil => exact fun _ => Iff.rfl
    | cons p l ih =>
      intro i
      rw [List.flatMap_cons, spansAll_append]
      simp only [spansAll_members, ih, SpansAll]
  rw [sequence, spans_ofMembers, hfold, hmembers]

/-! ## Choices -/

theorem spans_alternatives {p : Pattern} {i j : Nat} :
    (∃ q ∈ p.alternatives, Spans text q i j) ↔ Spans text p i j := by
  induction p with
  | either p q _ ihq =>
    simp only [alternatives, List.mem_cons, or_and_right, exists_or, exists_eq_left, ihq]
    rfl
  | _ => simp only [alternatives, List.mem_singleton, exists_eq_left]

theorem spans_flatMap_alternatives {l : List Pattern} {i j : Nat} :
    (∃ q ∈ l.flatMap alternatives, Spans text q i j) ↔ ∃ p ∈ l, Spans text p i j := by
  simp only [List.mem_flatMap]
  constructor
  · rintro ⟨q, ⟨p, hp, hq⟩, hspans⟩
    exact ⟨p, hp, spans_alternatives.mp ⟨q, hq, hspans⟩⟩
  · rintro ⟨p, hp, hspans⟩
    obtain ⟨q, hq, hspans⟩ := spans_alternatives.mpr hspans
    exact ⟨q, ⟨p, hp, hq⟩, hspans⟩

theorem not_spans_char_none {i j : Nat} : ¬ Spans text (.char .none) i j := by
  rintro ⟨a, c, b, -, hhas, -⟩
  exact nomatch hhas

theorem spans_ofAlternatives {l : List Pattern} {i j : Nat} :
    Spans text (ofAlternatives l) i j ↔ ∃ p ∈ l, Spans text p i j := by
  induction l with
  | nil => simp [ofAlternatives, not_spans_char_none]
  | cons p r ih =>
    cases r with
    | nil => simp [ofAlternatives]
    | cons q r =>
      simp only [ofAlternatives, Spans, ih, List.mem_cons, or_and_right, exists_or, exists_eq_left]

/-! ### Choices between characters -/

theorem spans_ofSet {s : CharSet} (hs : s.IsProper) {i j : Nat} :
    Spans text (ofSet s) i j ↔ Spans text (.char s) i j := by
  unfold ofSet
  split
  · -- The set has one character, and the literal is that character.
    rename_i c hc
    constructor
    · rintro ⟨a, b, htext, hi, hj⟩
      refine ⟨a, c, b, ?_, (CharSet.has_iff_of_only? hs hc c).mpr rfl, hi, ?_⟩
      · rw [htext, List.append_assoc]
        rfl
      · simp [hj, hi]
    · rintro ⟨a, d, b, htext, hhas, hi, hj⟩
      obtain rfl := (CharSet.has_iff_of_only? hs hc d).mp hhas
      refine ⟨a, b, ?_, hi, ?_⟩
      · rw [htext, List.append_assoc]
        rfl
      · simp [hj, hi]
  · rfl

theorem spans_char_unions {ss : List CharSet} (hss : ∀ s ∈ ss, s.IsProper) {i j : Nat} :
    Spans text (.char (.unions ss)) i j ↔ ∃ s ∈ ss, Spans text (.char s) i j := by
  obtain ⟨-, hhas⟩ := CharSet.has_unions hss
  constructor
  · rintro ⟨a, c, b, htext, hc, hi, hj⟩
    obtain ⟨s, hs, hc⟩ := (hhas c).mp hc
    exact ⟨s, hs, a, c, b, htext, hc, hi, hj⟩
  · rintro ⟨s, hs, a, c, b, htext, hc, hi, hj⟩
    exact ⟨a, c, b, htext, (hhas c).mpr ⟨s, hs, hc⟩, hi, hj⟩

theorem spans_char_single {c : Char} {i j : Nat} :
    Spans text (.char (.single c)) i j ↔ Spans text (.literal [c]) i j := by
  constructor
  · rintro ⟨a, d, b, htext, hhas, hi, hj⟩
    rw [CharSet.has_single, beq_iff_eq] at hhas
    subst hhas
    refine ⟨a, b, ?_, hi, ?_⟩
    · rw [htext, List.append_assoc]
      rfl
    · simp [hj, hi]
  · rintro ⟨a, b, htext, hi, hj⟩
    refine ⟨a, c, b, ?_, by simp, hi, ?_⟩
    · rw [htext, List.append_assoc]
      rfl
    · simp [hj, hi]

/-- Sets for the alternatives of a choice, one for each. -/
theorem spans_of_sets {f : Pattern → Option CharSet} {l : List Pattern} {ss : List CharSet}
    (hf : ∀ p ∈ l, ∀ s, f p = some s →
      s.IsProper ∧ ∀ i j, Spans text (.char s) i j ↔ Spans text p i j)
    (h : l.mapM f = some ss) : (CharSet.unions ss).IsProper ∧
      ∀ i j, Spans text (.char (.unions ss)) i j ↔ ∃ p ∈ l, Spans text p i j := by
  have hsets : (∀ s ∈ ss, s.IsProper) ∧
      ∀ i j, (∃ s ∈ ss, Spans text (.char s) i j) ↔ ∃ p ∈ l, Spans text p i j := by
    rw [Option.mapM_eq_some_iff] at h
    induction h with
    | nil => simp
    | cons hps _ ih =>
      obtain ⟨hp, hl⟩ := List.forall_mem_cons.mp hf
      obtain ⟨hproper, hspans⟩ := hp _ hps
      obtain ⟨hpropers, hspanss⟩ := ih hl
      refine ⟨List.forall_mem_cons.mpr ⟨hproper, hpropers⟩, fun i j => ?_⟩
      simp only [List.mem_cons, or_and_right, exists_or, exists_eq_left, hspans, hspanss]
  obtain ⟨hproper, hspans⟩ := hsets
  refine ⟨(CharSet.has_unions hproper).1, fun i j => ?_⟩
  rw [spans_char_unions hproper, hspans]

theorem spans_of_commonSet? {l : List Pattern} (hl : ∀ p ∈ l, p.HasProperSets) {s : CharSet}
    (h : commonSet? l = some s) :
    s.IsProper ∧ ∀ i j, Spans text (.char s) i j ↔ ∃ p ∈ l, Spans text p i j := by
  unfold commonSet? at h
  split at h
  · rename_i sets hsets
    obtain rfl := Option.some.inj h
    refine spans_of_sets (fun p hp s hs => ?_) hsets
    unfold letter? at hs
    split at hs
    · rename_i c
      obtain rfl := Option.some.inj hs
      exact ⟨CharSet.isProper_single c, fun i j => spans_char_single⟩
    · exact nomatch hs
  · obtain ⟨sets, hsets, rfl⟩ := Option.map_eq_some_iff.mp h
    refine spans_of_sets (fun p hp s hs => ?_) hsets
    unfold charSet? at hs
    split at hs
    · obtain rfl := Option.some.inj hs
      exact ⟨hl _ hp, fun _ _ => Iff.rfl⟩
    · exact nomatch hs

/-! ### Shared members -/

theorem spans_drop_members {shared : List Pattern} {p : Pattern} (h : shared <+: p.members)
    {i j : Nat} : Spans text p i j ↔ ∃ k, SpansAll text shared i k ∧
      Spans text (ofMembers (p.members.drop shared.length)) k j := by
  simp only [spans_ofMembers, ← spansAll_append]
  rw [List.prefix_iff_eq_append.mp h, spansAll_members]

theorem spans_chooseFrom {fuel : Nat} {l : List Pattern} (hl : ∀ p ∈ l, p.HasProperSets)
    {i j : Nat} : Spans text (chooseFrom fuel l) i j ↔ ∃ p ∈ l, Spans text p i j := by
  induction fuel generalizing l i j with
  | zero => exact spans_ofAlternatives
  | succ fuel ih =>
    have halts : ∀ q ∈ l.flatMap alternatives, q.HasProperSets := by
      intro q hq
      obtain ⟨p, hp, hpq⟩ := List.mem_flatMap.mp hq
      exact isHereditary_hasProperSets.alternatives (hl p hp) q hpq
    -- The alternatives of a choice among the patterns count one by one.
    rw [← spans_flatMap_alternatives (l := l), chooseFrom]
    generalize l.flatMap alternatives = l at halts ⊢
    split
    · simp [not_spans_char_none]
    · simp
    · split
      · -- Alternatives of one character each make a set.
        rename_i s hs
        obtain ⟨hproper, hspans⟩ := @spans_of_commonSet? text _ halts _ hs
        exact (spans_ofSet hproper).trans (hspans i j)
      · split
        · exact spans_ofAlternatives
        · -- The shared members come first, and then a choice of what is left.
          have hpre := sharedMembers_prefix (l := l)
          generalize sharedMembers l = shared at hpre ⊢
          have hrests : ∀ q ∈ l.map (fun p => ofMembers (p.members.drop shared.length)),
              q.HasProperSets := by
            intro q hq
            obtain ⟨p, hp, rfl⟩ := List.mem_map.mp hq
            apply isHereditary_hasProperSets.ofMembers
            intro m hm
            have hmembers := isHereditary_hasProperSets.members (halts p hp)
            exact hmembers m (List.mem_of_mem_drop hm)
          rw [spans_sequence, spansAll_append]
          simp only [spansAll_singleton, ih hrests, List.mem_map]
          constructor
          · rintro ⟨k, hk, q, ⟨p, hp, rfl⟩, hj⟩
            exact ⟨p, hp, (spans_drop_members (hpre p hp)).mpr ⟨k, hk, hj⟩⟩
          · rintro ⟨p, hp, hspans⟩
            obtain ⟨k, hk, hj⟩ := (spans_drop_members (hpre p hp)).mp hspans
            exact ⟨k, hk, _, ⟨p, hp, rfl⟩, hj⟩

/-- A choice spans what any of the patterns spans. -/
theorem spans_choice {l : List Pattern} (hl : ∀ p ∈ l, p.HasProperSets) {i j : Nat} :
    Spans text (choice l) i j ↔ ∃ p ∈ l, Spans text p i j :=
  spans_chooseFrom hl

/-! ## Repetitions -/

theorem hasProperSets_repeated {p : Pattern} (hp : p.HasProperSets) (least : Nat)
    (most : Option Nat) (greedy : Bool) : (p.repeated least most greedy).HasProperSets := by
  have hcases (least : Nat) (most : Option Nat) :
      (if least = 0 ∧ most = some 0 then Pattern.empty else
        if least = 1 ∧ most = some 1 then p else
          .repetition p least most greedy).HasProperSets := by
    split
    · trivial
    · split <;> exact hp
  exact hcases _ _

theorem eq_of_spans_of_onlyEmpty {p : Pattern} {i j : Nat} (hp : p.onlyEmpty = true)
    (h : Spans text p i j) : i = j := by
  induction p generalizing i j with
  | empty => exact h
  | literal t => exact nomatch hp
  | char set => exact nomatch hp
  | assertion m => exact h.1
  | group index name p ih => exact ih hp h
  | concat p q ihp ihq =>
    simp only [onlyEmpty, Bool.and_eq_true] at hp
    obtain ⟨k, hik, hkj⟩ := h
    exact (ihp hp.1 hik).trans (ihq hp.2 hkj)
  | either p q ihp ihq =>
    simp only [onlyEmpty, Bool.and_eq_true] at hp
    exact h.elim (ihp hp.1) (ihq hp.2)
  | repetition p least most greedy ih =>
    obtain ⟨more, -, hsteps⟩ := h
    exact eq_of_steps (fun _ _ => ih hp) hsteps

/-- A repetition between two bounds admits the numbers between them. -/
theorem spans_repetition {p : Pattern} {least : Nat} {most : Option Nat} {greedy : Bool}
    (h : ∀ m ∈ most, least ≤ m) {i j : Nat} :
    Spans text (.repetition p least most greedy) i j ↔
      ∃ n, least ≤ n ∧ (∀ m ∈ most, n ≤ m) ∧ Steps (Spans text p) n i j := by
  constructor
  · rintro ⟨more, hmore, hsteps⟩
    refine ⟨least + more, Nat.le_add_right least more, fun m hm => ?_, hsteps⟩
    have := hmore m hm
    have := h m hm
    omega
  · rintro ⟨n, hle, hmost, hsteps⟩
    refine ⟨n - least, fun m hm => ?_, ?_⟩
    · have := hmost m hm
      omega
    · rwa [Nat.add_sub_cancel' hle]

/-- The simplest form of a repetition admits the same numbers of iterations. -/
theorem spans_repeated {p : Pattern} {least : Nat} {most : Option Nat} {greedy : Bool}
    (h : ∀ m ∈ most, least ≤ m) {i j : Nat} : Spans text (p.repeated least most greedy) i j ↔
      ∃ n, least ≤ n ∧ (∀ m ∈ most, n ≤ m) ∧ Steps (Spans text p) n i j := by
  -- Only the two special cases need to be looked at.
  have hcases (least : Nat) (most : Option Nat) (h : ∀ m ∈ most, least ≤ m) :
      Spans text (if least = 0 ∧ most = some 0 then .empty else
        if least = 1 ∧ most = some 1 then p else .repetition p least most greedy) i j ↔
      ∃ n, least ≤ n ∧ (∀ m ∈ most, n ≤ m) ∧ Steps (Spans text p) n i j := by
    split
    · rename_i hnone
      obtain ⟨rfl, rfl⟩ := hnone
      constructor
      · intro hspans
        exact ⟨0, Nat.le_refl 0, by simp, hspans⟩
      · rintro ⟨n, -, hn, hsteps⟩
        obtain rfl : n = 0 := Nat.le_zero.mp (hn 0 rfl)
        exact hsteps
    · split
      · rename_i hone
        obtain ⟨rfl, rfl⟩ := hone
        constructor
        · intro hspans
          exact ⟨1, Nat.le_refl 1, by simp, steps_one.mpr hspans⟩
        · rintro ⟨n, hn, hn', hsteps⟩
          obtain rfl : n = 1 := Nat.le_antisymm (hn' 1 rfl) hn
          exact steps_one.mp hsteps
      · exact spans_repetition h
  unfold repeated
  by_cases hidle : p.onlyEmpty = true
  · -- Iterations that do not get anywhere are all alike, so one of them does for any number.
    simp only [hidle, if_true]
    have hstuck : ∀ i j, Spans text p i j → i = j := fun _ _ => eq_of_spans_of_onlyEmpty hidle
    have hbounds : ∀ m ∈ some (min (most.getD 1) 1), min least 1 ≤ m := by
      rintro _ ⟨⟩
      cases most with
      | none => exact Nat.min_le_right least 1
      | some m =>
        have := h m rfl
        simp only [Option.getD_some]
        omega
    rw [hcases _ _ hbounds]
    constructor
    · -- One idle iteration stands for as many as there have to be.
      rintro ⟨n, hn, hn', hsteps⟩
      have hle := hn' _ rfl
      by_cases hzero : n = 0
      · subst hzero
        exact ⟨0, by omega, by simp, hsteps⟩
      · refine ⟨max least 1, Nat.le_max_left least 1, fun m hm => ?_, ?_⟩
        · obtain rfl : most = some m := hm
          have := h m rfl
          simp only [Option.getD_some] at hle
          omega
        · rw [steps_iff_of_stuck hstuck (by omega)]
          exact (steps_iff_of_stuck hstuck hzero).mp hsteps
    · -- Any number of idle iterations but none is as good as one.
      rintro ⟨n, hn, hn', hsteps⟩
      by_cases hzero : n = 0
      · subst hzero
        exact ⟨0, by omega, by simp, hsteps⟩
      · refine ⟨1, Nat.min_le_right least 1, ?_, ?_⟩
        · rintro _ ⟨⟩
          cases most with
          | none => exact Nat.le_refl 1
          | some m =>
            have := hn' m rfl
            simp only [Option.getD_some]
            omega
        · exact steps_one.mpr ((steps_iff_of_stuck hstuck hzero).mp hsteps)
  · rw [Bool.not_eq_true] at hidle
    simp only [hidle, Bool.false_eq_true, if_false]
    exact hcases least most h

end TimePhrase.Pattern
