import TimePhrase.Proofs.Text.Stretch
import TimePhrase.Restriction.Cuts

/-!
# Cuts cover the spans they are made from

Spans become cuts in steps: neighbours are gathered, the result is put in order, what meets is
joined, and every cut is stretched. Each step replaces a list of spans by one that covers it and
takes nothing more than gap characters with it. Covering composes, so the whole plan covers the
spans it was given. The order of the walk only decides which steps are made.

* `covers_cover`  growing a span over one contiguous with it
* `covers_stretch`  taking the blanks behind a cut
* `covers_planCuts`  the cuts cover the spans
* `pairwise_planCuts`  between two cuts something is left
-/

namespace TimePhrase.Restriction

/-- Whether a byte is in one of the spans. -/
def covered (spans : List Span) (byte : Nat) : Bool := spans.any fun s => s.holds byte

theorem covered_eq_true {spans : List Span} {byte : Nat} :
    covered spans byte = true ↔ ∃ s ∈ spans, s.start ≤ byte ∧ byte < s.stop := by
  simp only [covered, List.any_eq_true, Span.holds_iff]

theorem covered_append (l m : List Span) (byte : Nat) :
    covered (l ++ m) byte = (covered l byte || covered m byte) := List.any_append

/-- A character that may be removed along with the restricted text around it. -/
def isGap (c : Char) : Bool := isBlank c || c == ','

theorem isGap_of_isBlank {c : Char} (h : isBlank c = true) : isGap c = true := by
  simp [isGap, h]

theorem isGap_of_isTrimmed {c : Char} (h : isTrimmed c = true) : isGap c = true := by
  simp only [isTrimmed, Bool.or_eq_true, beq_iff_eq] at h
  rcases h with (((((rfl | rfl) | rfl) | rfl) | rfl) | rfl) | rfl <;> decide

/-! ## Covering -/

/-- The spans `m` hold every span of `l`, and besides these only gap characters. -/
structure Covers (text : Text) (l m : List Span) : Prop where
  aligned : ∀ t ∈ m, t.Aligned text
  within : ∀ s ∈ l, ∃ t ∈ m, t.start ≤ s.start ∧ s.stop ≤ t.stop
  gap : ∀ x ∈ text.placed 0, covered m x.1 = true → covered l x.1 = true ∨ isGap x.2 = true

namespace Covers

variable {text : Text} {l l' m m' n : List Span}

theorem refl (h : ∀ s ∈ l, s.Aligned text) : Covers text l l where
  aligned := h
  within s hs := ⟨s, hs, Nat.le_refl _, Nat.le_refl _⟩
  gap _ _ hx := .inl hx

theorem trans (h₁ : Covers text l m) (h₂ : Covers text m n) : Covers text l n where
  aligned := h₂.aligned
  within s hs := by
    obtain ⟨t, ht, hts, hst⟩ := h₁.within s hs
    obtain ⟨u, hu, hut, htu⟩ := h₂.within t ht
    exact ⟨u, hu, Nat.le_trans hut hts, Nat.le_trans hst htu⟩
  gap x hx hn := by
    rcases h₂.gap x hx hn with hm | hg
    · exact h₁.gap x hx hm
    · exact .inr hg

/-- Two parts of a list may be covered apart from each other. -/
theorem append (h₁ : Covers text l m) (h₂ : Covers text l' m') :
    Covers text (l ++ l') (m ++ m') where
  aligned t ht := by
    rcases List.mem_append.mp ht with ht | ht
    · exact h₁.aligned t ht
    · exact h₂.aligned t ht
  within s hs := by
    rcases List.mem_append.mp hs with hs | hs
    · obtain ⟨t, ht, hst⟩ := h₁.within s hs
      exact ⟨t, List.mem_append_left _ ht, hst⟩
    · obtain ⟨t, ht, hst⟩ := h₂.within s hs
      exact ⟨t, List.mem_append_right _ ht, hst⟩
  gap x hx hc := by
    rw [covered_append, Bool.or_eq_true] at hc ⊢
    rcases hc with hc | hc
    · exact (h₁.gap x hx hc).imp_left .inl
    · exact (h₂.gap x hx hc).imp_left .inr

theorem cons {s : Span} (hs : s.Aligned text) (h : Covers text l m) :
    Covers text (s :: l) (s :: m) :=
  (refl (l := [s]) (by simpa using hs)).append h

theorem of_perm (hp : l.Perm m) (h : ∀ s ∈ l, s.Aligned text) : Covers text l m where
  aligned t ht := h t (hp.mem_iff.mpr ht)
  within s hs := ⟨s, hp.mem_iff.mp hs, Nat.le_refl _, Nat.le_refl _⟩
  gap x _ hx := by
    obtain ⟨s, hs, hsx⟩ := covered_eq_true.mp hx
    exact .inl (covered_eq_true.mpr ⟨s, hp.mem_iff.mpr hs, hsx⟩)

/-- A byte of the covered spans is covered. -/
theorem covered_of_covered (h : Covers text l m) {byte : Nat} (hl : covered l byte = true) :
    covered m byte = true := by
  obtain ⟨s, hs, h₁, h₂⟩ := covered_eq_true.mp hl
  obtain ⟨t, ht, hts, hst⟩ := h.within s hs
  exact covered_eq_true.mpr ⟨t, ht, by omega, by omega⟩

end Covers

/-! ## One step -/

variable {text : Text} {s t : Span}

/-- What is between two bytes of a text, the first a boundary, is gap if the slice is. -/
theorem isGap_of_all_slice {a b : Nat} {p : Char → Bool} (ha : text.IsBoundary a)
    (hp : ∀ c, p c = true → isGap c = true) (h : (text.slice a b).all p = true) {x : Nat × Char}
    (hx : x ∈ text.placed 0) (hax : a ≤ x.1) (hxb : x.1 < b) : isGap x.2 = true := by
  have hmem : x ∈ (text.slice a b).placed a := by
    rw [Text.placed_slice ha]
    exact List.mem_filter.mpr ⟨hx, by simpa using ⟨hax, hxb⟩⟩
  exact hp x.2 (List.all_eq_true.mp h x.2 (Text.mem_of_mem_placed hmem))

/-- A span grown over another one covers both, if nothing but gap is between them. -/
theorem covers_cover_of_gap (hs : s.Aligned text) (ht : t.Aligned text)
    (h : ∀ x ∈ text.placed 0, s.stop ≤ x.1 ∧ x.1 < t.start ∨ t.stop ≤ x.1 ∧ x.1 < s.start →
      isGap x.2 = true) :
    Covers text [s, t] [s.cover t] where
  aligned := by simpa using Span.aligned_cover hs ht
  within u hu := by
    refine ⟨s.cover t, List.mem_singleton_self _, ?_⟩
    rw [Span.start_cover, Span.stop_cover]
    rw [List.mem_cons, List.mem_singleton] at hu
    rcases hu with rfl | rfl <;> omega
  gap x hx hc := by
    obtain ⟨u, hu, h₁, h₂⟩ := covered_eq_true.mp hc
    rw [List.mem_singleton.mp hu, Span.start_cover] at h₁
    rw [List.mem_singleton.mp hu, Span.stop_cover] at h₂
    by_cases hsx : s.start ≤ x.1 ∧ x.1 < s.stop
    · exact .inl (covered_eq_true.mpr ⟨s, by simp, hsx⟩)
    · by_cases htx : t.start ≤ x.1 ∧ x.1 < t.stop
      · exact .inl (covered_eq_true.mpr ⟨t, by simp, htx⟩)
      · exact .inr (h x hx (by omega))

/-- Spans that meet are covered without any gap. -/
theorem covers_cover_of_meet (hs : s.Aligned text) (ht : t.Aligned text)
    (h₁ : s.start ≤ t.stop) (h₂ : t.start ≤ s.stop) : Covers text [s, t] [s.cover t] :=
  covers_cover_of_gap hs ht fun _ _ hx => by omega

theorem covers_cover (hs : s.Aligned text) (ht : t.Aligned text)
    (h : contiguous text t s = true) : Covers text [s, t] [s.cover t] := by
  simp only [contiguous, Bool.or_eq_true, Bool.and_eq_true, decide_eq_true_eq] at h
  rcases h with ⟨h₁, h₂⟩ | hgap
  · exact covers_cover_of_meet hs ht h₂ h₁
  · -- The slice that has been looked at is the one between the spans, whichever comes first.
    refine covers_cover_of_gap hs ht fun x hx hb => ?_
    have hst := s.start_le_stop
    have htt := t.start_le_stop
    unfold gap at hgap
    split at hgap
    · exact isGap_of_all_slice ht.stop (fun _ => isGap_of_isTrimmed) hgap hx (by omega) (by omega)
    · exact isGap_of_all_slice hs.stop (fun _ => isGap_of_isTrimmed) hgap hx (by omega) (by omega)

theorem start_stretch (text : Text) (s : Span) : (stretch text s).start = s.start := by
  unfold stretch
  split <;> rfl

/-- A cut is stretched over blanks only. -/
theorem covers_stretch (hs : s.Aligned text) : Covers text [s] [stretch text s] := by
  unfold stretch
  split
  · obtain ⟨a, b, rfl, hstop⟩ := hs.stop.exists_append
    rw [← hstop, Text.dropBytes_byteSize_append]
    generalize hw : b.takeWhile isBlank = w
    -- The blanks stand between the end of the cut and the end of the stretched one.
    have hsplit : a ++ b = a ++ w ++ b.dropWhile isBlank := by
      rw [List.append_assoc, ← hw, List.takeWhile_append_dropWhile]
    have hend : s.start + (s.len + Text.byteSize w) = Text.byteSize (a ++ w) := by
      rw [Text.byteSize_append, hstop, Span.stop, Nat.add_assoc]
    have hbound : (a ++ b).IsBoundary (Text.byteSize (a ++ w)) := by
      rw [hsplit]
      exact Text.isBoundary_append (a ++ w) (b.dropWhile isBlank)
    have hslice : (a ++ b).slice (Text.byteSize a) (Text.byteSize (a ++ w)) = w := by
      rw [hsplit, Text.slice_append]
    constructor
    · rw [List.forall_mem_singleton]
      rw [← hend] at hbound
      exact ⟨hs.start, hbound⟩
    · rw [List.forall_mem_singleton]
      refine ⟨_, List.mem_singleton_self _, Nat.le_refl _, ?_⟩
      simp only [Span.stop]
      omega
    · intro x hx hc
      obtain ⟨u, hu, h₁, h₂⟩ := covered_eq_true.mp hc
      obtain rfl := List.mem_singleton.mp hu
      rw [Span.stop, hend] at h₂
      by_cases hsx : x.1 < s.stop
      · exact .inl (covered_eq_true.mpr ⟨s, List.mem_singleton_self s, h₁, hsx⟩)
      · refine .inr (isGap_of_all_slice (Text.isBoundary_append a b)
          (fun _ => isGap_of_isBlank) ?_ hx (by omega) h₂)
        rw [hslice, ← hw]
        exact List.all_takeWhile
  · exact Covers.refl (by simpa using hs)

/-! ## The walk -/

theorem covers_gather (pending : Option Span) {spans : List Span}
    (h : ∀ s ∈ pending.toList ++ spans, s.Aligned text) :
    Covers text (pending.toList ++ spans) (gather text pending spans) := by
  induction spans generalizing pending with
  | nil =>
    rw [List.append_nil] at h ⊢
    cases pending <;> exact Covers.refl h
  | cons s r ih =>
    cases pending with
    | none => exact ih (some s) h
    | some p =>
      simp only [Option.toList_some, List.singleton_append] at h ⊢
      obtain ⟨hp, h⟩ := List.forall_mem_cons.mp h
      have hr := (List.forall_mem_cons.mp h).2
      have hs := (List.forall_mem_cons.mp h).1
      simp only [gather, decision]
      by_cases hc : contiguous text s p = true
      · -- The pending span grows.
        simp only [hc, if_true]
        have hfirst := (covers_cover hp hs hc).append (Covers.refl hr)
        exact hfirst.trans (ih (some (p.cover s)) hfirst.aligned)
      · -- It becomes a cut, and the next span is pending.
        simp only [hc]
        exact (ih (some s) h).cons hp

/-! ## Putting in order -/

/-- The starts of spans never fall. -/
abbrev Ordered (spans : List Span) : Prop := spans.Pairwise fun a b => a.start ≤ b.start

theorem ordered_stretch {r : List Span} (h : Ordered (s :: r)) : Ordered (stretch text s :: r) := by
  rw [Ordered, List.pairwise_cons] at h ⊢
  rw [start_stretch]
  exact h

theorem ordered_cover {r : List Span} (h : Ordered (s :: t :: r)) : Ordered (s.cover t :: r) := by
  obtain ⟨hs, ht⟩ := List.pairwise_cons.mp h
  obtain ⟨-, hr⟩ := List.pairwise_cons.mp ht
  refine List.pairwise_cons.mpr ⟨fun u hu => ?_, hr⟩
  have := hs u (List.mem_cons_of_mem t hu)
  rw [Span.start_cover]
  omega

/-- The walk `settleAfter text (some last) r` begins with a cut made from `last`. -/
theorem covers_settleAfter {last : Span} {r : List Span}
    (h : ∀ s ∈ last :: r, s.Aligned text) (ho : Ordered (last :: r)) :
    Covers text (last :: r) (settleAfter text (some last) r) ∧
      (∀ t ∈ settleAfter text (some last) r, last.start ≤ t.start) ∧
      (settleAfter text (some last) r).Pairwise fun a b => a.stop < b.start := by
  induction r generalizing last with
  | nil => exact ⟨.refl h, by simp [settleAfter], by simp [settleAfter]⟩
  | cons c r ih =>
    obtain ⟨hl, hc, hr⟩ : last.Aligned text ∧ c.Aligned text ∧ ∀ s ∈ r, s.Aligned text := by
      simpa using h
    obtain ⟨hlc, hor⟩ := List.pairwise_cons.mp ho
    have hle : last.start ≤ c.start := hlc c List.mem_cons_self
    simp only [settleAfter]
    split
    · -- The next cut meets the last one, and they are joined.
      rename_i hmeet
      have hcover : Covers text [last, c] [stretch text (last.cover c)] :=
        (covers_cover_of_meet hl hc (Nat.le_trans hle c.start_le_stop) hmeet).trans
          (covers_stretch (Span.aligned_cover hl hc))
      have hal : ∀ s ∈ stretch text (last.cover c) :: r, s.Aligned text :=
        List.forall_mem_cons.mpr ⟨hcover.aligned _ (List.mem_singleton_self _), hr⟩
      obtain ⟨ih₁, ih₂, ih₃⟩ := ih hal (ordered_stretch (ordered_cover ho))
      refine ⟨(hcover.append (.refl hr)).trans ih₁, fun t ht => ?_, ih₃⟩
      have := ih₂ t ht
      rw [start_stretch, Span.start_cover] at this
      omega
    · -- It is apart from it, and so are all that begin later.
      rename_i hapart
      have hal : ∀ s ∈ stretch text c :: r, s.Aligned text :=
        List.forall_mem_cons.mpr ⟨(covers_stretch hc).aligned _ (List.mem_singleton_self _), hr⟩
      obtain ⟨ih₁, ih₂, ih₃⟩ := ih hal (ordered_stretch hor)
      rw [start_stretch] at ih₂
      refine ⟨.cons hl (((covers_stretch hc).append (.refl hr)).trans ih₁), ?_, ?_⟩
      · refine List.forall_mem_cons.mpr ⟨Nat.le_refl _, fun t ht => ?_⟩
        exact Nat.le_trans hle (ih₂ t ht)
      · refine List.pairwise_cons.mpr ⟨fun t ht => ?_, ih₃⟩
        have := ih₂ t ht
        omega

theorem covers_settle {cuts : List Span} (h : ∀ s ∈ cuts, s.Aligned text) :
    Covers text cuts (settle text cuts) ∧
      (settle text cuts).Pairwise fun a b => a.stop < b.start := by
  have hp := sortBy_perm Span.start cuts
  have ho := pairwise_sortBy Span.start cuts
  have hcov := Covers.of_perm hp.symm h
  unfold settle
  cases hsort : sortBy Span.start cuts with
  | nil =>
    rw [hsort] at hcov
    exact ⟨hcov, List.Pairwise.nil⟩
  | cons c r =>
    rw [hsort] at ho hcov
    obtain ⟨hc, hr⟩ := List.forall_mem_cons.mp hcov.aligned
    have hfirst := (covers_stretch hc).append (Covers.refl hr)
    obtain ⟨hrest, -, hpair⟩ := covers_settleAfter hfirst.aligned (ordered_stretch ho)
    exact ⟨hcov.trans (hfirst.trans hrest), hpair⟩

/-! ## The whole plan -/

theorem covered_filter_pos (spans : List Span) (byte : Nat) :
    covered (spans.filter fun s => 0 < s.len) byte = covered spans byte := by
  rw [Bool.eq_iff_iff, covered_eq_true, covered_eq_true]
  constructor
  · rintro ⟨s, hs, hb⟩
    exact ⟨s, (List.mem_filter.mp hs).1, hb⟩
  · rintro ⟨s, hs, h₁, h₂⟩
    refine ⟨s, List.mem_filter.mpr ⟨hs, ?_⟩, h₁, h₂⟩
    rw [Span.stop] at h₂
    simp only [decide_eq_true_eq]
    omega

/-- The cuts cover the spans that are not empty. -/
theorem covers_planCuts {spans : List Span} (h : ∀ s ∈ spans, s.Aligned text) :
    Covers text (spans.filter fun s => 0 < s.len) (planCuts text spans) := by
  have hal : ∀ s ∈ spans.filter (fun s => 0 < s.len), s.Aligned text :=
    fun s hs => h s (List.mem_filter.mp hs).1
  have hgather := covers_gather none hal
  exact hgather.trans (covers_settle hgather.aligned).1

/-- Cuts come in order, and something is left between two of them. -/
theorem pairwise_planCuts {spans : List Span} (h : ∀ s ∈ spans, s.Aligned text) :
    (planCuts text spans).Pairwise fun a b => a.stop < b.start := by
  have hal : ∀ s ∈ spans.filter (fun s => 0 < s.len), s.Aligned text :=
    fun s hs => h s (List.mem_filter.mp hs).1
  exact (covers_settle (covers_gather none hal).aligned).2

end TimePhrase.Restriction
