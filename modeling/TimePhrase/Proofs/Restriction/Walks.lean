import Mathlib.Data.List.Pairwise
import TimePhrase.Proofs.Restriction.Joined
import TimePhrase.Proofs.Restriction.Removal

/-!
# The order of the walk

A walk gathers a span into the one that is pending, so what it gathers depends on its order: a span
apart from two neighbours that is visited between them makes two cuts of these, and the characters
between them are left. Where a walk leaves no two such cuts, its cuts cover the spans and what
stands between neighbours, whatever the order. Walking from the beginning of the text to its end
never leaves any.

* `nearby`, `GathersNearby`  neighbours, and walks that gather them
* `covered_gather_iff`  the bytes that such a walk cuts
* `gathersNearby_sortBy`  the walk along the text is one
* `removeSpans_of_perm`  all such walks remove the same
* `removeSpans_ne_of_perm`  other walks do not
-/

namespace TimePhrase.Restriction

/-- Whether two spans stand apart, with nothing but trimmed characters between them. -/
def nearby (text : Text) (s t : Span) : Bool :=
  (s.stop < t.start || t.stop < s.start) && (gap text s t).all isTrimmed

/-- The spans that a walk visits: those that are not empty. -/
def visited (spans : List Span) : List Span := spans.filter fun s => 0 < s.len

/-- Whether a walk gathers what is nearby: no two of the cuts that it makes have nothing but trimmed
    characters between them. -/
def GathersNearby (text : Text) (spans : List Span) : Prop :=
  (gather text none (visited spans)).Pairwise fun s t => nearby text s t = false

instance (text : Text) (spans : List Span) : Decidable (GathersNearby text spans) :=
  inferInstanceAs (Decidable (List.Pairwise _ _))

variable {text : Text} {s t : Span}

/-! ## Neighbours -/

/-- A slice tells of the characters that begin in it. -/
theorem all_slice_iff {a b : Nat} (ha : text.IsBoundary a) (p : Char → Bool) :
    (text.slice a b).all p = true ↔
      ∀ x ∈ text.placed 0, a ≤ x.1 → x.1 < b → p x.2 = true := by
  have hchars : text.slice a b =
      ((text.placed 0).filter fun x => decide (a ≤ x.1 ∧ x.1 < b)).map Prod.snd := by
    rw [← Text.placed_slice ha, Text.map_snd_placed]
  rw [hchars, List.all_map, List.all_eq_true]
  simp only [List.mem_filter, decide_eq_true_eq, Function.comp_apply, and_imp]

theorem nearby_comm (text : Text) (s t : Span) : nearby text s t = nearby text t s := by
  have hs := s.start_le_stop
  have ht := t.start_le_stop
  by_cases hst : s.stop < t.start
  · simp only [nearby, gap, if_pos hst, if_neg (show ¬ t.stop < s.start by omega)]
    rw [Bool.or_comm]
  · by_cases hts : t.stop < s.start
    · simp only [nearby, gap, if_neg hst, if_pos hts]
      rw [Bool.or_comm]
    · simp [nearby, hst, hts]

/-- Two spans in order are neighbours if the characters between them are trimmed characters. -/
theorem nearby_iff (hs : s.Aligned text) (hst : s.stop < t.start) : nearby text s t = true ↔
    ∀ x ∈ text.placed 0, s.stop ≤ x.1 → x.1 < t.start → isTrimmed x.2 = true := by
  simp only [nearby, gap, hst, decide_true, Bool.true_or, Bool.true_and]
  exact all_slice_iff hs.stop isTrimmed

theorem contiguous_iff : contiguous text s t = true ↔
    (s.start ≤ t.stop ∧ t.start ≤ s.stop) ∨ nearby text s t = true := by
  by_cases hmeet : s.start ≤ t.stop ∧ t.start ≤ s.stop
  · simp [contiguous, hmeet]
  · have hapart : s.stop < t.start ∨ t.stop < s.start := by omega
    simp only [contiguous, nearby, Bool.or_eq_true, Bool.and_eq_true, decide_eq_true_eq, hmeet,
      hapart, false_or, true_and]

/-! ## What any walk gathers -/

/-- A span that has been made from some spans and from characters between neighbours. -/
structure Grown (text : Text) (spans : List Span) (p : Span) : Prop where
  pos : p.start < p.stop
  start : ∃ s ∈ spans, s.start = p.start
  stop : ∃ s ∈ spans, s.stop = p.stop
  holds : ∀ byte, p.start ≤ byte → byte < p.stop → covered spans byte = true ∨
    ∃ s ∈ spans, ∃ t ∈ spans, nearby text s t = true ∧ s.stop ≤ byte ∧ byte < t.start

theorem Grown.of_mem {spans : List Span} (hs : s ∈ spans) (hpos : 0 < s.len) :
    Grown text spans s where
  pos := Nat.lt_add_of_pos_right hpos
  start := ⟨s, hs, rfl⟩
  stop := ⟨s, hs, rfl⟩
  holds _ h₁ h₂ := .inl (covered_eq_true.mpr ⟨s, hs, h₁, h₂⟩)

/-- Neighbours that end and begin where two other spans do are found among these. -/
theorem nearby_congr {u v : Span} (hs : s.Aligned text) (hst : s.stop < t.start)
    (hu : u.Aligned text) (h : u.stop = s.stop) (h' : v.start = t.start) :
    nearby text u v = nearby text s t := by
  rw [Bool.eq_iff_iff, nearby_iff hu (by omega), nearby_iff hs hst, h, h']

/-- A span that grows over another one begins where one of them does. -/
theorem exists_start_cover {l : List Span} (hs : ∃ u ∈ l, u.start = s.start)
    (ht : ∃ u ∈ l, u.start = t.start) : ∃ u ∈ l, u.start = (s.cover t).start := by
  rw [Span.start_cover]
  rcases Nat.le_total s.start t.start with hle | hle
  · rwa [Nat.min_eq_left hle]
  · rwa [Nat.min_eq_right hle]

theorem Grown.cover {spans : List Span} {p : Span} (hal : ∀ s ∈ spans, s.Aligned text)
    (hpal : p.Aligned text) (hp : Grown text spans p) (hs : s ∈ spans)
    (h : contiguous text s p = true) : Grown text spans (p.cover s) where
  pos := by
    have := hp.pos
    rw [Span.start_cover, Span.stop_cover]
    omega
  start := exists_start_cover hp.start ⟨s, hs, rfl⟩
  stop := by
    rw [Span.stop_cover]
    rcases Nat.le_total p.stop s.stop with hle | hle
    · rw [Nat.max_eq_right hle]
      exact ⟨s, hs, rfl⟩
    · rw [Nat.max_eq_left hle]
      exact hp.stop
  holds byte h₁ h₂ := by
    rw [Span.start_cover] at h₁
    rw [Span.stop_cover] at h₂
    by_cases hpb : p.start ≤ byte ∧ byte < p.stop
    · exact hp.holds byte hpb.1 hpb.2
    by_cases hsb : s.start ≤ byte ∧ byte < s.stop
    · exact .inl (covered_eq_true.mpr ⟨s, hs, hsb⟩)
    -- The byte stands between the two, whichever comes first.
    rcases contiguous_iff.mp h with hmeet | hnear
    · omega
    · obtain ⟨u, hu, hustart⟩ := hp.start
      obtain ⟨v, hv, hvstop⟩ := hp.stop
      by_cases hsp : s.stop < p.start
      · refine .inr ⟨s, hs, u, hu, ?_, by omega, by omega⟩
        rwa [nearby_congr (hal s hs) hsp (hal s hs) rfl hustart]
      · refine .inr ⟨v, hv, s, hs, ?_, by omega, by omega⟩
        rw [nearby_comm] at hnear
        rwa [nearby_congr hpal (by omega) (hal v hv) hvstop rfl]

/-- Every cut of a walk has been made from spans and from characters between neighbours, by induction
    on the walk. -/
theorem grown_gather {spans walk : List Span} {p : Span}
    (hspans : ∀ s ∈ spans, s.Aligned text ∧ 0 < s.len) (hwalk : ∀ s ∈ walk, s ∈ spans)
    (hpal : p.Aligned text) (hp : Grown text spans p) :
    ∀ c ∈ gather text (some p) walk, Grown text spans c := by
  induction walk generalizing p with
  | nil => simpa [gather] using hp
  | cons s r ih =>
    obtain ⟨hs, hr⟩ := List.forall_mem_cons.mp hwalk
    obtain ⟨hal, hpos⟩ := hspans s hs
    simp only [gather, decision]
    by_cases hc : contiguous text s p = true
    · simp only [hc, if_true]
      exact ih hr (Span.aligned_cover hpal hal) (hp.cover (fun u hu => (hspans u hu).1) hpal hs hc)
    · simp only [hc]
      exact List.forall_mem_cons.mpr ⟨hp, ih hr hal (.of_mem hs hpos)⟩

section Walk

variable {spans : List Span} (h : ∀ s ∈ spans, s.Aligned text)

theorem mem_visited {spans : List Span} : s ∈ visited spans ↔ s ∈ spans ∧ 0 < s.len := by
  rw [visited, List.mem_filter, decide_eq_true_eq]

include h

theorem aligned_visited : ∀ s ∈ visited spans, s.Aligned text :=
  fun s hs => h s (mem_visited.mp hs).1

/-- The cuts of a walk. -/
theorem grown_of_mem_gather :
    ∀ c ∈ gather text none (visited spans), Grown text (visited spans) c := by
  have hall : ∀ s ∈ visited spans, s.Aligned text ∧ 0 < s.len :=
    fun s hs => ⟨aligned_visited h s hs, (mem_visited.mp hs).2⟩
  revert hall
  cases visited spans with
  | nil => simp [gather]
  | cons s r =>
    intro hall
    exact grown_gather hall (fun u hu => List.mem_cons_of_mem s hu) (hall s List.mem_cons_self).1
      (.of_mem List.mem_cons_self (hall s List.mem_cons_self).2)

/-- Without neighbours there is nothing to gather. -/
theorem gathersNearby_of_not_nearby
    (hnone : ∀ s ∈ visited spans, ∀ t ∈ visited spans, nearby text s t = false) :
    GathersNearby text spans := by
  have hgrown := grown_of_mem_gather h
  have hal := (covers_gather none (aligned_visited h)).aligned
  have hlt {c d : Span} (hc : c ∈ gather text none (visited spans))
      (hd : d ∈ gather text none (visited spans)) (hcd : c.stop < d.start) :
      nearby text c d = false := by
    obtain ⟨s, hs, hstop⟩ := (hgrown c hc).stop
    obtain ⟨t, ht, hstart⟩ := (hgrown d hd).start
    rw [← nearby_congr (hal c hc) hcd (aligned_visited h s hs) hstop hstart]
    exact hnone s hs t ht
  refine List.pairwise_of_forall_mem_list fun c hc d hd => ?_
  by_cases hcd : c.stop < d.start
  · exact hlt hc hd hcd
  · by_cases hdc : d.stop < c.start
    · rw [nearby_comm]
      exact hlt hd hc hdc
    · simp [nearby, hcd, hdc]

end Walk

/-! ## Walks that gather what is nearby -/

section Gathers

variable {spans : List Span} (h : ∀ s ∈ spans, s.Aligned text) (hg : GathersNearby text spans)

include h hg

/-- The cuts that two contiguous spans are in meet. -/
theorem meet_of_contiguous {c d : Span} (hc : c ∈ gather text none (visited spans))
    (hd : d ∈ gather text none (visited spans)) (hsc : c.start ≤ s.start ∧ s.stop ≤ c.stop)
    (htd : d.start ≤ t.start ∧ t.stop ≤ d.stop) (hs : s ∈ visited spans) (ht : t ∈ visited spans)
    (hst : contiguous text s t = true) : c.start ≤ d.stop ∧ d.start ≤ c.stop := by
  have hal := (covers_gather none (aligned_visited h)).aligned
  have hs₀ := s.start_le_stop
  have ht₀ := t.start_le_stop
  have hsymm : Std.Symm fun x y => nearby text x y = false := ⟨fun x y hxy => by rwa [nearby_comm]⟩
  have hself (x : Span) : nearby text x x = false := by
    have := x.start_le_stop
    simp only [nearby, show ¬ x.stop < x.start by omega, decide_false, Bool.or_self, Bool.false_and]
  have hnot : nearby text c d = false := List.Pairwise.forall_of_forall (fun x _ => hself x) hg hc hd
  rcases contiguous_iff.mp hst with hmeet | hnear
  · omega
  · -- Between cuts that stand apart there would be trimmed characters only.
    rw [← Bool.not_eq_true] at hnot
    refine Decidable.byContradiction fun hapart => ?_
    by_cases hcd : c.stop < d.start
    · refine hnot ((nearby_iff (hal c hc) hcd).mpr fun x hx h₁ h₂ => ?_)
      exact (nearby_iff (aligned_visited h s hs) (by omega)).mp hnear x hx (by omega) (by omega)
    · have hdc : d.stop < c.start := by omega
      rw [nearby_comm] at hnear hnot
      refine hnot ((nearby_iff (hal d hd) hdc).mpr fun x hx h₁ h₂ => ?_)
      exact (nearby_iff (aligned_visited h t ht) (by omega)).mp hnear x hx (by omega) (by omega)

/-- The walk cuts the spans and what stands between neighbours, and nothing else. -/
theorem covered_gather_iff (byte : Nat) :
    covered (gather text none (visited spans)) byte = true ↔ covered (visited spans) byte = true ∨
      ∃ s ∈ visited spans, ∃ t ∈ visited spans,
        nearby text s t = true ∧ s.stop ≤ byte ∧ byte < t.start := by
  have hcov := covers_gather none (aligned_visited h)
  constructor
  · intro hb
    obtain ⟨c, hc, h₁, h₂⟩ := covered_eq_true.mp hb
    exact (grown_of_mem_gather h c hc).holds byte h₁ h₂
  · rintro (hb | ⟨s, hs, t, ht, hnear, h₁, h₂⟩)
    · exact hcov.covered_of_covered hb
    · obtain ⟨c, hc, hsc⟩ := hcov.within s hs
      obtain ⟨d, hd, htd⟩ := hcov.within t ht
      have hmeet := meet_of_contiguous h hg hc hd hsc htd hs ht (contiguous_iff.mpr (.inr hnear))
      have hs₀ := s.start_le_stop
      have ht₀ := t.start_le_stop
      by_cases hbc : byte < c.stop
      · exact covered_eq_true.mpr ⟨c, hc, by omega, hbc⟩
      · exact covered_eq_true.mpr ⟨d, hd, by omega, by omega⟩

omit h hg in
/-- Of spans apart from each other no two meet. -/
theorem eq_of_meet {l : List Span} (hp : l.Pairwise fun a b => a.stop < b.start) (hs : s ∈ l)
    (ht : t ∈ l) (h₁ : s.start ≤ t.stop) (h₂ : t.start ≤ s.stop) : s = t := by
  induction hp with
  | nil => exact absurd hs List.not_mem_nil
  | cons hlt _ ih =>
    rcases List.mem_cons.mp hs with rfl | hs'
    · rcases List.mem_cons.mp ht with rfl | ht'
      · rfl
      · have := hlt t ht'
        omega
    · rcases List.mem_cons.mp ht with rfl | ht'
      · have := hlt s hs'
        omega
      · exact ih hs' ht'

/-- Two contiguous spans are in one cut, with all that stands between them. -/
theorem exists_cut_of_contiguous (hs : s ∈ visited spans) (ht : t ∈ visited spans)
    (hst : contiguous text s t = true) : ∃ cut ∈ planCuts text spans,
      (cut.start ≤ s.start ∧ s.stop ≤ cut.stop) ∧ cut.start ≤ t.start ∧ t.stop ≤ cut.stop := by
  have hcov := covers_gather none (aligned_visited h)
  obtain ⟨hsettle, hpair⟩ := covers_settle hcov.aligned
  obtain ⟨c, hc, hsc⟩ := hcov.within s hs
  obtain ⟨d, hd, htd⟩ := hcov.within t ht
  obtain ⟨cut, hcut, hcc⟩ := hsettle.within c hc
  obtain ⟨cut', hcut', hdc⟩ := hsettle.within d hd
  have hmeet := meet_of_contiguous h hg hc hd hsc htd hs ht hst
  have hc₀ := c.start_le_stop
  have hd₀ := d.start_le_stop
  obtain rfl := eq_of_meet hpair hcut hcut' (by omega) (by omega)
  exact ⟨cut, hcut, by omega, by omega⟩

end Gathers

/-! ## The walk along the text -/

/-- Spans that come in the order of their starts leave no neighbours: what a span has been apart from
    stands in front of every later one. -/
theorem pairwise_gather {p : Span} {walk : List Span} (hal : ∀ s ∈ p :: walk, s.Aligned text)
    (ho : Ordered (p :: walk)) :
    (∀ c ∈ gather text (some p) walk, p.start ≤ c.start) ∧
      (gather text (some p) walk).Pairwise fun s t => nearby text s t = false := by
  induction walk generalizing p with
  | nil => simp [gather]
  | cons s r ih =>
    obtain ⟨hp, hs, hr⟩ : p.Aligned text ∧ s.Aligned text ∧ ∀ s ∈ r, s.Aligned text := by
      simpa using hal
    obtain ⟨hps, hor⟩ := List.pairwise_cons.mp ho
    have hle : p.start ≤ s.start := hps s List.mem_cons_self
    simp only [gather, decision]
    by_cases hc : contiguous text s p = true
    · simp only [hc, if_true]
      -- What is pending grows, and still begins before all that comes.
      obtain ⟨hstart, hpair⟩ := ih (List.forall_mem_cons.mpr ⟨Span.aligned_cover hp hs, hr⟩)
        (ordered_cover ho)
      refine ⟨fun c hc => ?_, hpair⟩
      have := hstart c hc
      rw [Span.start_cover] at this
      omega
    · simp only [hc]
      obtain ⟨hstart, hpair⟩ := ih (List.forall_mem_cons.mpr ⟨hs, hr⟩) hor
      have hs₀ := s.start_le_stop
      have hp₀ := p.start_le_stop
      refine ⟨List.forall_mem_cons.mpr ⟨Nat.le_refl _, fun c hc => ?_⟩,
        List.pairwise_cons.mpr ⟨fun c hcmem => ?_, hpair⟩⟩
      · exact Nat.le_trans hle (hstart c hc)
      · have hsc := hstart c hcmem
        have hc₀ := c.start_le_stop
        rw [contiguous_iff, nearby_comm, not_or] at hc
        rw [← Bool.not_eq_true]
        intro hnear
        -- The span that ended the cut stands between it and the later one.
        refine hc.2 ((nearby_iff hp (by omega)).mpr fun x hx h₁ h₂ => ?_)
        exact (nearby_iff hp (by omega)).mp hnear x hx h₁ (by omega)

theorem gathersNearby_sortBy {spans : List Span} (h : ∀ s ∈ spans, s.Aligned text) :
    GathersNearby text (sortBy Span.start spans) := by
  have hperm := sortBy_perm Span.start spans
  have hal := aligned_visited fun s hs => h s (hperm.mem_iff.mp hs)
  have ho : Ordered (visited (sortBy Span.start spans)) :=
    (pairwise_sortBy Span.start spans).sublist List.filter_sublist
  rw [GathersNearby]
  revert hal ho
  cases visited (sortBy Span.start spans) with
  | nil => simp [gather]
  | cons s r => exact fun hal ho => (pairwise_gather hal ho).2

/-! ## Any order -/

theorem planCuts_of_perm {spans spans' : List Span} (h : ∀ s ∈ spans, s.Aligned text)
    (hp : spans.Perm spans') (hg : GathersNearby text spans) (hg' : GathersNearby text spans') :
    planCuts text spans = planCuts text spans' := by
  have h' : ∀ s ∈ spans', s.Aligned text := fun s hs => h s (hp.mem_iff.mpr hs)
  have hmem (s : Span) : s ∈ visited spans ↔ s ∈ visited spans' := (hp.filter _).mem_iff
  have hfull {l : List Span} (hl : ∀ s ∈ l, s.Aligned text) :
      ∀ c ∈ gather text none (visited l), c.Aligned text ∧ 0 < c.len := by
    intro c hc
    refine ⟨(covers_gather none (aligned_visited hl)).aligned c hc, ?_⟩
    have := (grown_of_mem_gather hl c hc).pos
    simp only [Span.stop] at this
    omega
  refine settle_congr (hfull h) (hfull h') fun byte => ?_
  show covered (gather text none (visited spans)) byte =
    covered (gather text none (visited spans')) byte
  rw [Bool.eq_iff_iff, covered_gather_iff h hg, covered_gather_iff h' hg', covered_eq_true,
    covered_eq_true]
  simp only [hmem]

/-- Walks that gather what is nearby remove the same from a text, whatever the order of the spans,
    and two contiguous spans with all that stands between them. The walk along the text is such a
    walk, and without neighbours every walk is. Any two walks leave the same but for gap
    characters. -/
theorem removeSpans_of_perm {text : Text} {spans spans' : List Span}
    (h : ∀ s ∈ spans, s.Aligned text) (hp : spans.Perm spans') :
    (GathersNearby text spans → GathersNearby text spans' →
      removeSpans text spans = removeSpans text spans') ∧
    (GathersNearby text spans → ∀ s ∈ spans, ∀ t ∈ spans, 0 < s.len → 0 < t.len →
      contiguous text s t = true → ∃ cut ∈ planCuts text spans,
        (cut.start ≤ s.start ∧ s.stop ≤ cut.stop) ∧ cut.start ≤ t.start ∧ t.stop ≤ cut.stop) ∧
    GathersNearby text (sortBy Span.start spans) ∧
    ((∀ s ∈ spans, ∀ t ∈ spans, nearby text s t = false) → GathersNearby text spans) ∧
    (removeSpans text spans).value.filter (fun c => !isGap c) =
      (removeSpans text spans').value.filter (fun c => !isGap c) := by
  have h' : ∀ s ∈ spans', s.Aligned text := fun s hs => h s (hp.mem_iff.mpr hs)
  refine ⟨fun hg hg' => ?_, fun hg s hs t ht hs₀ ht₀ hst => ?_, gathersNearby_sortBy h,
    fun hnone => ?_, ?_⟩
  · simp only [removeSpans, planCuts_of_perm h hp hg hg']
  · exact exists_cut_of_contiguous h hg (mem_visited.mpr ⟨hs, hs₀⟩) (mem_visited.mpr ⟨ht, ht₀⟩) hst
  · exact gathersNearby_of_not_nearby h fun s hs t ht =>
      hnone s (mem_visited.mp hs).1 t (mem_visited.mp ht).1
  · have hcovered (byte : Nat) : covered spans byte = covered spans' byte := hp.any_eq
    rw [filter_value_eq_outside h, filter_value_eq_outside h']
    simp only [outside, kept, hcovered]

/-- Two walks back and forth, with a comma between two of the spans: nothing but `Z X Y` is left of
    `Z aa , bb X cc Y`. -/
theorem removeSpans_of_perm_neighbours :
    let text : Text := "Z aa , bb X cc Y".toList
    (∀ s ∈ [(⟨12, 2⟩ : Span), ⟨7, 2⟩, ⟨2, 2⟩], s.Aligned text) ∧
      [(⟨12, 2⟩ : Span), ⟨7, 2⟩, ⟨2, 2⟩].Perm [⟨2, 2⟩, ⟨7, 2⟩, ⟨12, 2⟩] ∧
      GathersNearby text [⟨12, 2⟩, ⟨7, 2⟩, ⟨2, 2⟩] ∧ GathersNearby text [⟨2, 2⟩, ⟨7, 2⟩, ⟨12, 2⟩] ∧
      removeSpans text [⟨12, 2⟩, ⟨7, 2⟩, ⟨2, 2⟩] = removeSpans text [⟨2, 2⟩, ⟨7, 2⟩, ⟨12, 2⟩] ∧
      (removeSpans text [⟨12, 2⟩, ⟨7, 2⟩, ⟨2, 2⟩]).value = "Z X Y" ∧
      ∃ cut ∈ planCuts text [⟨12, 2⟩, ⟨7, 2⟩, ⟨2, 2⟩],
        (cut.start ≤ 2 ∧ 4 ≤ cut.stop) ∧ cut.start ≤ 7 ∧ 9 ≤ cut.stop := by
  intro text
  have h : ∀ s ∈ [(⟨12, 2⟩ : Span), ⟨7, 2⟩, ⟨2, 2⟩], s.Aligned text := by decide
  have hp : [(⟨12, 2⟩ : Span), ⟨7, 2⟩, ⟨2, 2⟩].Perm [⟨2, 2⟩, ⟨7, 2⟩, ⟨12, 2⟩] := by decide
  have hg : GathersNearby text [⟨12, 2⟩, ⟨7, 2⟩, ⟨2, 2⟩] := by decide
  have hg' : GathersNearby text [⟨2, 2⟩, ⟨7, 2⟩, ⟨12, 2⟩] := by decide
  obtain ⟨hsame, hone, -⟩ := removeSpans_of_perm h hp
  exact ⟨h, hp, hg, hg', hsame hg hg', by decide, hone hg ⟨2, 2⟩ (by decide) ⟨7, 2⟩ (by decide)
    (by decide) (by decide) (by decide)⟩

/-- A span visited between two neighbours keeps them apart: the comma between them is left, and the
    walk along the text removes it. -/
theorem removeSpans_ne_of_perm :
    let text : Text := "Z aa , bb X cc Y".toList
    (∀ s ∈ [(⟨2, 2⟩ : Span), ⟨12, 2⟩, ⟨7, 2⟩], s.Aligned text) ∧
      [(⟨2, 2⟩ : Span), ⟨12, 2⟩, ⟨7, 2⟩].Perm [⟨2, 2⟩, ⟨7, 2⟩, ⟨12, 2⟩] ∧
      removeSpans text [⟨2, 2⟩, ⟨12, 2⟩, ⟨7, 2⟩] = ⟨"Z , X Y", 0⟩ ∧
      removeSpans text [⟨2, 2⟩, ⟨7, 2⟩, ⟨12, 2⟩] = ⟨"Z X Y", 0⟩ ∧
      removeSpans text [⟨2, 2⟩, ⟨12, 2⟩, ⟨7, 2⟩] ≠ removeSpans text [⟨2, 2⟩, ⟨7, 2⟩, ⟨12, 2⟩] := by
  decide

end TimePhrase.Restriction
