import TimePhrase.Proofs.Restriction.Cuts

/-!
# Cuts and the bytes they cover

Putting cuts in order forgets how they were made: what comes out depends on nothing but the bytes
that they cover. Joining cuts that meet, without stretching any, gives the longest runs of these
bytes, and stretching the cuts on the way makes no difference to what is joined.

* `stretch_cover`  a cut may be stretched before or after it grows
* `settle_eq`  cuts may be joined before they are stretched
* `eq_of_covered`  spans apart from each other are the runs of the bytes they cover
* `settle_congr`  cuts that cover the same bytes are settled alike
-/

namespace TimePhrase

theorem Span.eq_of_stop_eq {s t : Span} (h : s.start = t.start) (h' : s.stop = t.stop) : s = t := by
  obtain ⟨start, len⟩ := s
  obtain ⟨start', len'⟩ := t
  simp only [stop] at h h'
  obtain rfl : start = start' := h
  obtain rfl : len = len' := by omega
  rfl

namespace Restriction

variable {text : Text} {s t c last : Span} {r : List Span}

/-! ## Stretching -/

/-- Number of bytes of the blanks at a byte. -/
def blanksAt (text : Text) (byte : Nat) : Nat :=
  Text.byteSize ((text.dropBytes byte).takeWhile isBlank)

/-- From every byte of a run of blanks the run ends at the same byte. -/
theorem add_blanksAt {m n : Nat} (hm : text.IsBoundary m) (hn : text.IsBoundary n) (hmn : m ≤ n)
    (hle : n ≤ m + blanksAt text m) : n + blanksAt text n = m + blanksAt text m := by
  obtain ⟨a, b, w, rfl, rfl, rfl⟩ := Text.exists_append_of_isBoundary hm hn hmn
  rw [List.append_assoc, blanksAt, Text.dropBytes_byteSize_append] at hle
  rw [blanksAt, blanksAt, Text.dropBytes_byteSize_append, List.append_assoc,
    Text.dropBytes_byteSize_append]
  -- The bytes between the two are blanks.
  have hsplit : b ++ w = (b ++ w).takeWhile isBlank ++ (b ++ w).dropWhile isBlank :=
    List.takeWhile_append_dropWhile.symm
  obtain ⟨e, he, -⟩ := Text.exists_append_of_byteSize_le hsplit
    (by rw [Text.byteSize_append] at hle; omega)
  have hblank : ∀ d ∈ b, isBlank d = true := fun d hd =>
    List.all_eq_true.mp List.all_takeWhile d (he ▸ List.mem_append_left e hd)
  rw [List.takeWhile_append_of_pos hblank, Text.byteSize_append, Text.byteSize_append]
  omega

theorem aligned_stretch (h : s.Aligned text) : (stretch text s).Aligned text :=
  (covers_stretch h).aligned _ (List.mem_singleton_self _)

theorem stop_le_stop_stretch (text : Text) (s : Span) : s.stop ≤ (stretch text s).stop := by
  unfold stretch
  split
  · simp only [Span.stop]
    omega
  · exact Nat.le_refl _

/-- A cut that grows over a later one may have been stretched before. -/
theorem stretch_cover (hs : s.Aligned text) (ht : t.Aligned text) (hst : s.start ≤ t.start) :
    stretch text ((stretch text s).cover t) = stretch text (s.cover t) := by
  by_cases hblank : blankBefore text s.start = true
  · have hstretch (u : Span) (hu : u.start = s.start) : (stretch text u).start = s.start ∧
        (stretch text u).stop = u.stop + blanksAt text u.stop := by
      rw [stretch, hu, if_pos hblank]
      simp only [Span.stop, blanksAt, true_and]
      omega
    have hstart (u : Span) (hu : u.start = s.start) : (u.cover t).start = s.start := by
      rw [Span.start_cover, hu]
      exact Nat.min_eq_left hst
    obtain ⟨hfirst, hstop⟩ := hstretch s rfl
    obtain ⟨h₁, h₂⟩ := hstretch _ (hstart s rfl)
    obtain ⟨h₃, h₄⟩ := hstretch _ (hstart _ hfirst)
    refine Span.eq_of_stop_eq (h₃.trans h₁.symm) ?_
    rw [h₄, h₂, Span.stop_cover, Span.stop_cover, hstop]
    by_cases hle : t.stop ≤ s.stop + blanksAt text s.stop
    · -- Both end where the blanks behind the cut do.
      have hrun := (aligned_stretch hs).stop
      rw [hstop] at hrun
      rw [Nat.max_eq_left hle,
        add_blanksAt hs.stop hrun (Nat.le_add_right _ _) (Nat.le_refl _),
        add_blanksAt hs.stop (hs.stop.max ht.stop) (Nat.le_max_left _ _) (by omega)]
    · rw [Nat.max_eq_right (by omega), Nat.max_eq_right (by omega)]
  · have hsame : stretch text s = s := by rw [stretch, if_neg hblank]
    rw [hsame]

/-! ## Joining -/

/-- Joins spans that meet, after the span `last`. The spans come in the order of their starts. -/
def joinAfter : Span → List Span → List Span
  | last, [] => [last]
  | last, c :: r => if c.start ≤ last.stop then joinAfter (last.cover c) r else last :: joinAfter c r

/-- Puts spans in order and joins those that meet. -/
def joined (spans : List Span) : List Span :=
  match sortBy Span.start spans with
  | [] => []
  | c :: r => joinAfter c r

theorem covered_cons (s : Span) (l : List Span) (byte : Nat) :
    covered (s :: l) byte = (s.holds byte || covered l byte) := rfl

/-- A span grown over one that it meets holds the bytes of both. -/
theorem holds_cover (h₁ : s.start ≤ t.stop) (h₂ : t.start ≤ s.stop) (byte : Nat) :
    (s.cover t).holds byte = (s.holds byte || t.holds byte) := by
  have hs := s.start_le_stop
  have ht := t.start_le_stop
  rw [Bool.eq_iff_iff, Bool.or_eq_true, Span.holds_iff, Span.holds_iff, Span.holds_iff,
    Span.start_cover, Span.stop_cover]
  omega

theorem cover_assoc (s t u : Span) : (s.cover t).cover u = s.cover (t.cover u) :=
  Span.eq_of_stop_eq (Nat.min_assoc ..)
    (by simp only [Span.stop_cover, Nat.max_assoc])

theorem cover_self (s : Span) : s.cover s = s :=
  Span.eq_of_stop_eq (Nat.min_self _) (by rw [Span.stop_cover, Nat.max_self])

/-- Joining keeps the bytes, and something is left between two of the spans that come out. -/
theorem joinAfter_spec (ho : Ordered (last :: r)) (hpos : ∀ s ∈ last :: r, 0 < s.len) :
    (∀ byte, covered (joinAfter last r) byte = covered (last :: r) byte) ∧
      (joinAfter last r).Pairwise (fun a b => a.stop < b.start) ∧
      ∀ s ∈ joinAfter last r, last.start ≤ s.start ∧ 0 < s.len := by
  induction r generalizing last with
  | nil => exact ⟨fun _ => rfl, by simp [joinAfter], by simpa [joinAfter] using hpos⟩
  | cons c r ih =>
    obtain ⟨hl, hc, hr⟩ : 0 < last.len ∧ 0 < c.len ∧ ∀ s ∈ r, 0 < s.len := by simpa using hpos
    obtain ⟨hlc, hor⟩ := List.pairwise_cons.mp ho
    have hle : last.start ≤ c.start := hlc c List.mem_cons_self
    rw [joinAfter]
    split
    · rename_i hmeet
      have hstart : (last.cover c).start = last.start := by
        rw [Span.start_cover]
        exact Nat.min_eq_left hle
      have hlen : 0 < (last.cover c).len := by
        have hstop := Span.stop_cover last c
        simp only [Span.stop] at hstop
        omega
      obtain ⟨hcov, hpair, hfirst⟩ := ih (ordered_cover ho) (List.forall_mem_cons.mpr ⟨hlen, hr⟩)
      rw [hstart] at hfirst
      refine ⟨fun byte => ?_, hpair, hfirst⟩
      rw [hcov, covered_cons, covered_cons, covered_cons, ← Bool.or_assoc,
        holds_cover (Nat.le_trans hle c.start_le_stop) hmeet]
    · rename_i hapart
      obtain ⟨hcov, hpair, hfirst⟩ := ih hor (List.forall_mem_cons.mpr ⟨hc, hr⟩)
      refine ⟨fun byte => ?_, ?_, ?_⟩
      · rw [covered_cons, covered_cons, hcov]
      · refine List.pairwise_cons.mpr ⟨fun s hs => ?_, hpair⟩
        have := (hfirst s hs).1
        omega
      · refine List.forall_mem_cons.mpr ⟨⟨Nat.le_refl _, hl⟩, fun s hs => ?_⟩
        obtain ⟨h₁, h₂⟩ := hfirst s hs
        exact ⟨Nat.le_trans hle h₁, h₂⟩

/-- What is joined to a stretched cut may be joined before, by induction on the spans that come
    after the cut. The cut `p` stands for all that has been joined to `c` so far. -/
theorem settleAfter_joinAfter {p : Span} (hp : p.Aligned text)
    (hal : ∀ s ∈ c :: r, s.Aligned text) (ho : Ordered (c :: r)) (hpc : p.start ≤ c.start)
    (hmeet : c.start ≤ p.stop) :
    ∃ j js, joinAfter c r = j :: js ∧ j.start = c.start ∧ c.stop ≤ j.stop ∧
      settleAfter text (some (stretch text (p.cover c))) r =
        settleAfter text (some (stretch text (p.cover j))) js := by
  induction r generalizing p c with
  | nil => exact ⟨c, [], rfl, rfl, Nat.le_refl _, rfl⟩
  | cons d r ih =>
    obtain ⟨hc, hd, hr⟩ : c.Aligned text ∧ d.Aligned text ∧ ∀ s ∈ r, s.Aligned text := by
      simpa using hal
    obtain ⟨hcd, hor⟩ := List.pairwise_cons.mp ho
    have hle : c.start ≤ d.start := hcd d List.mem_cons_self
    have hpcover := Span.aligned_cover hp hc
    have hreach := stop_le_stop_stretch text (p.cover c)
    have hstart : (p.cover c).start = p.start := by
      rw [Span.start_cover]
      exact Nat.min_eq_left hpc
    have hstop := Span.stop_cover p c
    rw [joinAfter]
    split
    · -- The next span meets this one, and what has been joined to this one as well.
      rename_i hmeet'
      have hstart' : (c.cover d).start = c.start := by
        rw [Span.start_cover]
        exact Nat.min_eq_left hle
      obtain ⟨j, js, hj, hjs, hstop', heq⟩ := ih hp
        (List.forall_mem_cons.mpr ⟨Span.aligned_cover hc hd, hr⟩) (ordered_cover ho)
        (by omega) (by omega)
      rw [Span.stop_cover] at hstop'
      refine ⟨j, js, hj, hjs.trans hstart', by omega, ?_⟩
      rw [settleAfter, if_pos (by omega), stretch_cover hpcover hd (by omega),
        cover_assoc, heq]
    · rename_i hapart
      -- The next span meets the stretched cut, or it begins another one.
      generalize hq : stretch text (p.cover c) = q at hreach
      have hqal : q.Aligned text := hq ▸ aligned_stretch hpcover
      have hqstart : q.start = p.start := by rw [← hq, start_stretch, hstart]
      by_cases hmeet' : d.start ≤ q.stop
      · obtain ⟨j, js, hj, hjs, -, heq⟩ := ih hqal (List.forall_mem_cons.mpr ⟨hd, hr⟩) hor
          (by omega) hmeet'
        refine ⟨c, j :: js, by rw [hj], rfl, Nat.le_refl _, ?_⟩
        rw [hq, settleAfter, settleAfter, if_pos hmeet', if_pos (by omega), heq]
      · obtain ⟨j, js, hj, hjs, hstop', heq⟩ := ih hd (List.forall_mem_cons.mpr ⟨hd, hr⟩) hor
          (Nat.le_refl _) d.start_le_stop
        have hdj : d.cover j = j := Span.eq_of_stop_eq (by rw [Span.start_cover]; omega)
          (by rw [Span.stop_cover]; omega)
        refine ⟨c, j :: js, by rw [hj], rfl, Nat.le_refl _, ?_⟩
        rw [cover_self, hdj] at heq
        rw [hq, settleAfter, settleAfter, if_neg hmeet', if_neg (by omega), heq]

/-- Cuts may be joined before they are stretched. -/
theorem settle_eq {cuts : List Span} (h : ∀ s ∈ cuts, s.Aligned text) :
    settle text cuts = settleAfter text none (joined cuts) := by
  have hal : ∀ s ∈ sortBy Span.start cuts, s.Aligned text :=
    fun s hs => h s ((sortBy_perm Span.start cuts).mem_iff.mp hs)
  have ho : Ordered (sortBy Span.start cuts) := pairwise_sortBy Span.start cuts
  unfold settle joined
  cases hsort : sortBy Span.start cuts with
  | nil => rfl
  | cons c r =>
    rw [hsort] at hal ho
    obtain ⟨j, js, hj, hstart, hstop, heq⟩ :=
      settleAfter_joinAfter (hal c List.mem_cons_self) hal ho
      (Nat.le_refl _) c.start_le_stop
    have hcj : c.cover j = j := Span.eq_of_stop_eq (by rw [Span.start_cover]; omega)
      (by rw [Span.stop_cover]; omega)
    rw [cover_self, hcj] at heq
    simp only [settleAfter, hj, heq]

/-- Joining keeps the bytes of all spans, and makes spans apart from each other. -/
theorem joined_spec {cuts : List Span} (hpos : ∀ s ∈ cuts, 0 < s.len) :
    (∀ byte, covered (joined cuts) byte = covered cuts byte) ∧
      (joined cuts).Pairwise (fun a b => a.stop < b.start) ∧ ∀ s ∈ joined cuts, 0 < s.len := by
  have hperm := sortBy_perm Span.start cuts
  have hsorted : ∀ s ∈ sortBy Span.start cuts, 0 < s.len := fun s hs => hpos s (hperm.mem_iff.mp hs)
  have hcov (byte : Nat) : covered (sortBy Span.start cuts) byte = covered cuts byte := hperm.any_eq
  have ho : Ordered (sortBy Span.start cuts) := pairwise_sortBy Span.start cuts
  unfold joined
  cases hsort : sortBy Span.start cuts with
  | nil =>
    rw [hsort] at hcov
    exact ⟨hcov, List.Pairwise.nil, by simp⟩
  | cons c r =>
    rw [hsort] at hsorted hcov ho
    obtain ⟨hjoin, hpair, hfirst⟩ := joinAfter_spec ho hsorted
    exact ⟨fun byte => (hjoin byte).trans (hcov byte), hpair, fun s hs => (hfirst s hs).2⟩

/-! ## Runs of bytes -/

/-- Spans in order, none of them empty, with something left between two of them. -/
structure Apart (l : List Span) : Prop where
  pos : ∀ s ∈ l, 0 < s.len
  pairwise : l.Pairwise fun a b => a.stop < b.start

namespace Apart

variable {l m : List Span}

theorem tail (h : Apart (s :: l)) : Apart l :=
  ⟨(List.forall_mem_cons.mp h.pos).2, (List.pairwise_cons.mp h.pairwise).2⟩

theorem covered_start (h : Apart (s :: l)) : covered (s :: l) s.start = true := by
  have := (List.forall_mem_cons.mp h.pos).1
  exact covered_eq_true.mpr ⟨s, List.mem_cons_self, Nat.le_refl _, by simp only [Span.stop]; omega⟩

theorem start_le (h : Apart (s :: l)) {byte : Nat} (hb : covered (s :: l) byte = true) :
    s.start ≤ byte := by
  obtain ⟨u, hu, h₁, -⟩ := covered_eq_true.mp hb
  rcases List.mem_cons.mp hu with rfl | hu
  · exact h₁
  · have := (List.pairwise_cons.mp h.pairwise).1 u hu
    have := s.start_le_stop
    omega

/-- The other spans begin behind the first one. -/
theorem stop_lt (h : Apart (s :: l)) {byte : Nat} (hb : covered l byte = true) : s.stop < byte := by
  obtain ⟨u, hu, h₁, -⟩ := covered_eq_true.mp hb
  have := (List.pairwise_cons.mp h.pairwise).1 u hu
  omega

/-- The first of the spans ends no later than another first span of the same bytes. -/
theorem stop_le (h : Apart (s :: l)) (hstart : s.start = t.start)
    (hm : ∀ byte, covered (t :: m) byte = true → covered (s :: l) byte = true) :
    t.stop ≤ s.stop := by
  refine Nat.le_of_not_lt fun hlt => ?_
  have hle := s.start_le_stop
  have hb := hm s.stop (covered_eq_true.mpr ⟨t, List.mem_cons_self, by omega, by omega⟩)
  rw [covered_cons, Bool.or_eq_true, Span.holds_iff] at hb
  rcases hb with ⟨-, hb⟩ | hb
  · omega
  · have := h.stop_lt hb
    omega

/-- Such spans are determined by the bytes that they cover, by induction on one of the lists: the
    first spans begin at the first byte and end at the first byte that is not covered. -/
theorem eq_of_covered (hl : Apart l) (hm : Apart m) (h : ∀ byte, covered l byte = covered m byte) :
    l = m := by
  induction l generalizing m with
  | nil =>
    cases m with
    | nil => rfl
    | cons t m =>
      have := hm.covered_start
      rw [← h] at this
      exact nomatch this
  | cons s l ih =>
    cases m with
    | nil =>
      have := hl.covered_start
      rw [h] at this
      exact nomatch this
    | cons t m =>
      have h₁ := hl.start_le ((h t.start).trans hm.covered_start)
      have h₂ := hm.start_le ((h s.start).symm.trans hl.covered_start)
      have hstart : s.start = t.start := by omega
      have h₃ := hl.stop_le hstart fun byte hb => (h byte).trans hb
      have h₄ := hm.stop_le hstart.symm fun byte hb => (h byte).symm.trans hb
      obtain rfl : s = t := Span.eq_of_stop_eq hstart (by omega)
      rw [ih hl.tail hm.tail fun byte => ?_]
      have hb := h byte
      rw [covered_cons, covered_cons] at hb
      -- A byte of the first span is not in the others.
      by_cases hs : s.holds byte = true
      · have hlt := (Span.holds_iff.mp hs).2
        have hl' : ¬ covered l byte = true := fun hc => by
          have := hl.stop_lt hc
          omega
        have hm' : ¬ covered m byte = true := fun hc => by
          have := hm.stop_lt hc
          omega
        rw [Bool.not_eq_true] at hl' hm'
        rw [hl', hm']
      · rw [Bool.not_eq_true] at hs
        rwa [hs, Bool.false_or, Bool.false_or] at hb

end Apart

theorem apart_joined {cuts : List Span} (hpos : ∀ s ∈ cuts, 0 < s.len) : Apart (joined cuts) :=
  ⟨(joined_spec hpos).2.2, (joined_spec hpos).2.1⟩

/-- Cuts that cover the same bytes are settled alike. -/
theorem settle_congr {l m : List Span} (hl : ∀ s ∈ l, s.Aligned text ∧ 0 < s.len)
    (hm : ∀ s ∈ m, s.Aligned text ∧ 0 < s.len) (h : ∀ byte, covered l byte = covered m byte) :
    settle text l = settle text m := by
  have hl₀ : ∀ s ∈ l, 0 < s.len := fun s hs => (hl s hs).2
  have hm₀ : ∀ s ∈ m, 0 < s.len := fun s hs => (hm s hs).2
  have hjoined : joined l = joined m := (apart_joined hl₀).eq_of_covered (apart_joined hm₀)
    fun byte => by rw [(joined_spec hl₀).1, (joined_spec hm₀).1, h]
  rw [settle_eq fun s hs => (hl s hs).1, settle_eq fun s hs => (hm s hs).1, hjoined]

end Restriction

end TimePhrase
