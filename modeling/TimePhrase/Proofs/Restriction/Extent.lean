import TimePhrase.Proofs.Restriction.Removal

/-!
# How far a value extends

The characters of a value need not stand side by side in the text it was cut out of. So the value
begins at its offset, but it ends as much further on as there are bytes cut out of its middle.

* `map_snd_survivors`  the surviving characters are the value
* `sourceByte_behind`  tracing a byte back over one cut
* `offset_eq`  the value begins where the first of them does
* `extent_eq`  how far the last one is from there
-/

namespace TimePhrase.Restriction

open Text

/-! ## Surviving characters -/

/-- Without the trimmed characters at both ends. -/
def trimPlaced (l : List (Nat × Char)) : List (Nat × Char) :=
  ((l.dropWhile fun x => isTrimmed x.2).reverse.dropWhile fun x => isTrimmed x.2).reverse

/-- The characters of the value that is left of a text, with the bytes they begin at. -/
def survivors (text : Text) (spans : List Span) : List (Nat × Char) :=
  trimPlaced (kept (planCuts text spans) 0 text)

/-- The byte after the last surviving character. -/
def extent (text : Text) (spans : List Span) : Nat :=
  match (survivors text spans).getLast? with
  | some x => x.1 + x.2.utf8Size
  | none => 0

/-- The bytes of the cuts between the first and the last surviving character. -/
def hidden (text : Text) (spans : List Span) : Nat :=
  byteSize (((text.placed 0).filter fun x =>
    covered (planCuts text spans) x.1 && decide ((removeSpans text spans).offset ≤ x.1)
      && decide (x.1 < extent text spans)).map Prod.snd)

theorem map_snd_trimPlaced (l : List (Nat × Char)) :
    (trimPlaced l).map Prod.snd = stripWhile isTrimmed (l.map Prod.snd) := by
  rw [stripWhile, dropEndWhile_eq_reverse, trimPlaced, List.dropWhile_map, ← List.map_reverse,
    List.dropWhile_map, ← List.map_reverse]
  rfl

theorem exists_trimPlaced (l : List (Nat × Char)) :
    ∃ r, l = (l.takeWhile fun x => isTrimmed x.2) ++ trimPlaced l ++ r := by
  generalize hd : (l.dropWhile fun x => isTrimmed x.2) = d
  have hr : d = trimPlaced l ++ (d.reverse.takeWhile fun x => isTrimmed x.2).reverse := by
    rw [trimPlaced, hd, ← List.reverse_append, List.takeWhile_append_dropWhile, List.reverse_reverse]
  refine ⟨(d.reverse.takeWhile fun x => isTrimmed x.2).reverse, ?_⟩
  rw [List.append_assoc, ← hr, ← hd, List.takeWhile_append_dropWhile]

variable {text : Text} {spans : List Span}

theorem survivors_sublist (text : Text) (spans : List Span) :
    (survivors text spans).Sublist (text.placed 0) := by
  obtain ⟨r, hr⟩ := exists_trimPlaced (kept (planCuts text spans) 0 text)
  refine List.Sublist.trans ?_ (List.filter_sublist (p := fun x =>
    !covered (planCuts text spans) x.1))
  rw [← kept, hr, ← survivors]
  exact (List.sublist_append_right _ _).trans (List.sublist_append_left _ r)

theorem pairwise_survivors (text : Text) (spans : List Span) :
    (survivors text spans).Pairwise fun x y => x.1 + x.2.utf8Size ≤ y.1 :=
  (pairwise_placed 0 text).sublist (survivors_sublist text spans)

/-- The surviving characters are the characters of the value. -/
theorem map_snd_survivors (h : ∀ s ∈ spans, s.Aligned text) :
    (survivors text spans).map Prod.snd = (removeSpans text spans).value := by
  rw [survivors, map_snd_trimPlaced, value_removeSpans h]
  rfl

theorem survivors_ne_nil (h : ∀ s ∈ spans, s.Aligned text)
    (hv : (removeSpans text spans).value ≠ []) : survivors text spans ≠ [] := by
  intro hnil
  rw [← map_snd_survivors h, hnil] at hv
  exact hv rfl

/-- The last character of the value stands in the text right before the end of its extent. -/
theorem last_survivor (h : ∀ s ∈ spans, s.Aligned text)
    (hv : (removeSpans text spans).value ≠ []) :
    ∃ x ∈ text.placed 0, (removeSpans text spans).value.getLast? = some x.2 ∧
      extent text spans = x.1 + x.2.utf8Size := by
  have hne := survivors_ne_nil h hv
  have hlast := List.getLast?_eq_some_getLast hne
  refine ⟨_, (survivors_sublist text spans).subset (List.getLast_mem hne), ?_, ?_⟩
  · rw [← map_snd_survivors h, List.getLast?_map, hlast]
    rfl
  · rw [extent, hlast]

/-! ## Tracing a byte back -/

/-- Behind the first cut, the others are stretches of what is behind it. -/
theorem isStretch_behind {c : Span} {cuts : List Span} {pos : Nat} {a b d : Text}
    (hc : c = ⟨pos + byteSize a, byteSize b⟩) (h : ∀ s ∈ cuts, s.IsStretch pos (a ++ b ++ d))
    (hcr : ∀ s ∈ cuts, c.stop < s.start) : ∀ s ∈ cuts, s.IsStretch c.stop d := by
  have hstop : c.stop = pos + byteSize (a ++ b) := by
    rw [Span.stop, hc, byteSize_append, Nat.add_assoc]
  intro s hs
  have hle := Nat.le_of_lt (hcr s hs)
  rw [hstop] at hle ⊢
  exact (h s hs).of_append_left hle

/-- A byte behind the first cut is moved over it. -/
theorem sourceByte_behind {c : Span} {pos : Nat} {a b : Text}
    (hc : c = ⟨pos + byteSize a, byteSize b⟩) (cuts : List Span) (n : Nat) :
    sourceByte (c :: cuts) (pos + (byteSize a + n)) = sourceByte cuts (c.stop + n) := by
  subst hc
  have hge : ¬ pos + (byteSize a + n) < pos + byteSize a := by omega
  have hbyte : pos + (byteSize a + n) + byteSize b = pos + byteSize a + byteSize b + n := by omega
  rw [sourceByte, if_neg hge, hbyte]
  rfl

/-- A byte of the text without the cuts, at which one of its characters begins, is traced back to
    where that stands in the text with them. -/
theorem sourceByte_kept {cuts : List Span} {pos : Nat} {t : Text}
    (h : ∀ s ∈ cuts, s.IsStretch pos t) (hp : cuts.Pairwise fun a b => a.stop < b.start)
    {l r : List (Nat × Char)} {x : Nat × Char} (hk : kept cuts pos t = l ++ x :: r) :
    sourceByte cuts (pos + byteSize (l.map Prod.snd)) = x.1 := by
  induction cuts generalizing pos t l with
  | nil =>
    rw [kept_eq_placed (by simp)] at hk
    exact (eq_append_of_placed_eq hk).1.symm
  | cons c cuts ih =>
    obtain ⟨hc, hr⟩ := List.forall_mem_cons.mp h
    obtain ⟨hcr, hpr⟩ := List.pairwise_cons.mp hp
    obtain ⟨a, b, d, rfl, hcut⟩ := hc
    rw [kept_cons hcut fun s hs => Nat.le_of_lt (hcr s hs)] at hk
    have hside : (∃ e, l = a.placed pos ++ e ∧ kept cuts c.stop d = e ++ x :: r) ∨
        ∃ e, a.placed pos = l ++ x :: e := by
      rcases List.append_eq_append_iff.mp hk with ⟨e, hl, he⟩ | ⟨e, hl, he⟩
      · exact .inl ⟨e, hl, he⟩
      · cases e with
        | nil => exact .inl ⟨[], by simp [hl], he.symm⟩
        | cons y e =>
          obtain ⟨rfl, -⟩ := List.cons.inj he
          exact .inr ⟨e, hl⟩
    rcases hside with ⟨e, rfl, he⟩ | ⟨e, he⟩
    · -- The character is behind the first cut.
      rw [List.map_append, map_snd_placed, byteSize_append, sourceByte_behind hcut]
      exact ih (isStretch_behind hcut hr hcr) hpr he
    · -- The character is in front of it.
      obtain ⟨hxa, ha⟩ := eq_append_of_placed_eq he
      have hstart : c.start = pos + byteSize a := by rw [hcut]
      have hsize := congrArg byteSize ha
      have := Char.utf8Size_pos x.2
      rw [byteSize_append, byteSize_cons] at hsize
      rw [sourceByte, if_pos (by omega), hxa]

/-- The value begins where the first surviving character does. -/
theorem offset_eq (h : ∀ s ∈ spans, s.Aligned text) {x : Nat × Char} {l : List (Nat × Char)}
    (hx : survivors text spans = x :: l) : (removeSpans text spans).offset = x.1 := by
  have hcuts := (covers_planCuts h).aligned
  have hpair := pairwise_planCuts h
  obtain ⟨r, hr⟩ := exists_trimPlaced (kept (planCuts text spans) 0 text)
  rw [← survivors, hx, List.append_assoc, List.cons_append] at hr
  have hsource := sourceByte_kept (fun s hs => Span.aligned_iff_isStretch.mp (hcuts s hs)) hpair hr
  rw [Nat.zero_add] at hsource
  rw [← hsource, removeSpans]
  simp only [removeCuts_eq_outside hcuts hpair, outside, List.takeWhile_map]
  rfl

/-! ## The end of a value -/

/-- Of characters that stand one behind the other, those from one of them up to another one are a
    part of the list. -/
theorem filter_between {a m b : List (Nat × Char)} {x y : Nat × Char}
    (hp : (a ++ (x :: m) ++ b).Pairwise fun x y => x.1 + x.2.utf8Size ≤ y.1)
    (hy : (x :: m).getLast? = some y) :
    (a ++ (x :: m) ++ b).filter
      (fun z => decide (x.1 ≤ z.1) && decide (z.1 < y.1 + y.2.utf8Size)) = x :: m := by
  obtain ⟨ham, -, hb⟩ := List.pairwise_append.mp hp
  obtain ⟨-, hm, ha⟩ := List.pairwise_append.mp ham
  obtain ⟨l, hl⟩ := List.getLast?_eq_some_iff.mp hy
  have hfirst : ∀ z ∈ x :: m, x.1 ≤ z.1 := by
    refine List.forall_mem_cons.mpr ⟨Nat.le_refl _, fun z hz => ?_⟩
    have := (List.pairwise_cons.mp hm).1 z hz
    omega
  have hlast : ∀ z ∈ x :: m, z.1 < y.1 + y.2.utf8Size := by
    intro z hz
    have := Char.utf8Size_pos y.2
    rw [hl] at hz hm
    rcases List.mem_append.mp hz with hz | hz
    · have := (List.pairwise_append.mp hm).2.2 z hz y List.mem_cons_self
      omega
    · obtain rfl := List.mem_singleton.mp hz
      omega
  have hymem : y ∈ x :: m := by simp [hl]
  rw [List.filter_append, List.filter_append, List.filter_eq_nil_iff.mpr, List.filter_eq_self.mpr,
    List.filter_eq_nil_iff.mpr, List.nil_append, List.append_nil]
  · intro z hz
    have := hb y (List.mem_append_right a hymem) z hz
    simp only [Bool.and_eq_true, decide_eq_true_eq]
    omega
  · intro z hz
    simp [hfirst z hz, hlast z hz]
  · intro z hz
    have := ha z hz x List.mem_cons_self
    have := Char.utf8Size_pos z.2
    simp only [Bool.and_eq_true, decide_eq_true_eq]
    omega

theorem byteSize_filter_add (p : Nat × Char → Bool) (l : List (Nat × Char)) :
    byteSize ((l.filter p).map Prod.snd) + byteSize ((l.filter fun x => !p x).map Prod.snd) =
      byteSize (l.map Prod.snd) := by
  induction l with
  | nil => rfl
  | cons x r ih =>
    rw [List.map_cons, byteSize_cons]
    cases hx : p x with
    | true =>
      rw [List.filter_cons_of_pos hx, List.filter_cons_of_neg (by simp [hx]), List.map_cons,
        byteSize_cons]
      omega
    | false =>
      rw [List.filter_cons_of_neg (by simp [hx]), List.filter_cons_of_pos (by simp [hx]),
        List.map_cons, byteSize_cons]
      omega

/-- The value ends as many bytes behind its offset as it has itself and are cut out of its
    middle. -/
theorem extent_eq (h : ∀ s ∈ spans, s.Aligned text) (hv : (removeSpans text spans).value ≠ []) :
    extent text spans = (removeSpans text spans).offset +
      byteSize (removeSpans text spans).value + hidden text spans := by
  obtain ⟨x, m, hxm⟩ := List.exists_cons_of_ne_nil (survivors_ne_nil h hv)
  have hoff := offset_eq h hxm
  obtain ⟨y, hy⟩ : ∃ y, (x :: m).getLast? = some y := ⟨_, List.getLast?_eq_some_getLast (by simp)⟩
  have hext : extent text spans = y.1 + y.2.utf8Size := by
    rw [extent, hxm, hy]
  have hmem : ∀ z ∈ x :: m, z ∈ text.placed 0 := fun z hz =>
    (survivors_sublist text spans).subset (hxm ▸ hz)
  have hymem : y ∈ x :: m := List.mem_of_getLast? hy
  obtain ⟨hx₁, -⟩ := isBoundary_of_mem_placed (hmem x List.mem_cons_self)
  obtain ⟨-, hy₂⟩ := isBoundary_of_mem_placed (hmem y hymem)
  have hle : x.1 ≤ y.1 + y.2.utf8Size := by
    rcases List.mem_cons.mp hymem with rfl | hym
    · omega
    · have hp := pairwise_survivors text spans
      rw [hxm] at hp
      have := (List.pairwise_cons.mp hp).1 y hym
      omega
  -- Between the first and the last surviving character, all that is not cut out survives.
  have hkept : (kept (planCuts text spans) 0 text).filter
      (fun z => decide (x.1 ≤ z.1) && decide (z.1 < y.1 + y.2.utf8Size)) = x :: m := by
    have hp : (kept (planCuts text spans) 0 text).Pairwise _ := (pairwise_placed 0 text).filter _
    obtain ⟨r, hr⟩ := exists_trimPlaced (kept (planCuts text spans) 0 text)
    rw [← survivors, hxm] at hr
    generalize (kept (planCuts text spans) 0 text).takeWhile _ = l at hr
    rw [hr] at hp ⊢
    exact filter_between hp hy
  rw [kept, List.filter_filter] at hkept
  generalize hE : (text.placed 0).filter
    (fun z => decide (x.1 ≤ z.1 ∧ z.1 < y.1 + y.2.utf8Size)) = E
  have hsize : byteSize (E.map Prod.snd) = y.1 + y.2.utf8Size - x.1 := by
    rw [← hE, ← placed_slice hx₁, map_snd_placed, byteSize_slice hx₁ hy₂ hle]
  have hvalue : (E.filter fun z => !covered (planCuts text spans) z.1).map Prod.snd =
      (removeSpans text spans).value := by
    rw [← map_snd_survivors h, hxm, ← hkept, ← hE, List.filter_filter]
    congr 1
    refine List.filter_congr fun z _ => ?_
    rw [Bool.decide_and, Bool.and_comm]
  have hhidden : hidden text spans =
      byteSize ((E.filter fun z => covered (planCuts text spans) z.1).map Prod.snd) := by
    rw [hidden, hoff, hext, ← hE, List.filter_filter]
    congr 2
    refine List.filter_congr fun z _ => ?_
    rw [Bool.decide_and, Bool.and_assoc]
  -- So the bytes between them are those of the value and the hidden ones.
  have hsum := byteSize_filter_add (fun z => covered (planCuts text spans) z.1) E
  rw [hvalue, ← hhidden, hsize] at hsum
  rw [hext, hoff]
  omega

end TimePhrase.Restriction
