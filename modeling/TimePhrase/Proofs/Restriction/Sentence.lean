import TimePhrase.Proofs.Restriction.Seams

/-!
# Dropping words from a sentence

The words of a sentence stand apart by single blanks. When the spans of some of them are removed, the
walk may gather a run of dropped words as a whole or in pieces, and what it has not gathered is joined
only because a cut takes the blank behind it. In the end it makes no difference: wherever a kept word
is in front, every blank behind a dropped word is cut, and no blank behind a kept one.

* `not_covered_of_kept`, `covered_behind_dropped`  the blanks that are left and those that are cut
* `kept_behind`  what is left behind a word, by induction on the words
* `removeSpans_words`  the kept words are left, one blank apart
-/

namespace TimePhrase.Restriction

open Text

variable {spans : List Span}

/-! ## Words and their places -/

/-- A word of a sentence, to be kept or dropped. No gap character is in it. -/
structure Word where
  chars : Text
  dropped : Bool
  ne_nil : chars ≠ []
  solid : ∀ c ∈ chars, isGap c = false

/-- The words with single blanks between them. -/
def sentence (ws : List Word) : Text := join [' '] (ws.map Word.chars)

/-- The words that are kept. -/
def keptWords (ws : List Word) : List Word := ws.filter fun w => !w.dropped

/-- The words of a sentence with the bytes they begin at, the first one at the byte `pos`. -/
def placedWords : Nat → List Word → List (Nat × Word)
  | _, [] => []
  | pos, w :: r => (pos, w) :: placedWords (pos + byteSize w.chars + 1) r

/-- The span of a word in its sentence. -/
def wordSpan (x : Nat × Word) : Span := ⟨x.1, byteSize x.2.chars⟩

/-- The spans of the words that are dropped. -/
def droppedSpans (ws : List Word) : List Span :=
  ((placedWords 0 ws).filter fun x => x.2.dropped).map wordSpan

/-- The words behind another one, each with the blank in front of it. -/
def behind (ws : List Word) : Text := ws.flatMap fun w => ' ' :: w.chars

theorem Word.byteSize_pos (w : Word) : 0 < byteSize w.chars :=
  Nat.lt_of_lt_of_le (List.length_pos_iff.mpr w.ne_nil) (length_le_byteSize w.chars)

/-- A word is of no trimmed characters. -/
theorem Word.not_isTrimmed (w : Word) : ∀ c ∈ w.chars, isTrimmed c = false := by
  intro c hc
  rw [Bool.eq_false_iff]
  intro htrimmed
  have hsolid := w.solid c hc
  rw [isGap_of_isTrimmed htrimmed] at hsolid
  exact nomatch hsolid

theorem sentence_cons_cons (w v : Word) (r : List Word) :
    sentence (w :: v :: r) = w.chars ++ ' ' :: sentence (v :: r) := by
  simp only [sentence, List.map_cons, join, List.append_assoc, List.singleton_append]

theorem sentence_cons (w : Word) (r : List Word) : sentence (w :: r) = w.chars ++ behind r := by
  induction r generalizing w with
  | nil => simp [sentence, behind, join]
  | cons v r ih =>
    rw [sentence_cons_cons, ih]
    rfl

/-- Where a word stands in its sentence, by induction on the words in front of it: it has a blank in
    front of it or is the first one, and has one behind it or is the last one. -/
theorem exists_append_of_mem {ws : List Word} {pos : Nat} {x : Nat × Word}
    (h : x ∈ placedWords pos ws) :
    ∃ a b, sentence ws = a ++ x.2.chars ++ b ∧ x.1 = pos + byteSize a ∧
      (a = [] ∨ ∃ a', a = a' ++ [' ']) ∧ (b = [] ∨ ∃ b', b = ' ' :: b') := by
  induction ws generalizing pos with
  | nil => exact absurd h List.not_mem_nil
  | cons w r ih =>
    rcases List.mem_cons.mp h with rfl | hr
    · refine ⟨[], behind r, sentence_cons w r, rfl, .inl rfl, ?_⟩
      cases r with
      | nil => exact .inl rfl
      | cons v r => exact .inr ⟨v.chars ++ behind r, rfl⟩
    · cases r with
      | nil => exact absurd hr List.not_mem_nil
      | cons v r =>
        obtain ⟨a, b, hab, hx, hfront, hback⟩ := ih hr
        refine ⟨w.chars ++ ' ' :: a, b, ?_, ?_, .inr ?_, hback⟩
        · rw [sentence_cons_cons, hab]
          simp
        · have hblank : (' ' : Char).utf8Size = 1 := rfl
          rw [hx, byteSize_append, byteSize_cons, hblank]
          omega
        · rcases hfront with rfl | ⟨a', rfl⟩
          · exact ⟨w.chars, rfl⟩
          · exact ⟨w.chars ++ ' ' :: a', by simp⟩

theorem le_of_mem_placedWords {ws : List Word} {pos : Nat} {x : Nat × Word}
    (h : x ∈ placedWords pos ws) : pos ≤ x.1 := by
  obtain ⟨a, b, -, hx, -⟩ := exists_append_of_mem h
  omega

/-- Words begin one after the other, with a blank between them. -/
theorem pairwise_placedWords (pos : Nat) (ws : List Word) :
    (placedWords pos ws).Pairwise fun x y => (wordSpan x).stop < y.1 := by
  induction ws generalizing pos with
  | nil => exact List.Pairwise.nil
  | cons w r ih =>
    refine List.pairwise_cons.mpr ⟨fun y hy => ?_, ih _⟩
    have := le_of_mem_placedWords hy
    simp only [wordSpan, Span.stop]
    omega

theorem lt_stop_wordSpan (x : Nat × Word) : x.1 < (wordSpan x).stop :=
  Nat.lt_add_of_pos_right x.2.byteSize_pos

section Words

variable {ws : List Word} {x y : Nat × Word}

/-- Of two words one is in front of the other, if they are not the same. -/
theorem apart_of_ne (hx : x ∈ placedWords 0 ws) (hy : y ∈ placedWords 0 ws) (hne : x ≠ y) :
    (wordSpan x).stop < y.1 ∨ (wordSpan y).stop < x.1 := by
  have hsymm : Std.Symm fun x y : Nat × Word => (wordSpan x).stop < y.1 ∨ (wordSpan y).stop < x.1 :=
    ⟨fun _ _ h => h.symm⟩
  have hpair : (placedWords 0 ws).Pairwise
      fun x y => (wordSpan x).stop < y.1 ∨ (wordSpan y).stop < x.1 :=
    (pairwise_placedWords 0 ws).imp fun h => .inl h
  exact hpair.forall hx hy hne

/-- A word is a stretch of its sentence. -/
theorem aligned_wordSpan (hx : x ∈ placedWords 0 ws) : (wordSpan x).Aligned (sentence ws) := by
  obtain ⟨a, b, hab, hxa, -⟩ := exists_append_of_mem hx
  exact Span.aligned_iff_isStretch.mpr ⟨a, x.2.chars, b, hab, by rw [wordSpan, hxa]⟩

/-- A word begins with a character that is not a gap character. -/
theorem exists_first (hx : x ∈ placedWords 0 ws) :
    ∃ c, (x.1, c) ∈ (sentence ws).placed 0 ∧ isGap c = false := by
  obtain ⟨a, b, hab, hxa, -⟩ := exists_append_of_mem hx
  obtain ⟨c, r, hc⟩ := List.exists_cons_of_ne_nil x.2.ne_nil
  refine ⟨c, ?_, x.2.solid c (hc ▸ List.mem_cons_self)⟩
  rw [hab, hc, List.append_assoc, placed_append, hxa]
  exact List.mem_append_right _ List.mem_cons_self

/-- In front of every word but the first one there is a blank. -/
theorem blankBefore_word (hx : x ∈ placedWords 0 ws) (hpos : 0 < x.1) :
    blankBefore (sentence ws) x.1 = true := by
  obtain ⟨a, b, hab, hxa, hfront, -⟩ := exists_append_of_mem hx
  rw [Nat.zero_add] at hxa
  rcases hfront with rfl | ⟨a', rfl⟩
  · rw [hxa, byteSize_nil] at hpos
    omega
  · rw [blankBefore, hab, hxa, List.append_assoc, takeBytes_byteSize_append,
      List.getLast?_concat]
    rfl

/-- Behind every word but the last one there is a blank. -/
theorem blank_behind_word (hx : x ∈ placedWords 0 ws) (hy : y ∈ placedWords 0 ws)
    (hxy : x.1 < y.1) : ((wordSpan x).stop, ' ') ∈ (sentence ws).placed 0 := by
  obtain ⟨a, b, hab, hxa, -, hback⟩ := exists_append_of_mem hx
  have hstop : (wordSpan x).stop = byteSize (a ++ x.2.chars) := by
    rw [Span.stop, wordSpan, hxa, byteSize_append, Nat.zero_add]
  rcases hback with rfl | ⟨b', rfl⟩
  · -- The other word would begin behind the sentence.
    obtain ⟨c, hc, -⟩ := exists_first hy
    have hend := lt_of_mem_placed hc
    rw [hab, List.append_nil, ← hstop] at hend
    rcases apart_of_ne hx hy (fun h => by simp [h] at hxy) with hlt | hlt
    · omega
    · have := lt_stop_wordSpan y
      omega
  · rw [hab, placed_append, hstop, Nat.zero_add]
    exact List.mem_append_right _ List.mem_cons_self

theorem mem_droppedSpans {s : Span} :
    s ∈ droppedSpans ws ↔ ∃ x ∈ placedWords 0 ws, x.2.dropped = true ∧ wordSpan x = s := by
  simp only [droppedSpans, List.mem_map, List.mem_filter, and_assoc]

end Words

/-! ## What is cut -/

section Cuts

variable {ws : List Word} {x y k : Nat × Word} (hspans : ∀ s, s ∈ spans ↔ s ∈ droppedSpans ws)

include hspans

theorem aligned_of_dropped : ∀ s ∈ spans, s.Aligned (sentence ws) := by
  intro s hs
  obtain ⟨x, hx, -, rfl⟩ := mem_droppedSpans.mp ((hspans s).mp hs)
  exact aligned_wordSpan hx

/-- Every cut begins where a dropped word does. -/
theorem exists_dropped_of_cut {t : Span} (ht : t ∈ planCuts (sentence ws) spans) :
    ∃ x ∈ placedWords 0 ws, x.2.dropped = true ∧ x.1 = t.start := by
  obtain ⟨s, hs, hst⟩ := exists_start_planCuts (aligned_of_dropped hspans) ht
  obtain ⟨x, hx, hdropped, rfl⟩ := mem_droppedSpans.mp ((hspans s).mp hs)
  exact ⟨x, hx, hdropped, hst⟩

/-- No cut holds the first character of a kept word. -/
theorem not_covered_first (hx : x ∈ placedWords 0 ws) (hkept : x.2.dropped = false) :
    covered (planCuts (sentence ws) spans) x.1 = false := by
  rw [Bool.eq_false_iff]
  intro hcov
  obtain ⟨c, hc, hgap⟩ := exists_first hx
  rcases (covers_planCuts (aligned_of_dropped hspans)).gap _ hc hcov with hs | hg
  · -- It would be in the span of a dropped word.
    rw [covered_filter_pos] at hs
    obtain ⟨s, hs, h₁, h₂⟩ := covered_eq_true.mp hs
    obtain ⟨y, hy, hdropped, rfl⟩ := mem_droppedSpans.mp ((hspans s).mp hs)
    have hstart : (wordSpan y).start = y.1 := rfl
    have hlt := lt_stop_wordSpan x
    rcases apart_of_ne hx hy (fun h => by simp [h, hdropped] at hkept) with hlt | hlt
    · omega
    · omega
  · rw [hgap] at hg
    exact nomatch hg

/-- A kept word and the blank behind it are left. -/
theorem not_covered_of_kept (hx : x ∈ placedWords 0 ws) (hkept : x.2.dropped = false) {byte : Nat}
    (h₁ : x.1 ≤ byte) (h₂ : byte ≤ (wordSpan x).stop) :
    covered (planCuts (sentence ws) spans) byte = false := by
  rw [Bool.eq_false_iff]
  intro hcov
  obtain ⟨t, ht, ht₁, ht₂⟩ := covered_eq_true.mp hcov
  obtain ⟨y, hy, hdropped, hyt⟩ := exists_dropped_of_cut hspans ht
  -- The cut begins in front of the word, so it would hold its first character.
  have hfront : y.1 < x.1 := by
    have hlt := lt_stop_wordSpan y
    rcases apart_of_ne hx hy (fun h => by simp [h, hdropped] at hkept) with hlt | hlt
    · omega
    · omega
  have hfirst := not_covered_first hspans hx hkept
  rw [Bool.eq_false_iff] at hfirst
  exact hfirst (covered_eq_true.mpr ⟨t, ht, by omega, by omega⟩)

theorem exists_cut_of_dropped (hx : x ∈ placedWords 0 ws) (hdropped : x.2.dropped = true) :
    ∃ t ∈ planCuts (sentence ws) spans, t.start ≤ x.1 ∧ (wordSpan x).stop ≤ t.stop := by
  have hs : wordSpan x ∈ spans := (hspans _).mpr (mem_droppedSpans.mpr ⟨x, hx, hdropped, rfl⟩)
  have hpos : 0 < (wordSpan x).len := x.2.byteSize_pos
  exact (covers_planCuts (aligned_of_dropped hspans)).within _ (mem_visited.mpr ⟨hs, hpos⟩)

/-- A dropped word is cut. -/
theorem covered_of_dropped (hx : x ∈ placedWords 0 ws) (hdropped : x.2.dropped = true) {byte : Nat}
    (h₁ : x.1 ≤ byte) (h₂ : byte < (wordSpan x).stop) :
    covered (planCuts (sentence ws) spans) byte = true := by
  obtain ⟨t, ht, hstart, hstop⟩ := exists_cut_of_dropped hspans hx hdropped
  exact covered_eq_true.mpr ⟨t, ht, by omega, by omega⟩

/-- With a kept word in front, the blank behind a dropped word is cut, too. -/
theorem covered_behind_dropped (hk : k ∈ placedWords 0 ws) (hkept : k.2.dropped = false)
    (hx : x ∈ placedWords 0 ws) (hdropped : x.2.dropped = true) (hy : y ∈ placedWords 0 ws)
    (hkx : k.1 < x.1) (hxy : x.1 < y.1) :
    covered (planCuts (sentence ws) spans) (wordSpan x).stop = true := by
  obtain ⟨t, ht, hstart, hstop⟩ := exists_cut_of_dropped hspans hx hdropped
  obtain ⟨z, hz, hzdropped, hzt⟩ := exists_dropped_of_cut hspans ht
  -- The cut begins behind the kept word, so there is a blank in front of it.
  have hkz : k.1 < z.1 := by
    have hfirst := not_covered_first hspans hk hkept
    rw [Bool.eq_false_iff] at hfirst
    have hlt := lt_stop_wordSpan x
    exact Nat.lt_of_not_le fun hzk => hfirst (covered_eq_true.mpr ⟨t, ht, by omega, by omega⟩)
  have hblank := blankBefore_word hz (by omega)
  rw [hzt] at hblank
  -- A cut that ended with the word would have a blank behind it as well.
  have hne : t.stop ≠ (wordSpan x).stop := by
    intro heq
    have hbehind := blank_behind_word hx hy hxy
    rw [← heq] at hbehind
    have := not_isBlank_stop_planCuts (aligned_of_dropped hspans) ht hblank hbehind
    exact absurd this (by decide)
  have hlt := lt_stop_wordSpan x
  exact covered_eq_true.mpr ⟨t, ht, by omega, by omega⟩

end Cuts

/-! ## What is left -/

section Left

variable {cuts : List Span} {pos : Nat}

theorem kept_of_covered {t : Text}
    (h : ∀ byte, pos ≤ byte → byte < pos + byteSize t → covered cuts byte = true) :
    kept cuts pos t = [] := by
  refine List.filter_eq_nil_iff.mpr fun x hx => ?_
  simp [h x.1 (bounds_of_mem_placed hx).1 (lt_of_mem_placed hx)]

theorem kept_of_not_covered {t : Text}
    (h : ∀ byte, pos ≤ byte → byte < pos + byteSize t → covered cuts byte = false) :
    kept cuts pos t = t.placed pos := by
  refine List.filter_eq_self.mpr fun x hx => ?_
  simp [h x.1 (bounds_of_mem_placed hx).1 (lt_of_mem_placed hx)]

/-- Cuts that take the dropped ones of some words, and leave the others and the blanks behind them. -/
structure Takes (cuts : List Span) (pos : Nat) (ws : List Word) : Prop where
  kept : ∀ x ∈ placedWords pos ws, x.2.dropped = false → ∀ byte, x.1 ≤ byte →
    byte ≤ (wordSpan x).stop → covered cuts byte = false
  dropped : ∀ x ∈ placedWords pos ws, x.2.dropped = true → ∀ byte, x.1 ≤ byte →
    byte < (wordSpan x).stop → covered cuts byte = true

namespace Takes

variable {w : Word} {r : List Word}

theorem tail (h : Takes cuts pos (w :: r)) : Takes cuts (pos + byteSize w.chars + 1) r :=
  ⟨fun x hx => h.kept x (List.mem_cons_of_mem _ hx),
    fun x hx => h.dropped x (List.mem_cons_of_mem _ hx)⟩

theorem kept_chars (h : Takes cuts pos (w :: r)) (hw : w.dropped = false) :
    Restriction.kept cuts pos w.chars = w.chars.placed pos :=
  kept_of_not_covered fun byte h₁ h₂ =>
    h.kept (pos, w) List.mem_cons_self hw byte h₁ (Nat.le_of_lt h₂)

theorem not_covered_behind (h : Takes cuts pos (w :: r)) (hw : w.dropped = false) :
    covered cuts (pos + byteSize w.chars) = false :=
  h.kept (pos, w) List.mem_cons_self hw _ (Nat.le_add_right _ _) (Nat.le_refl _)

theorem dropped_chars (h : Takes cuts pos (w :: r)) (hw : w.dropped = true) :
    Restriction.kept cuts pos w.chars = [] :=
  kept_of_covered fun byte h₁ h₂ => h.dropped (pos, w) List.mem_cons_self hw byte h₁ h₂

end Takes

theorem keptWords_cons (w : Word) (r : List Word) :
    keptWords (w :: r) = if w.dropped then keptWords r else w :: keptWords r := by
  cases hw : w.dropped <;> simp [keptWords, hw]

theorem map_snd_kept_blank (cuts : List Span) (pos : Nat) :
    (kept cuts pos [' ']).map Prod.snd = if covered cuts pos then [] else [' '] := by
  cases h : covered cuts pos <;> simp [kept, placed, h]

/-- What is left behind a word, by induction on the words behind it. The blank in front of them is
    left, or it is cut because one has been left in front of the words dropped before. -/
theorem kept_behind {r : List Word} (h : Takes cuts (pos + 1) r)
    (hblank : ∀ x ∈ placedWords (pos + 1) r, ∀ y ∈ placedWords (pos + 1) r, x.2.dropped = true →
      x.1 < y.1 → covered cuts (wordSpan x).stop = true)
    (cut : Bool) (hcut : r ≠ [] → covered cuts pos = cut) :
    ∃ z : Text, (∀ c ∈ z, isTrimmed c = true) ∧
      (if cut then [' '] else []) ++ (kept cuts pos (behind r)).map Prod.snd =
        behind (keptWords r) ++ z := by
  induction r generalizing pos cut with
  | nil =>
    refine ⟨if cut then [' '] else [], ?_, by simp [behind, keptWords, kept, placed]⟩
    cases cut <;> simp [isTrimmed]
  | cons w r ih =>
    have hblank' : ∀ x ∈ placedWords (pos + 1 + byteSize w.chars + 1) r,
        ∀ y ∈ placedWords (pos + 1 + byteSize w.chars + 1) r, x.2.dropped = true → x.1 < y.1 →
          covered cuts (wordSpan x).stop = true := fun x hx y hy =>
      hblank x (List.mem_cons_of_mem _ hx) y (List.mem_cons_of_mem _ hy)
    -- In either case one blank is there in front of the word.
    have hone : (if cut then [' '] else []) ++ (kept cuts pos [' ']).map Prod.snd = [' '] := by
      rw [map_snd_kept_blank, hcut (List.cons_ne_nil w r)]
      cases cut <;> rfl
    have hsplit : (if cut then [' '] else []) ++ (kept cuts pos (behind (w :: r))).map Prod.snd =
        ' ' :: ((kept cuts (pos + 1) w.chars).map Prod.snd ++
          (kept cuts (pos + 1 + byteSize w.chars) (behind r)).map Prod.snd) := by
      have hbehind : behind (w :: r) = [' '] ++ (w.chars ++ behind r) := rfl
      have hsize : byteSize [' '] = 1 := rfl
      rw [hbehind, kept_append, kept_append, List.map_append, List.map_append, ← List.append_assoc,
        hone, hsize]
      rfl
    rw [hsplit, keptWords_cons]
    cases hw : w.dropped with
    | false =>
      obtain ⟨z, hz, heq⟩ := ih h.tail hblank' false fun _ => h.not_covered_behind hw
      refine ⟨z, hz, ?_⟩
      have hrest : (kept cuts (pos + 1 + byteSize w.chars) (behind r)).map Prod.snd =
          behind (keptWords r) ++ z := heq
      rw [h.kept_chars hw, map_snd_placed, hrest, ← List.append_assoc]
      rfl
    | true =>
      have hnext : r ≠ [] → covered cuts (pos + 1 + byteSize w.chars) = true := by
        intro hr
        obtain ⟨v, r', rfl⟩ := List.exists_cons_of_ne_nil hr
        exact hblank (pos + 1, w) List.mem_cons_self _
          (List.mem_cons_of_mem _ List.mem_cons_self) hw (by simp only; omega)
      obtain ⟨z, hz, heq⟩ := ih h.tail hblank' true hnext
      refine ⟨z, hz, ?_⟩
      rw [h.dropped_chars hw]
      exact heq

/-- From a kept word on, the kept words are left, and at most a blank behind the last one. -/
theorem kept_from_word {w : Word} {r : List Word} (h : Takes cuts pos (w :: r))
    (hw : w.dropped = false)
    (hblank : ∀ x ∈ placedWords pos (w :: r), ∀ y ∈ placedWords pos (w :: r), pos < x.1 →
      x.2.dropped = true → x.1 < y.1 → covered cuts (wordSpan x).stop = true) :
    ∃ z : Text, (∀ c ∈ z, isTrimmed c = true) ∧
      (kept cuts pos (sentence (w :: r))).map Prod.snd = sentence (w :: keptWords r) ++ z := by
  have hbehind : ∀ x ∈ placedWords (pos + byteSize w.chars + 1) r,
      ∀ y ∈ placedWords (pos + byteSize w.chars + 1) r, x.2.dropped = true → x.1 < y.1 →
        covered cuts (wordSpan x).stop = true := by
    intro x hx y hy
    have hle := le_of_mem_placedWords hx
    exact hblank x (List.mem_cons_of_mem _ hx) y (List.mem_cons_of_mem _ hy) (by omega)
  obtain ⟨z, hz, heq⟩ := kept_behind h.tail hbehind false fun _ => h.not_covered_behind hw
  have hrest : (kept cuts (pos + byteSize w.chars) (behind r)).map Prod.snd =
      behind (keptWords r) ++ z := heq
  refine ⟨z, hz, ?_⟩
  rw [sentence_cons, kept_append, List.map_append, h.kept_chars hw, map_snd_placed, hrest,
    sentence_cons, List.append_assoc]

/-- A kept word at the beginning of a sentence is left there. -/
theorem head?_kept_of_kept {w : Word} {r : List Word} (h : Takes cuts pos (w :: r))
    (hw : w.dropped = false) :
    ∃ c, (kept cuts pos (sentence (w :: r))).head? = some (pos, c) ∧ isTrimmed c = false := by
  obtain ⟨c, t, hc⟩ := List.exists_cons_of_ne_nil w.ne_nil
  refine ⟨c, ?_, w.not_isTrimmed c (hc ▸ List.mem_cons_self)⟩
  rw [sentence_cons, kept_append, h.kept_chars hw, hc]
  rfl

/-- What is left of a sentence: in front of the first kept word nothing but blanks, then the kept
    words, and behind the last one at most a blank. -/
theorem kept_sentence {ws : List Word} (h : Takes cuts pos ws)
    (hblank : ∀ k ∈ placedWords pos ws, ∀ x ∈ placedWords pos ws, ∀ y ∈ placedWords pos ws,
      k.2.dropped = false → k.1 < x.1 → x.2.dropped = true → x.1 < y.1 →
        covered cuts (wordSpan x).stop = true) :
    ∃ (a b : List (Nat × Char)) (z : Text), kept cuts pos (sentence ws) = a ++ b ∧
      (∀ x ∈ a, isTrimmed x.2 = true) ∧ b.map Prod.snd = sentence (keptWords ws) ++ z ∧
      (∀ c ∈ z, isTrimmed c = true) ∧
      ∀ x, (placedWords pos ws).find? (fun x => !x.2.dropped) = some x →
        ∃ c, b.head? = some (x.1, c) ∧ isTrimmed c = false := by
  induction ws generalizing pos with
  | nil => exact ⟨[], [], [], rfl, by simp, rfl, by simp, by simp [placedWords]⟩
  | cons w r ih =>
    cases hw : w.dropped with
    | false =>
      -- The first word is kept, and it is in front of all that are dropped.
      obtain ⟨z, hz, heq⟩ := kept_from_word h hw fun x hx y hy =>
        hblank (pos, w) List.mem_cons_self x hx y hy hw
      refine ⟨[], kept cuts pos (sentence (w :: r)), z, rfl, by simp, ?_, hz, fun x hx => ?_⟩
      · rw [heq, keptWords_cons, hw]
        rfl
      · rw [placedWords, List.find?_cons_of_pos (by simp [hw])] at hx
        obtain rfl := Option.some.inj hx
        exact head?_kept_of_kept h hw
    | true =>
      cases r with
      | nil =>
        refine ⟨[], [], [], ?_, by simp, by simp [keptWords, hw]; rfl, by simp, ?_⟩
        · rw [sentence_cons, behind, List.flatMap_nil, List.append_nil, h.dropped_chars hw]
          rfl
        · simp [placedWords, hw]
      | cons v r =>
        obtain ⟨a, b, z, hab, ha, hb, hz, hfirst⟩ := ih h.tail fun k hk x hx y hy =>
          hblank k (List.mem_cons_of_mem _ hk) x (List.mem_cons_of_mem _ hx) y
            (List.mem_cons_of_mem _ hy)
        refine ⟨kept cuts (pos + byteSize w.chars) [' '] ++ a, b, z, ?_, ?_, ?_, hz, ?_⟩
        · have hsize : byteSize [' '] = 1 := rfl
          rw [sentence_cons_cons, ← List.singleton_append, kept_append, kept_append,
            h.dropped_chars hw, hsize, hab, List.nil_append, List.append_assoc]
        · refine List.forall_mem_append.mpr ⟨fun x hx => ?_, ha⟩
          have hmem := mem_of_mem_placed (List.mem_filter.mp hx).1
          rw [List.mem_singleton.mp hmem]
          rfl
        · rw [hb, keptWords_cons w, hw]
          rfl
        · intro x hx
          rw [placedWords, List.find?_cons_of_neg (by simp [hw])] at hx
          exact hfirst x hx

end Left

/-- Kept words with single blanks between them are trimmed. -/
theorem tight_sentence (ws : List Word) : Tight isTrimmed (sentence ws) := by
  cases ws with
  | nil => exact tight_nil
  | cons w r =>
    rcases List.eq_nil_or_concat r with rfl | ⟨r, v, rfl⟩
    · rw [sentence_cons, behind, List.flatMap_nil, List.append_nil]
      exact tight_of_all w.not_isTrimmed
    · have hsplit : sentence (w :: r.concat v) = w.chars ++ (behind r ++ [' ']) ++ v.chars := by
        rw [sentence_cons, List.concat_eq_append, behind, List.flatMap_append]
        simp [behind]
      rw [hsplit]
      exact (tight_of_all w.not_isTrimmed).append w.ne_nil (tight_of_all v.not_isTrimmed) v.ne_nil _

/-! ## The sentence of the kept words -/

/-- When the spans of some words are removed from a sentence, in whatever order and however often they
    are given, the other words are left with single blanks between them, and the offset is where the
    first of them stands in the sentence. -/
theorem removeSpans_words {ws : List Word} {spans : List Span}
    (hspans : ∀ s, s ∈ spans ↔ s ∈ droppedSpans ws) :
    (removeSpans (sentence ws) spans).value = sentence (keptWords ws) ∧
    ∀ x, (placedWords 0 ws).find? (fun x => !x.2.dropped) = some x →
      (removeSpans (sentence ws) spans).offset = x.1 := by
  have hal := aligned_of_dropped hspans
  have htakes : Takes (planCuts (sentence ws) spans) 0 ws :=
    ⟨fun x hx hkept byte => not_covered_of_kept hspans hx hkept,
      fun x hx hdropped byte => covered_of_dropped hspans hx hdropped⟩
  obtain ⟨a, b, z, hab, ha, hb, hz, hfirst⟩ := kept_sentence htakes
    fun k hk x hx y hy hkept hkx hdropped =>
      covered_behind_dropped hspans hk hkept hx hdropped hy hkx
  have hvalue : (removeSpans (sentence ws) spans).value = sentence (keptWords ws) := by
    rw [value_removeSpans hal, outside, hab, List.map_append, hb, ← List.append_assoc]
    refine stripWhile_append_append (fun c hc => ?_) (tight_sentence _) hz
    obtain ⟨x, hx, rfl⟩ := List.mem_map.mp hc
    exact ha x hx
  refine ⟨hvalue, fun x hx => ?_⟩
  obtain ⟨c, hc, htrimmed⟩ := hfirst x hx
  obtain ⟨b', rfl⟩ := List.head?_eq_some_iff.mp hc
  have hhead : (removeSpans (sentence ws) spans).value.head? = some c := by
    rw [hvalue]
    cases hsentence : sentence (keptWords ws) with
    | nil =>
      -- Then the character would be one of those that are trimmed.
      rw [hsentence, List.nil_append] at hb
      rw [hz c (hb ▸ List.mem_cons_self)] at htrimmed
      exact absurd htrimmed.symm Bool.false_ne_true
    | cons d t =>
      rw [hsentence] at hb
      exact congrArg some (List.cons.inj hb).1.symm
  have hfind := find?_kept hal hhead
  have hnone : a.find? (fun x => !isTrimmed x.2) = none :=
    List.find?_eq_none.mpr fun y hy => by simp [ha y hy]
  rw [hab, List.find?_append, hnone, Option.none_or, List.find?_cons_of_pos (by simp [htrimmed])]
    at hfind
  exact (congrArg Prod.fst (Option.some.inj hfind)).symm

/-- The words `é` and `x` are left of `au b é c d x e`, whose dropped words come in an order that
    gathers no run of them as a whole. -/
theorem removeSpans_words_pieces :
    let ws : List Word :=
      [⟨"au".toList, true, by decide, by decide⟩, ⟨"b".toList, true, by decide, by decide⟩,
        ⟨"é".toList, false, by decide, by decide⟩, ⟨"c".toList, true, by decide, by decide⟩,
        ⟨"d".toList, true, by decide, by decide⟩, ⟨"x".toList, false, by decide, by decide⟩,
        ⟨"e".toList, true, by decide, by decide⟩]
    let spans : List Span := [⟨8, 1⟩, ⟨0, 2⟩, ⟨14, 1⟩, ⟨3, 1⟩, ⟨10, 1⟩]
    sentence ws = "au b é c d x e".toList ∧ (∀ s, s ∈ spans ↔ s ∈ droppedSpans ws) ∧
      (gather (sentence ws) none spans).length = 5 ∧
      (removeSpans (sentence ws) spans).value = "é x".toList ∧
      (removeSpans (sentence ws) spans).offset = 5 := by
  intro ws spans
  have hdropped : spans.Perm (droppedSpans ws) := by decide
  obtain ⟨hvalue, hoffset⟩ := @removeSpans_words ws spans fun _ => hdropped.mem_iff
  exact ⟨by decide, fun _ => hdropped.mem_iff, by decide, hvalue.trans (by decide),
    hoffset (5, ⟨"é".toList, false, by decide, by decide⟩) rfl⟩

end TimePhrase.Restriction
