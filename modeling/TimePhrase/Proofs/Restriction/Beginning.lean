import Mathlib.Data.List.TakeWhile
import TimePhrase.Proofs.Restriction.Placement

/-!
# Where a value begins

A count of bytes in what the cuts have left is traced back over the cuts one by one: up to a cut the
two texts are the same, and behind it they are the same but for its bytes. So the byte at which the
value begins is that of the first character outside all cuts that is not trimmed. If there is none,
all that is left is trimmed, and all of it is traced back to all of the text.

* `sourceByte_all`  tracing back all that is left
* `find?_kept`  the first character that is not trimmed stands at the offset
* `removeSpans_begins`  the value and its offset
-/

namespace TimePhrase.Restriction

open Text

variable {text : Text} {spans : List Span}

/-! ## Tracing back -/

/-- All that is left of a text is traced back to all of the text. -/
theorem sourceByte_all {cuts : List Span} {pos : Nat} {t : Text}
    (h : ∀ s ∈ cuts, s.IsStretch pos t) (hp : cuts.Pairwise fun a b => a.stop < b.start) :
    sourceByte cuts (pos + byteSize ((kept cuts pos t).map Prod.snd)) = pos + byteSize t := by
  induction cuts generalizing pos t with
  | nil => rw [kept_eq_placed (by simp), map_snd_placed, sourceByte]
  | cons c cuts ih =>
    obtain ⟨hc, hr⟩ := List.forall_mem_cons.mp h
    obtain ⟨hcr, hpr⟩ := List.pairwise_cons.mp hp
    obtain ⟨a, b, d, rfl, hcut⟩ := hc
    have hstop : c.stop = pos + byteSize (a ++ b) := by
      rw [Span.stop, hcut, byteSize_append, Nat.add_assoc]
    rw [kept_cons hcut fun s hs => Nat.le_of_lt (hcr s hs), List.map_append, byteSize_append,
      map_snd_placed, sourceByte_behind hcut, ih (isStretch_behind hcut hr hcr) hpr, hstop,
      byteSize_append (a ++ b), Nat.add_assoc]

/-! ## The first character that is not trimmed -/

/-- A character stands at the byte it begins at. -/
theorem head?_dropBytes {t : Text} {x : Nat × Char} (h : x ∈ t.placed 0) :
    (t.dropBytes x.1).head? = some x.2 := by
  obtain ⟨l, r, hl⟩ := List.append_of_mem h
  obtain ⟨hx, ht⟩ := eq_append_of_placed_eq hl
  rw [hx, Nat.zero_add, ht, dropBytes_byteSize_append, List.head?_cons]

/-- Outside the cuts, the first character that is not trimmed is the first one of the value, and it
    stands at the offset. -/
theorem find?_kept (h : ∀ s ∈ spans, s.Aligned text) {c : Char}
    (hc : (removeSpans text spans).value.head? = some c) :
    (kept (planCuts text spans) 0 text).find? (fun x => !isTrimmed x.2) =
      some ((removeSpans text spans).offset, c) := by
  cases hsurv : survivors text spans with
  | nil =>
    rw [← map_snd_survivors h, hsurv] at hc
    exact nomatch hc
  | cons x l =>
    have hoffset := offset_eq h hsurv
    -- What is left is trimmed, so it does not begin with a trimmed character.
    have hfirst : isTrimmed c = false :=
      (value_removeSpans h ▸ tight_stripWhile isTrimmed _).head c hc
    rw [← map_snd_survivors h, hsurv] at hc
    obtain rfl : x.2 = c := Option.some.inj hc
    obtain ⟨r, hr⟩ := exists_trimPlaced (kept (planCuts text spans) 0 text)
    rw [← survivors, hsurv, List.append_assoc, List.cons_append] at hr
    have hbefore : ∀ y ∈ (kept (planCuts text spans) 0 text).takeWhile fun x => isTrimmed x.2,
        isTrimmed y.2 = true := List.all_eq_true.mp List.all_takeWhile
    generalize (kept (planCuts text spans) 0 text).takeWhile _ = before at hr hbefore
    rw [hoffset]
    exact List.find?_eq_some_iff_append.mpr
      ⟨by simp [hfirst], before, l ++ r, hr, fun y hy => by simp [hbefore y hy]⟩

/-- In front of the offset, nothing but trimmed characters is left. -/
theorem isTrimmed_of_lt_offset (h : ∀ s ∈ spans, s.Aligned text) {c : Char}
    (hc : (removeSpans text spans).value.head? = some c) :
    ∀ x ∈ kept (planCuts text spans) 0 text, x.1 < (removeSpans text spans).offset →
      isTrimmed x.2 = true := by
  obtain ⟨-, before, behind, hkept, hbefore⟩ := List.find?_eq_some_iff_append.mp (find?_kept h hc)
  intro x hx hlt
  have hp : (kept (planCuts text spans) 0 text).Pairwise _ := (pairwise_placed 0 text).filter _
  rw [hkept] at hp hx
  rcases List.mem_append.mp hx with hx | hx
  · simpa using hbefore x hx
  · -- The others stand at the offset or behind it.
    rcases List.mem_cons.mp hx with rfl | hx
    · exact absurd hlt (Nat.lt_irrefl _)
    · have := (List.pairwise_cons.mp (List.pairwise_append.mp hp).2.1).1 x hx
      omega

/-- If nothing is left but trimmed characters, the offset is the end of the text. -/
theorem offset_of_value_eq_nil (h : ∀ s ∈ spans, s.Aligned text)
    (hv : (removeSpans text spans).value = []) :
    (removeSpans text spans).offset = byteSize text := by
  have hcuts := (covers_planCuts h).aligned
  have hpair := pairwise_planCuts h
  have hall : ∀ c ∈ outside (planCuts text spans) text, isTrimmed c = true := by
    obtain ⟨a, b, hab, ha, hb⟩ :=
      exists_stripWhile isTrimmed (outside (planCuts text spans) text)
    rw [← value_removeSpans h, hv, List.append_nil] at hab
    rw [hab]
    exact List.forall_mem_append.mpr ⟨ha, hb⟩
  have hwhole : (outside (planCuts text spans) text).takeWhile isTrimmed =
      outside (planCuts text spans) text := List.takeWhile_eq_self_iff.mpr hall
  have hoffset : (removeSpans text spans).offset = sourceByte (planCuts text spans)
      (byteSize ((outside (planCuts text spans) text).takeWhile isTrimmed)) := by
    rw [← removeCuts_eq_outside hcuts hpair]
    rfl
  have hsource := sourceByte_all (fun s hs => Span.aligned_iff_isStretch.mp (hcuts s hs)) hpair
  rw [hoffset, hwhole, ← Nat.zero_add (byteSize text), ← hsource,
    Nat.zero_add, outside]

/-! ## The value and its offset -/

/-- The value is what is outside the cuts, trimmed. It begins at the first character outside the cuts
    that is not trimmed, with nothing but trimmed ones left in front of it, and counted from there it
    ends in the text. If nothing is left, its offset is the end of the text. -/
theorem removeSpans_begins (text : Text) (spans : List Span) (h : ∀ s ∈ spans, s.Aligned text) :
    (removeSpans text spans).value = (outside (planCuts text spans) text).stripWhile isTrimmed ∧
    ((removeSpans text spans).value ≠ [] → ∃ c,
      (removeSpans text spans).value.head? = some c ∧
      (kept (planCuts text spans) 0 text).find? (fun x => !isTrimmed x.2) =
        some ((removeSpans text spans).offset, c) ∧
      (text.dropBytes (removeSpans text spans).offset).head? = some c ∧
      (∀ x ∈ kept (planCuts text spans) 0 text, x.1 < (removeSpans text spans).offset →
        isTrimmed x.2 = true) ∧
      (removeSpans text spans).offset + byteSize (removeSpans text spans).value ≤ byteSize text) ∧
    ((removeSpans text spans).value = [] → (removeSpans text spans).offset = byteSize text) := by
  refine ⟨value_removeSpans h, fun hv => ?_, offset_of_value_eq_nil h⟩
  obtain ⟨c, r, hcr⟩ := List.exists_cons_of_ne_nil hv
  have hc : (removeSpans text spans).value.head? = some c := by rw [hcr, List.head?_cons]
  exact ⟨c, hc, find?_kept h hc, head?_dropBytes (first_survivor h hc).1,
    isTrimmed_of_lt_offset h hc, offset_add_byteSize_le h⟩

/-- Two cuts are in front of the `é`, with a comma and a blank between them, and the second cut begins
    right behind these. Without the last word nothing but the comma and the blank is left. -/
theorem removeSpans_begins_behind_cuts :
    let text : Text := "un, deux, trois été".toList
    let words : Text := "un, deux, trois".toList
    let spans : List Span := [⟨0, 2⟩, ⟨10, 5⟩, ⟨4, 4⟩]
    (∀ s ∈ spans, s.Aligned text) ∧ planCuts text spans = [⟨0, 2⟩, ⟨4, 12⟩] ∧
      (removeSpans text spans).value = "été".toList ∧ (removeSpans text spans).offset = 16 ∧
      (kept (planCuts text spans) 0 text).find? (fun x => !isTrimmed x.2) = some (16, 'é') ∧
      (∀ x ∈ kept (planCuts text spans) 0 text, x.1 < 16 → isTrimmed x.2 = true) ∧
      (∀ s ∈ spans, s.Aligned words) ∧ (removeSpans words spans).value = [] ∧
      (removeSpans words spans).offset = 15 := by
  intro text words spans
  have h : ∀ s ∈ spans, s.Aligned text := by decide
  have hwords : ∀ s ∈ spans, s.Aligned words := by decide
  have hvalue : (removeSpans text spans).value = "été".toList := by decide
  have hoffset : (removeSpans text spans).offset = 16 := by decide
  have hempty : (removeSpans words spans).value = [] := by decide
  obtain ⟨-, hbegins, -⟩ := removeSpans_begins text spans h
  obtain ⟨-, -, hend⟩ := removeSpans_begins words spans hwords
  obtain ⟨c, hc, hfind, -, hbefore, -⟩ := hbegins (by rw [hvalue]; decide)
  rw [hvalue] at hc
  obtain rfl : 'é' = c := Option.some.inj hc
  rw [hoffset] at hfind hbefore
  exact ⟨h, by decide, hvalue, hoffset, hfind, hbefore, hwords, hempty, hend hempty⟩

end TimePhrase.Restriction
