import TimePhrase.Proofs.Pattern.Order
import TimePhrase.Proofs.Restriction.Placement
import TimePhrase.Proofs.Rule.Match

/-!
# Where the matches of a rule stand

A match counts its bytes in the text of the query, but its value is what cutting and trimming have
left of the text of an occurrence. Wherever it has been cut, the match stays within the region of its
occurrence, and the occurrences come one after the other.

* `IsPlaced`  what the place of a match tells about its value
* `matches_placed`  every match is placed in its region, and the matches of a rule do not overlap
-/

namespace TimePhrase.Rule

open Text

variable {r : Rule} {scripts : Provider} {tables : Tables} {text : Text} {o : Occurrence}
  {m : Match}

/-- A match that the rule has made of an occurrence in a text is well placed in a region. -/
structure IsPlaced (r : Rule) (text : Text) (o : Occurrence) (region : Span) (m : Match) : Prop where
  start_le : region.start ≤ m.index
  stop_le : m.stop ≤ region.stop
  /-- The value neither begins nor ends with a character that is trimmed. -/
  tight : Tight Restriction.isTrimmed m.value
  /-- The first character of the value stands at the index, outside the excluded groups. -/
  first : ∀ c ∈ m.value.head?, (m.index, c) ∈ text.placed 0 ∧
    Restriction.covered (r.excludedSpans o) (m.index - o.start) = false
  /-- If no excluded group has captured any text, the value stands in the text as it is. -/
  whole : (∀ part ∈ r.phrase.excluded, capturedText text o part = []) →
    text.slice m.index m.stop = m.value

/-! ## One match -/

/-- A span that captured no text is empty. -/
theorem len_eq_zero_of_capturedText {a w : Text} (hocc : Pattern.IsOccurrence text o a w)
    (h : ∀ part ∈ r.phrase.excluded, capturedText text o part = []) :
    ∀ s ∈ r.excludedSpans o, s.len = 0 := by
  intro s hs
  obtain ⟨part, hpart, hs⟩ := List.mem_filterMap.mp hs
  obtain ⟨u, hu, rfl⟩ := Option.map_eq_some_iff.mp hs
  have hnone := h part (List.mem_reverse.mp hpart)
  obtain ⟨e, he, rfl⟩ := Option.map_eq_some_iff.mp hu
  obtain ⟨x, y, z, hw, hspan⟩ := hocc.captured e (List.mem_of_find?_eq_some he)
  obtain ⟨b, htext⟩ := hocc.isIn
  -- The captured text is the slice of the text between the ends of the span.
  have hstart : e.2.start = byteSize (a ++ x) := by
    rw [hspan, hocc.start, byteSize_append]
  have hstop : e.2.stop = byteSize (a ++ x ++ y) := by
    rw [Span.stop, hspan, hocc.start]
    simp only [byteSize_append]
  have hsplit : text = (a ++ x) ++ y ++ (z ++ b) := by
    rw [htext, hw]
    simp only [List.append_assoc]
  have hy : capturedText text o part = y := by
    simp only [capturedText, hu, hstart, hstop]
    rw [hsplit, slice_append]
  rw [hspan, ← hy, hnone]
  rfl

/-- The match made of an occurrence is well placed in the region of the occurrence. -/
theorem isPlaced_of_matchOf {r' : Rule} (hr : r.realize scripts = .ok r')
    (hm : r'.matchOf tables text o = .ok m) {a w : Text}
    (hocc : Pattern.IsOccurrence text o a w) : r.IsPlaced text o o.span m := by
  obtain ⟨hvalue, hindex⟩ := of_matchOf hr hm
  rw [matched_of_isOccurrence hocc] at hvalue hindex
  have hal := aligned_of_isOccurrence r hocc
  obtain ⟨b, htext⟩ := hocc.isIn
  have hstart := hocc.start
  have hstop := hocc.stop
  constructor
  · show o.start ≤ m.index
    omega
  · have hle := Restriction.offset_add_byteSize_le hal
    rw [byteSize_append] at hstop
    simp only [Match.stop, Occurrence.span, Span.between, Span.stop]
    rw [hindex, hvalue]
    omega
  · rw [hvalue, Restriction.removeSpans]
    exact tight_stripWhile _ _
  · intro c hc
    rw [hvalue] at hc
    obtain ⟨hmem, hout⟩ := Restriction.first_survivor hal hc
    have hrel : m.index - o.start = (Restriction.removeSpans w (r.excludedSpans o)).offset := by
      omega
    refine ⟨?_, by rw [hrel]; exact hout⟩
    -- In the whole text, the character stands behind those in front of the occurrence.
    rw [htext, placed_append, placed_append, Nat.zero_add, hindex, hstart,
      ← Nat.add_zero (byteSize a), placed_add]
    exact List.mem_append_left _ (List.mem_append_right _ (List.mem_map_of_mem hmem))
  · intro hnone
    have hempty := len_eq_zero_of_capturedText hocc hnone
    obtain ⟨x, y, hw, hoff⟩ : ∃ x y, w = x ++
        (Restriction.removeSpans w (r.excludedSpans o)).value ++ y ∧
        (Restriction.removeSpans w (r.excludedSpans o)).offset = byteSize x :=
      Restriction.slice_of_no_cut hempty
    rw [← hvalue] at hw
    rw [hoff] at hindex
    have hsplit : text = (a ++ x) ++ m.value ++ (y ++ b) := by
      rw [htext]
      conv => lhs; rw [hw]
      simp only [List.append_assoc]
    have hfrom : m.index = byteSize (a ++ x) := by
      rw [hindex, hstart, byteSize_append]
    have hto : m.stop = byteSize (a ++ x ++ m.value) := by
      rw [Match.stop, hfrom, byteSize_append (a ++ x)]
    rw [hfrom, hto]
    conv => lhs; rw [hsplit]
    exact slice_append _ _ _

/-- A region may be widened. -/
theorem IsPlaced.mono {region region' : Span} (h : r.IsPlaced text o region m)
    (h₁ : region'.start ≤ region.start) (h₂ : region.stop ≤ region'.stop) :
    r.IsPlaced text o region' m :=
  { h with
    start_le := Nat.le_trans h₁ h.start_le
    stop_le := Nat.le_trans h.stop_le h₂ }

/-! ## All matches -/

theorem forall₂_of_matchesOf {os : List Occurrence} {ms : List Match}
    (h : (r.matchesOf scripts tables text os).2 = .ok ms)
    (hos : ∀ o ∈ os, ∃ a w, Pattern.IsOccurrence text o a w) :
    List.Forall₂ (fun o m => r.IsPlaced text o o.span m) os ms := by
  unfold matchesOf at h
  split at h
  · rename_i hnil
    obtain rfl := List.isEmpty_iff.mp hnil
    obtain rfl := Except.ok.inj h
    exact List.Forall₂.nil
  · split at h
    · exact nomatch h
    · rename_i r' hr'
      have hmatch := Except.mapM_eq_ok_iff.mp h
      refine ((List.forall₂_and_left os ms).mpr ⟨hos, hmatch⟩).imp fun o m hom => ?_
      obtain ⟨⟨a, w, hocc⟩, hm⟩ := hom
      exact isPlaced_of_matchOf hr' hm hocc

/-- Matches placed in regions that come one after the other do so, too. -/
theorem pairwise_of_forall₂ {os : List Occurrence} {ms : List Match}
    (h : List.Forall₂ (fun o m => r.IsPlaced text o o.span m) os ms)
    (hle : ∀ o ∈ os, o.start ≤ o.stop.byte)
    (hos : os.Pairwise fun o p => o.stop.byte ≤ p.start) :
    ms.Pairwise fun m n => m.stop ≤ n.index := by
  induction h with
  | nil => exact List.Pairwise.nil
  | @cons o m os ms hom hrest ih =>
    obtain ⟨ho, hle⟩ := List.forall_mem_cons.mp hle
    obtain ⟨hbehind, hos⟩ := List.pairwise_cons.mp hos
    refine List.pairwise_cons.mpr ⟨fun n hn => ?_, ih hle hos⟩
    -- The later match lies in the region of an occurrence behind this one.
    obtain ⟨i, hi, rfl⟩ := List.mem_iff_getElem.mp hn
    have hi' : i < os.length := by rw [hrest.length_eq]; exact hi
    have hplaced := hrest.get hi' hi
    have hstart : os[i].start ≤ ms[i].index := hplaced.start_le
    have hstop := hom.stop_le
    have := hbehind os[i] (List.getElem_mem hi')
    simp only [Occurrence.span, Span.between, Span.stop] at hstop
    omega

/-- The matches of a rule are those of its occurrences, one for each, in the same order. Each lies in
    the region of its occurrence, and begins behind the end of those before it. The match of a whole
    text lies in that text. -/
theorem matches_placed (r : Rule) (scripts : Provider) (tables : Tables) (text : Text) :
    (∀ ms, (r.matchAll scripts tables text).2 = .ok ms →
      List.Forall₂ (fun o m => r.IsPlaced text o o.span m) (r.pattern.occurrences text) ms ∧
      ms.Pairwise fun m n => m.stop ≤ n.index) ∧
    ∀ m, (r.matchExact scripts tables text).2 = .ok (some m) →
      ∃ o, r.exactPattern.firstIn? text = some o ∧ r.IsPlaced text o ⟨0, byteSize text⟩ m := by
  constructor
  · intro ms h
    have hocc : ∀ o ∈ r.pattern.occurrences text, ∃ a w, Pattern.IsOccurrence text o a w :=
      fun o ho => Pattern.isOccurrence_of_mem_occurrences ho
    have hplaced := forall₂_of_matchesOf h hocc
    refine ⟨hplaced, pairwise_of_forall₂ hplaced (fun o ho => ?_)
      (Pattern.pairwise_occurrences r.pattern text)⟩
    obtain ⟨a, w, ho⟩ := hocc o ho
    exact ho.start_le_stop
  · intro m h
    obtain ⟨ms, hms, hhead⟩ := Except.map_eq_ok.mp h
    have hocc : ∀ o ∈ (r.exactPattern.firstIn? text).toList,
        ∃ a w, Pattern.IsOccurrence text o a w := fun o ho =>
      (Pattern.isOccurrence_of_first? (Pattern.isIn_start text) (Option.mem_toList.mp ho)).2
    have hplaced := forall₂_of_matchesOf hms hocc
    cases hfirst : r.exactPattern.firstIn? text with
    | none =>
      rw [hfirst] at hplaced
      obtain rfl := List.forall₂_nil_left_iff.mp hplaced
      exact nomatch hhead
    | some o =>
      rw [hfirst] at hplaced hocc
      obtain ⟨m', ms', hm, -, rfl⟩ := List.forall₂_cons_left_iff.mp hplaced
      obtain rfl : m' = m := Option.some.inj hhead
      obtain ⟨a, w, ho⟩ := hocc o (Option.mem_toList.mpr rfl)
      obtain ⟨b, htext⟩ := ho.isIn
      refine ⟨o, rfl, hm.mono (Nat.zero_le _) ?_⟩
      have hle := ho.start_le_stop
      have hstop := ho.stop
      have hsize := congrArg byteSize htext
      rw [byteSize_append] at hsize
      simp only [Occurrence.span, Span.between, Span.stop]
      omega

/-! ## A sample -/

/-- A rule, its matches in a text and its match of a whole text, if nothing fails. -/
def tried? [PropertyTable] (fragments : Fragments) (e : Element) (text whole : Text) :
    Option (Registry × Rule × List Match × Match) :=
  match Rule.compile fragments true .empty e with
  | (scripts, .ok r) => do
    let ms ← (r.matchAll scripts [] text).2.toOption
    let found ← (r.matchExact scripts [] whole).2.toOption
    return (scripts, r, ms, ← found)
  | (_, .error _) => none

theorem of_tried? [PropertyTable] {fragments : Fragments} {e : Element} {text whole : Text}
    {a : Registry × Rule × List Match × Match} (h : tried? fragments e text whole = some a) :
    Rule.compile fragments true .empty e = (a.1, .ok a.2.1) ∧
      (a.2.1.matchAll a.1 [] text).2 = .ok a.2.2.1 ∧
      (a.2.1.matchExact a.1 [] whole).2 = .ok (some a.2.2.2) := by
  unfold tried? at h
  split at h
  · rename_i scripts r hcompile
    obtain ⟨ms, hms, h⟩ := Option.bind_eq_some_iff.mp h
    obtain ⟨found, hfound, h⟩ := Option.bind_eq_some_iff.mp h
    obtain ⟨m, rfl, h⟩ := Option.bind_eq_some_iff.mp h
    obtain rfl := Option.some.inj h
    exact ⟨hcompile, Except.eq_ok_of_toOption hms, Except.eq_ok_of_toOption hfound⟩
  · exact nomatch h

/-- A rule that leaves out what comes in front of a day, and a word behind it. -/
def dayRule : Element :=
  ⟨"rule", .ofList [("id", "day"), ("type", "date"), ("example", "le 5, mai")],
    [.element "item" (.ofList [("include", "false"), ("repeat", "0-1")]) [.text "le"],
      .element "item" .empty [.text "5,"],
      .element "item" (.ofList [("include", "false"), ("repeat", "0-1")]) [.text "mai"]]⟩

/-- In `été 5, le 5, mai` the first day stands as it is, without the comma. In front of the second
    one `le` is cut out, behind it `mai`. -/
theorem matches_placed_dayRule : ∃ scripts r ms m,
    Rule.compile [] true .empty dayRule = (scripts, .ok r) ∧
    (r.matchAll scripts [] "été 5, le 5, mai").2 = .ok ms ∧
    (r.matchExact scripts [] "le 5,").2 = .ok (some m) ∧
    ms.map (fun m => (m.index, m.value)) = [(6, "5".toList), (12, "5".toList)] ∧
    List.Forall₂ (fun o m => r.IsPlaced "été 5, le 5, mai" o o.span m)
      (r.pattern.occurrences "été 5, le 5, mai") ms ∧
    ms.Pairwise (fun m n => m.stop ≤ n.index) ∧
    ∃ o, r.IsPlaced "le 5," o ⟨0, 5⟩ m := by
  have hrun : (tried? [] dayRule "été 5, le 5, mai" "le 5,").map (fun a =>
      a.2.2.1.map fun m => (m.index, m.value)) = some [(6, "5".toList), (12, "5".toList)] := by
    decide +kernel
  obtain ⟨⟨scripts, r, ms, m⟩, htried, hplaces⟩ := Option.map_eq_some_iff.mp hrun
  obtain ⟨hcompile, hall, hexact⟩ := of_tried? htried
  obtain ⟨hplaced, hpair⟩ := (matches_placed r scripts [] "été 5, le 5, mai").1 ms hall
  obtain ⟨o, -, ho⟩ := (matches_placed r scripts [] "le 5,").2 m hexact
  exact ⟨scripts, r, ms, m, hcompile, hall, hexact, hplaces, hplaced, hpair, o, ho⟩

end TimePhrase.Rule
