import TimePhrase.Proofs.Fallible
import TimePhrase.Proofs.Pattern.Reach
import TimePhrase.Proofs.Restriction.Extent
import TimePhrase.Rule.Match

/-!
# What a match of a rule stands for

Every match comes from an occurrence of the rule's pattern, whose excluded groups are stretches of
the matched text. So what is known about the removal of spans holds of the value of a match, and
tells where it stands in the input.

* `exists_finds_of_matchAll`  every match comes from an occurrence
* `inputEnd_eq`  where a match ends in the input
* `last_of_finds`  the last character of its value stands right before that
-/

namespace TimePhrase.Rule

/-! ## From occurrences to matches -/

/-- Nothing but its scripts tells a rule that has looked them up from what it was. -/
theorem exists_actions_of_realize {r r' : Rule} {scripts : Provider}
    (h : r.realize scripts = .ok r') : ∃ actions, r' = { r with actions := some actions } := by
  unfold realize at h
  split at h
  · rename_i actions hactions
    refine ⟨actions, ?_⟩
    rw [← hactions]
    exact (Except.ok.inj h).symm
  · obtain ⟨actions, -, rfl⟩ := Except.map_eq_ok.mp h
    exact ⟨actions, rfl⟩

theorem phrase_of_realize {r r' : Rule} {scripts : Provider} (h : r.realize scripts = .ok r') :
    r'.phrase = r.phrase := by
  obtain ⟨actions, rfl⟩ := exists_actions_of_realize h
  rfl

/-- At an occurrence of its pattern in a text, a rule finds a match. -/
def Finds (r : Rule) (scripts : Provider) (tables : Tables) (text : Text) (o : Occurrence)
    (m : Match) : Prop :=
  o ∈ r.pattern.occurrences text ∧
    ∃ r', r.realize scripts = .ok r' ∧ r'.matchOf tables text o = .ok m

variable {r : Rule} {scripts : Provider} {tables : Tables} {text : Text} {o : Occurrence}
  {m : Match}

theorem exists_finds_of_matchAll {ms : List Match}
    (h : (r.matchAll scripts tables text).2 = .ok ms) :
    ∀ m ∈ ms, ∃ o, r.Finds scripts tables text o m := by
  unfold matchAll matchesOf at h
  split at h
  · obtain rfl := Except.ok.inj h
    simp
  · split at h
    · exact nomatch h
    · rename_i r' hr'
      intro m hm
      obtain ⟨o, ho, hom⟩ := Except.exists_of_mapM_eq_ok h m hm
      exact ⟨o, ho, r', hr', hom⟩

/-! ## The matched text -/

/-- The text of an occurrence. -/
def matched (text : Text) (o : Occurrence) : Text := text.slice o.start o.stop.byte

theorem of_matchOf {r' : Rule} (hr : r.realize scripts = .ok r')
    (h : r'.matchOf tables text o = .ok m) :
    m.value = (Restriction.removeSpans (matched text o) (r.excludedSpans o)).value ∧
      m.index = o.start +
        (Restriction.removeSpans (matched text o) (r.excludedSpans o)).offset := by
  obtain ⟨facts, -, hm⟩ := Except.bind_eq_ok.mp h
  obtain rfl := Except.ok.inj hm
  -- Looking up its scripts has not changed which groups the rule leaves out.
  have hspans : r'.excludedSpans o = r.excludedSpans o := by
    rw [excludedSpans, excludedSpans, phrase_of_realize hr]
  simp only [hspans]
  exact ⟨rfl, rfl⟩

theorem of_finds (h : r.Finds scripts tables text o m) :
    m.value = (Restriction.removeSpans (matched text o) (r.excludedSpans o)).value ∧
      m.index = o.start +
        (Restriction.removeSpans (matched text o) (r.excludedSpans o)).offset := by
  obtain ⟨-, r', hr', hm⟩ := h
  exact of_matchOf hr' hm

theorem matched_of_isOccurrence {a w : Text} (h : Pattern.IsOccurrence text o a w) :
    matched text o = w := by
  obtain ⟨b, hb⟩ := h.isIn
  rw [matched, hb, h.start, h.stop, Text.slice_append]

theorem exists_append_of_mem_occurrences {p : Pattern} (h : o ∈ p.occurrences text) :
    ∃ a b, text = a ++ matched text o ++ b ∧ o.start = Text.byteSize a ∧
      ∀ e ∈ o.stop.captures, e.2.IsStretch o.start (matched text o) := by
  obtain ⟨a, w, hocc⟩ := Pattern.isOccurrence_of_mem_occurrences h
  obtain ⟨b, hb⟩ := hocc.isIn
  rw [matched_of_isOccurrence hocc]
  exact ⟨a, b, hb, hocc.start, hocc.captured⟩

theorem aligned_of_isOccurrence (r : Rule) {a w : Text} (h : Pattern.IsOccurrence text o a w) :
    ∀ s ∈ r.excludedSpans o, s.Aligned w := by
  intro s hs
  obtain ⟨part, -, hpart⟩ := List.mem_filterMap.mp hs
  obtain ⟨u, hu, rfl⟩ := Option.map_eq_some_iff.mp hpart
  obtain ⟨e, he, rfl⟩ := Option.map_eq_some_iff.mp hu
  exact (h.captured e (List.mem_of_find?_eq_some he)).aligned

theorem aligned_excludedSpans (h : o ∈ r.pattern.occurrences text) :
    ∀ s ∈ r.excludedSpans o, s.Aligned (matched text o) := by
  obtain ⟨a, w, hocc⟩ := Pattern.isOccurrence_of_mem_occurrences h
  rw [matched_of_isOccurrence hocc]
  exact aligned_of_isOccurrence r hocc

/-! ## The end of a match in the input -/

/-- Where the value of the match at an occurrence ends in the input: the byte after its last
    character. -/
def inputEnd (r : Rule) (text : Text) (o : Occurrence) : Nat :=
  o.start + Restriction.extent (matched text o) (r.excludedSpans o)

/-- The bytes that are cut out between the first and the last character of the value. -/
def hiddenBytes (r : Rule) (text : Text) (o : Occurrence) : Nat :=
  Restriction.hidden (matched text o) (r.excludedSpans o)

theorem inputEnd_eq (h : r.Finds scripts tables text o m) (hv : m.value ≠ []) :
    r.inputEnd text o = m.stop + r.hiddenBytes text o := by
  obtain ⟨hvalue, hindex⟩ := of_finds h
  rw [hvalue] at hv
  rw [inputEnd, Restriction.extent_eq (aligned_excludedSpans h.1) hv, Match.stop, hindex, hvalue,
    hiddenBytes]
  omega

/-- The last character of a value stands in the input right before the end of the match. -/
theorem last_of_finds (h : r.Finds scripts tables text o m) (hv : m.value ≠ []) :
    ∃ x ∈ text.placed 0, m.value.getLast? = some x.2 ∧
      x.1 + x.2.utf8Size = r.inputEnd text o := by
  obtain ⟨hvalue, -⟩ := of_finds h
  rw [hvalue] at hv ⊢
  obtain ⟨x, hx, hlast, hext⟩ := Restriction.last_survivor (aligned_excludedSpans h.1) hv
  obtain ⟨a, b, htext, hstart, -⟩ := exists_append_of_mem_occurrences h.1
  refine ⟨(o.start + x.1, x.2), ?_, hlast, ?_⟩
  · rw [htext, Text.placed_append, Text.placed_append, Nat.zero_add, hstart,
      ← Nat.add_zero (Text.byteSize a), Text.placed_add]
    exact List.mem_append_left _ (List.mem_append_right _ (List.mem_map_of_mem hx))
  · rw [inputEnd, hext]
    exact Nat.add_assoc ..

end TimePhrase.Rule
