import TimePhrase.Proofs.Pattern.Closing.Reader
import TimePhrase.Proofs.Rule.Actions
import TimePhrase.Proofs.Rule.Placement

/-!
# The two patterns of a rule

A rule is searched for with one pattern and compared to whole texts with another one, which is read
from the same expression between anchors. Where the whole of a text matches, the expression spans
the text from its first byte on, so the search finds something there, though it may be shorter.

* `isIn_exactPattern_iff_spans`  when the whole of a text matches
* `exists_occurrences_of_isIn`  what the search finds in a text that matches as a whole
* `matchAll_of_matchExact`  the answers of the rule
-/

namespace TimePhrase.Rule

variable {fragments : Fragments} {caseSensitive : Bool} {e : Element} {r r' : Rule}
  {scripts : Provider} {tables : Tables} {text : Text} {o : Occurrence} {os : List Occurrence}

/-! ## The patterns -/

/-- The whole of a text matches if the pattern that is searched for spans all of it. -/
theorem isIn_exactPattern_iff_spans [PropertyTable] (h : IsReadFrom fragments caseSensitive e r)
    (text : Text) :
    r.exactPattern.isIn text = true ↔ Pattern.Spans text r.pattern 0 (Text.byteSize text) := by
  constructor
  · intro hin
    obtain ⟨i, j, hspans⟩ := Pattern.exists_spans_of_isIn hin
    exact ((Pattern.spans_of_read?_anchored h.pattern h.exactPattern).mp hspans).2.2
  · intro hspans
    apply Pattern.isIn_of_spans_zero
    exact (Pattern.spans_of_read?_anchored h.pattern h.exactPattern).mpr ⟨rfl, rfl, hspans⟩

/-- Then the first occurrence begins where the text does, though it may end before. -/
theorem exists_occurrences_of_isIn [PropertyTable] (h : IsReadFrom fragments caseSensitive e r)
    (hin : r.exactPattern.isIn text = true) :
    ∃ o os, r.pattern.occurrences text = o :: os ∧ o.start = 0 := by
  have hspans := (isIn_exactPattern_iff_spans h text).mp hin
  obtain ⟨o, ho, hstart⟩ := Pattern.exists_firstIn?_of_spans_zero hspans
  have hos : r.pattern.occurrences text =
      o :: r.pattern.occurrencesFrom (text.length + 1) (r.pattern.nextAfter? o.stop) := by
    rw [Pattern.occurrences, ho]
    rfl
  exact ⟨o, _, hos, hstart⟩

/-! ## Answers -/

/-- An answer with matches, the first of which is made of the occurrence `o`, or with a fault of one
    of the rule's scripts. -/
def IsLedBy (r : Rule) (tables : Tables) (text : Text) (o : Occurrence) :
    Except MatchError (List Match) → Prop
  | .ok ms => ∃ m others, ms = m :: others ∧ r.matchOf tables text o = .ok m
  | .error e => ∃ part cause, e = .script r.id part cause

theorem isLedBy_mapM (r : Rule) (tables : Tables) (text : Text) (o : Occurrence)
    (os : List Occurrence) :
    r.IsLedBy tables text o ((o :: os).mapM (r.matchOf tables text)) := by
  cases hanswer : (o :: os).mapM (r.matchOf tables text) with
  | error e =>
    obtain ⟨p, -, hp⟩ := Except.exists_of_mapM_eq_error hanswer
    exact exists_script_of_matchOf hp
  | ok ms =>
    obtain ⟨m, others, hm, -, rfl⟩ :=
      List.forall₂_cons_left_iff.mp (Except.mapM_eq_ok_iff.mp hanswer)
    exact ⟨m, others, rfl, hm⟩

theorem isLedBy_matchAll (hr : r.realize scripts = .ok r')
    (hos : r.pattern.occurrences text = o :: os) :
    r'.IsLedBy tables text o (r.matchAll scripts tables text).2 := by
  rw [matchAll, hos, matchesOf, hr]
  exact isLedBy_mapM r' tables text o os

theorem of_matchExact {m : Match} (h : r.matchExact scripts tables text = (r', .ok (some m))) :
    r.exactPattern.isIn text = true ∧ r.realize scripts = .ok r' := by
  unfold matchExact matchesOf at h
  rw [Pattern.isIn]
  cases hfirst : r.exactPattern.firstIn? text with
  | none => simp [hfirst, Except.map] at h
  | some o =>
    refine ⟨rfl, ?_⟩
    cases hr : r.realize scripts with
    | error err => simp [hfirst, hr, Except.map] at h
    | ok q =>
      obtain ⟨rfl, -⟩ : q = r' ∧ _ := by simpa [hfirst, hr] using h
      rfl

/-- Where the pattern of a call is found, the answer is a fault or has a match. -/
theorem Call.run_ne_nil {c : Call} (hc : c.isMatched r = true) : (c.run r).2 ≠ .ok [] := by
  rw [Call.run_eq_of_isMatched hc]
  cases r.realize c.scripts with
  | error err => exact nofun
  | ok q =>
    intro hnil
    have hos : c.occurrences r = [] := List.forall₂_nil_right_iff.mp (Except.mapM_eq_ok_iff.mp hnil)
    have hempty := c.occurrences_isEmpty r
    rw [hos, hc] at hempty
    exact nomatch hempty

/-- The whole of a text matches a compiled rule if the pattern that the rule is searched for with
    spans it. If it does match, then the rule also finds matches in the text, unless one of its
    scripts fails: the first occurrence begins where the text does, and the first match is made of it.
    This holds whether or not the rule had its scripts before, and of all later searches. Its own
    example the rule never passes over. -/
theorem matchAll_of_matchExact [PropertyTable] {registry registry' : Registry}
    (h : compile fragments caseSensitive registry e = (registry', .ok r.unasked)) :
    (∀ text, r.exactPattern.isIn text = true ↔
      Pattern.Spans text r.pattern 0 (Text.byteSize text)) ∧
    (∀ (scripts : Provider) (tables : Tables) (text : Text) (r' : Rule) (m : Match),
      r.matchExact scripts tables text = (r', .ok (some m)) →
      ∃ o os, r.pattern.occurrences text = o :: os ∧ o.start = 0 ∧
        r'.IsLedBy tables text o (r.matchAll scripts tables text).2 ∧
        ∀ (scripts' : Provider) (tables' : Tables),
          r'.IsLedBy tables' text o (r'.matchAll scripts' tables' text).2) ∧
    ∀ (scripts : Provider) (tables : Tables),
      (r.matchExact scripts tables r.sample).2 ≠ .ok none ∧
      (r.matchAll scripts tables r.sample).2 ≠ .ok [] := by
  obtain ⟨hcompile, -⟩ := compile_eq_ok.mp h
  -- Neither the patterns nor the example depend on whether the rule has its scripts.
  have hread := isReadFrom_of_ofElement? hcompile
  have hwhole := isIn_exactPattern_iff_spans hread
  refine ⟨hwhole, ?_, ?_⟩
  · intro scripts tables text r' m hm
    obtain ⟨hin, hr⟩ := of_matchExact hm
    obtain ⟨o, os, hos, hstart⟩ := exists_occurrences_of_isIn hread hin
    refine ⟨o, os, hos, hstart, isLedBy_matchAll hr hos, fun scripts' tables' => ?_⟩
    -- The rule has its scripts by now, whatever the later search brings along.
    obtain ⟨actions, rfl⟩ := exists_actions_of_realize hr
    exact isLedBy_matchAll rfl hos
  · intro scripts tables
    obtain ⟨hin, hexactIn⟩ := isIn_sample hcompile
    constructor
    · intro hnone
      have hmatched : Call.isMatched ⟨true, scripts, tables, r.sample⟩ r = true := hexactIn
      exact Call.run_ne_nil hmatched (congrArg (Except.map Option.toList) hnone)
    · have hmatched : Call.isMatched ⟨false, scripts, tables, r.sample⟩ r = true := hin
      exact Call.run_ne_nil hmatched

/-! ## A sample -/

/-- A decimal digit of any script, with no word character below 128 behind it. -/
def digitFragment : Fragment := ⟨⟨"digit", .hidden⟩, "\\p{Nd}(?-u:\\b\x7bend-half\x7d)"⟩

/-- A rule whose expression prefers the month alone to the month with a day. -/
def monthRule : Element :=
  ⟨"rule", .ofList [("id", "month"), ("type", "date"), ("example", "mai 5")],
    [.element "one-of" .empty
      [.element "item" .empty [.text "mai"],
        .element "item" .empty
          [.text "mai", .element "ruleref" (.ofList [("uri", "#digit")]) []]]]⟩

/-- As a whole `mai 5` is a month with a day. In a search the month alone comes first. -/
theorem matchAll_of_matchExact_monthRule : ∃ scripts r r' m o os ms,
    Rule.compile [digitFragment] true .empty monthRule = (scripts, .ok r) ∧
    r.matchExact scripts [] "mai 5" = (r', .ok (some m)) ∧ m.value = "mai 5" ∧
    (r.exactPattern.isIn "mai 5" = true ↔ Pattern.Spans "mai 5" r.pattern 0 5) ∧
    (r.matchAll scripts [] "mai 5").2 = .ok ms ∧ ms.map (·.value) = ["mai".toList] ∧
    r.pattern.occurrences "mai 5" = o :: os ∧ o.start = 0 ∧
    r'.IsLedBy [] "mai 5" o (.ok ms) ∧
    (r.matchExact scripts [] r.sample).2 ≠ .ok none ∧
    (r.matchAll scripts [] r.sample).2 ≠ .ok [] := by
  have hrun : (tried? [digitFragment] monthRule "mai 5" "mai 5").map (fun a =>
      (a.2.2.1.map (·.value), a.2.2.2.value)) = some (["mai".toList], "mai 5".toList) := by
    decide +kernel
  obtain ⟨⟨scripts, r, ms, m⟩, htried, hvalues⟩ := Option.map_eq_some_iff.mp hrun
  obtain ⟨hms, hm⟩ := Prod.mk.inj hvalues
  obtain ⟨hcompile, hall, hexact⟩ := of_tried? htried
  have hfresh : r.unasked = r :=
    unasked_of_actions (isReadFrom_of_ofElement? (compile_eq_ok.mp hcompile).1).actions
  have hwhole : r.matchExact scripts [] "mai 5" =
      ((r.matchExact scripts [] "mai 5").1, .ok (some m)) := Prod.ext rfl hexact
  obtain ⟨hspans, hfound, hsample⟩ := matchAll_of_matchExact (hfresh.symm ▸ hcompile)
  obtain ⟨o, os, hos, hstart, hled, -⟩ := hfound scripts [] "mai 5" _ m hwhole
  rw [hall] at hled
  obtain ⟨hsome, hne⟩ := hsample scripts []
  exact ⟨scripts, r, _, m, o, os, ms, hcompile, hwhole, hm, hspans "mai 5", hall, hms, hos, hstart,
    hled, hsome, hne⟩

end TimePhrase.Rule
