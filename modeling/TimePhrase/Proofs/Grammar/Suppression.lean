import TimePhrase.Proofs.Grammar.Deletion

/-!
# More negative rules

Negative rules are asked after the overlaps of the other matches have been resolved, and then take
matches away, each of them on its own. So a document with more of them extracts what it did without
them, in the same order, except for what their matches enclose. No match comes to light because
another one has been suppressed.

* `IsThinned.mem_foundBy_negativeRules`  what is found with more negative rules
* `IsThinned.extract_of_negativeRules`  what is extracted with them
* `extract_of_inserted`  negative rules that are inserted into a document
-/

namespace TimePhrase.Grammar

theorem suppressed_iff {negatives : List Match} {m : Match} : suppressed negatives m = true ↔
    ∃ n ∈ negatives, n.index ≤ m.index ∧ m.stop ≤ n.stop := by
  simp only [suppressed, List.any_eq_true, Match.encloses, Bool.and_eq_true, decide_eq_true_eq]

/-- What remains of a list when more of it is suppressed. -/
theorem filter_suppressed {negatives negatives' : List Match} (h : negatives ⊆ negatives')
    (l : List Match) : (l.filter fun m => !suppressed negatives' m) =
      (l.filter fun m => !suppressed negatives m).filter fun m => !suppressed negatives' m := by
  rw [List.filter_filter]
  refine List.filter_congr fun m _ => ?_
  cases hs : suppressed negatives m with
  | false => simp
  | true =>
    obtain ⟨n, hn, hencloses⟩ := suppressed_iff.mp hs
    rw [suppressed_iff.mpr ⟨n, h hn, hencloses⟩]
    rfl

/-- With more negative rules, their matches are found besides the others. -/
theorem IsThinned.mem_foundBy_negativeRules {g g' : Grammar} {rs ns : List Rule}
    (h : IsThinned g g' rs ns) {kinds : KindSet} {text : Text} {found found' : List Match}
    (hfound : g.foundBy kinds text g.book.negativeRules = .ok found)
    (hfound' : g'.foundBy kinds text g'.book.negativeRules = .ok found') {m : Match} :
    m ∈ found ↔ m ∈ found' ∨ ∃ r ∈ ns, asks kinds r = true ∧
      ∃ ms, (r.matchAll g.book.scripts g.resources.tables text).2 = .ok ms ∧ m ∈ ms := by
  rw [Grammar.foundBy_eq h.resources fun r hr => h.isSettled (List.mem_append_right _ hr)] at hfound'
  rw [mem_foundBy hfound, mem_foundBy hfound']
  simp only [h.negativeRules.mem_iff, or_and_right, exists_or]

/-- Negative rules suppress what their matches enclose, and nothing else changes. -/
theorem IsThinned.extract_of_negativeRules {g g' : Grammar} {ns : List Rule}
    (h : IsThinned g g' [] ns) {kinds : KindSet} {text : Text} {out out' : List Match}
    (hout : (g.extract kinds text).2 = .ok out) (hout' : (g'.extract kinds text).2 = .ok out') :
    out.Sublist out' ∧ ∀ m ∈ out', m ∉ out ↔ ∃ r ∈ ns, asks kinds r = true ∧
      ∃ ms, (r.matchAll g.book.scripts g.resources.tables text).2 = .ok ms ∧
        ∃ n ∈ ms, n.index ≤ m.index ∧ m.stop ≤ n.stop := by
  obtain ⟨found, negatives, hfound, hnegatives, rfl⟩ := exists_found_of_extract hout
  obtain ⟨found', negatives', hfound', hnegatives', rfl⟩ := exists_found_of_extract hout'
  rw [h.foundBy_rules (by simp), hfound] at hfound'
  obtain rfl := Except.ok.inj hfound'
  have hmem {n : Match} := h.mem_foundBy_negativeRules hnegatives hnegatives' (m := n)
  -- Both queries filter the same matches, the first one for more.
  rw [filter_suppressed fun n hn => hmem.mpr (.inl hn)]
  refine ⟨List.filter_sublist, fun m hm => ?_⟩
  have hkept : suppressed negatives' m = false := by simpa using (List.mem_filter.mp hm).2
  rw [List.mem_filter, and_iff_right hm, Bool.not_eq_true, Bool.not_eq_false', suppressed_iff]
  constructor
  · rintro ⟨n, hn, hencloses⟩
    rcases hmem.mp hn with hn | ⟨r, hr, hasked, ms, hms, hnms⟩
    · -- Such a match would have been suppressed before.
      rw [suppressed_iff.mpr ⟨n, hn, hencloses⟩] at hkept
      exact nomatch hkept
    · exact ⟨r, hr, hasked, ms, hms, n, hnms, hencloses⟩
  · rintro ⟨r, hr, hasked, ms, hms, n, hnms, hencloses⟩
    exact ⟨n, hmem.mpr (.inr ⟨r, hr, hasked, ms, hms, hnms⟩), hencloses⟩

/-- A document without some of its negative rules has all of the other rules. -/
theorem exists_isThinned_of_inserted [PropertyTable] {caseSensitive : Bool} {root root' : Element}
    {g g' : Grammar} {inserted : List Element} (h : load caseSensitive root = .ok g)
    (h' : load caseSensitive root' = .ok g')
    (hinserted : Interleaved root.elements inserted root'.elements)
    (hnegative : ∀ e ∈ inserted, e.declares true = true) :
    ∃ ns, Reads g'.resources.fragments caseSensitive inserted ns ∧ IsThinned g' g [] ns := by
  obtain ⟨g₀, rs, ns, hload, hrs, hns, hthinned⟩ :=
    exists_load_of_interleaved h' hinserted fun e he => by
      rw [Element.declaresRule, hnegative e he, Bool.or_true]
  rw [h] at hload
  obtain rfl := Except.ok.inj hload
  -- No other rule has been inserted.
  have hnone : inserted.filter (·.declares false) = [] :=
    List.filter_eq_nil_iff.mpr fun e he hpos => Element.not_declares_both hpos (hnegative e he)
  rw [hnone] at hrs
  obtain rfl := List.forall₂_nil_left_iff.mp hrs
  rw [List.filter_eq_self.mpr hnegative] at hns
  exact ⟨ns, hns, hthinned⟩

/-- Negative rules that are inserted into a document only ever suppress. What is extracted from a
    text is what was extracted without them, in the same order, except for those matches that a match
    of an inserted rule encloses, if this rule is exposed and of one of the kinds asked for. The
    other queries answer as before. Again it does not matter what has been asked in the meantime. -/
theorem extract_of_inserted [PropertyTable] {caseSensitive : Bool} {root root' : Element}
    {g g' : Grammar} {inserted : List Element} (h : load caseSensitive root = .ok g)
    (h' : load caseSensitive root' = .ok g')
    (hinserted : Interleaved root.elements inserted root'.elements)
    (hnegative : ∀ e ∈ inserted, e.declares true = true) (qs qs' : List Query) :
    (∀ text, ((g'.after qs').matchAll text).2 = ((g.after qs).matchAll text).2) ∧
    (∀ kinds text,
      ((g'.after qs').matchExact kinds text).2 = ((g.after qs).matchExact kinds text).2) ∧
    ∀ kinds text out out', ((g.after qs).extract kinds text).2 = .ok out →
      ((g'.after qs').extract kinds text).2 = .ok out' →
      out'.Sublist out ∧
      ∀ m ∈ out, m ∉ out' ↔ ∃ e ∈ inserted, ∃ r ∈ g'.book.negativeRules,
        Rule.ofElement? g'.resources.fragments caseSensitive e = .ok r ∧
        r.isExposed = true ∧ kinds.has r.kind = true ∧
        ∃ ns, (r.matchAll g'.book.scripts g'.resources.tables text).2 = .ok ns ∧
          ∃ n ∈ ns, n.index ≤ m.index ∧ m.stop ≤ n.stop := by
  obtain ⟨rules, hread, hthinned⟩ := exists_isThinned_of_inserted h h' hinserted hnegative
  -- The grammars can be asked as if nothing had been asked before.
  have hsame (q : Query) : (q.ask (g.after qs)).2 = (q.ask g).2 := snd_ask_after h qs q
  have hsame' (q : Query) : (q.ask (g'.after qs')).2 = (q.ask g').2 := snd_ask_after h' qs' q
  refine ⟨fun text => ?_, fun kinds text => ?_, fun kinds text out out' hout hout' => ?_⟩
  · rw [Answer.listed.inj (hsame (.matchAll text)), Answer.listed.inj (hsame' (.matchAll text))]
    exact (hthinned.matchAll (by simp) text).symm
  · rw [Answer.whole.inj (hsame (.matchExact kinds text)),
      Answer.whole.inj (hsame' (.matchExact kinds text))]
    exact (hthinned.matchExact (by simp) text).symm
  · rw [Answer.listed.inj (hsame (.extract kinds text))] at hout
    rw [Answer.listed.inj (hsame' (.extract kinds text))] at hout'
    obtain ⟨hsublist, hmissing⟩ := hthinned.extract_of_negativeRules hout' hout
    refine ⟨hsublist, fun m hm => (hmissing m hm).trans ?_⟩
    constructor
    · rintro ⟨r, hr, hasked, hencloses⟩
      obtain ⟨e, he, hof⟩ := Except.exists_of_mapM_eq_ok (Except.mapM_eq_ok_iff.mpr hread) r hr
      obtain ⟨hexposed, hkind⟩ := Bool.and_eq_true_iff.mp hasked
      exact ⟨e, he, r, hthinned.negativeRules.mem_iff.mpr (.inr hr), hof, hexposed, hkind, hencloses⟩
    · rintro ⟨e, he, r, -, hof, hexposed, hkind, hencloses⟩
      have hr := (Except.mem_iff_of_mapM_eq_ok (Except.mapM_eq_ok_iff.mpr hread)).mpr ⟨e, he, hof⟩
      exact ⟨r, hr, Bool.and_eq_true_iff.mpr ⟨hexposed, hkind⟩, hencloses⟩

/-! ## A sample -/

/-- Two rules for words, and a negative rule between them. -/
def withPair : List Node :=
  [dateRule "rule" "first" "a" [itemOf "a"],
    dateRule "negative_rule" "pair" "a b" [itemOf "a", itemOf "b"],
    dateRule "rule" "second" "b" [itemOf "b"]]

/-- The document without the negative rule. -/
def withoutPair : List Node := withPair.eraseIdx 1

/-- The pair takes two matches away at once, and leaves the `b` that does not belong to it. -/
theorem extract_of_inserted_withPair : ∃ g g' out out',
    load true ⟨"grammar", .empty, withoutPair⟩ = .ok g ∧
    load true ⟨"grammar", .empty, withPair⟩ = .ok g' ∧
    (g.extract .all "a b b").2 = .ok out ∧ (g'.extract .all "a b b").2 = .ok out' ∧
    out.map Match.index = [0, 2, 4] ∧ out'.map Match.index = [4] ∧ out'.Sublist out := by
  have hrun : (answer? ⟨"grammar", .empty, withoutPair⟩ "a b b").map (·.2.map Match.index) =
      some [0, 2, 4] := by
    decide +kernel
  have hrun' : (answer? ⟨"grammar", .empty, withPair⟩ "a b b").map (·.2.map Match.index) =
      some [4] := by
    decide +kernel
  obtain ⟨⟨g, out⟩, hanswer, hplaces⟩ := Option.map_eq_some_iff.mp hrun
  obtain ⟨⟨g', out'⟩, hanswer', hplaces'⟩ := Option.map_eq_some_iff.mp hrun'
  obtain ⟨hload, hout⟩ := of_answer? hanswer
  obtain ⟨hload', hout'⟩ := of_answer? hanswer'
  have hinserted : Interleaved (Element.elements ⟨"grammar", .empty, withoutPair⟩)
      (((withPair.drop 1).take 1).filterMap Node.element?)
      (Element.elements ⟨"grammar", .empty, withPair⟩) :=
    .left (.right (.left .nil))
  obtain ⟨-, -, hextract⟩ := extract_of_inserted hload hload' hinserted (by decide) [] []
  exact ⟨g, g', out, out', hload, hload', hout, hout', hplaces, hplaces',
    (hextract .all "a b b" out out' hout hout').1⟩

end TimePhrase.Grammar
