import TimePhrase.Proofs.Grammar.Extract
import TimePhrase.Proofs.Grammar.Load

/-!
# The order of the rules

The rules of a document can be written in any order. The grammar has the same rules then, each with
its own scripts, so the candidates of a query are the same ones in another order. Of two matches at
the same place that are equally long and have as many facts, the order decides which one is kept,
but no more than that.

* `exists_load_of_perm`  what another order of the rules does to a grammar
* `extract_of_isReordered`  what it does to a query
* `extract_of_perm`  both together
-/

namespace TimePhrase.Grammar

/-! ## Loading -/

/-- Elements that declare rules declare no resources. -/
theorem add_eq_of_declaresRule {e : Element} (h : e.declaresRule = true) (caseSensitive : Bool)
    (r : Resources) : r.add caseSensitive e = .ok r := by
  rw [Element.declaresRule, Bool.or_eq_true, Element.declares_iff, Element.declares_iff] at h
  simp only [Bool.false_eq_true, if_false, if_true] at h
  unfold Resources.add
  rcases h with h | h
  · rw [h, if_neg (by decide), if_neg (by decide), if_neg (by decide)]
  · rw [h, if_neg (by decide), if_neg (by decide), if_neg (by decide)]

theorem readResources_filter (caseSensitive : Bool) (r : Resources) (es : List Element) :
    readResources caseSensitive r es =
      readResources caseSensitive r (es.filter (!·.declaresRule)) := by
  induction es generalizing r with
  | nil => rfl
  | cons e es ih =>
    by_cases he : e.declaresRule = true
    · rw [List.filter_cons_of_neg (by simp [he]), ← ih]
      simp only [readResources, add_eq_of_declaresRule he]
    · rw [List.filter_cons_of_pos (by simp [he])]
      simp only [readResources]
      cases r.add caseSensitive e with
      | ok r => exact ih r
      | error err => simp only [ih r]

/-- A document with rules of a loaded one, and with everything else in it, is loaded, too. -/
theorem exists_load_of_reads [PropertyTable] {caseSensitive : Bool} {root root' : Element}
    {g : Grammar} (h : load caseSensitive root = .ok g)
    (hothers : root.elements.filter (!·.declaresRule) = root'.elements.filter (!·.declaresRule))
    {rs ns : List Rule}
    (hrs : Reads g.resources.fragments caseSensitive (root'.elements.filter (·.declares false)) rs)
    (hns : Reads g.resources.fragments caseSensitive (root'.elements.filter (·.declares true)) ns)
    (hsome : (rs ++ ns).Subperm g.book.all) :
    ∃ g', load caseSensitive root' = .ok g' ∧ g'.resources = g.resources ∧
      g'.book.rules = rs ∧ g'.book.negativeRules = ns := by
  obtain ⟨-, hresources, -⟩ := load_eq_ok.mp h
  have hsound := isSound_of_load h
  -- The ids are among the old ones, and so are the tags.
  have hids : ((RuleBook.empty.all ++ (rs ++ ns)).map Rule.id).Nodup := by
    obtain ⟨all, hperm, hsublist⟩ := hsome
    exact (hperm.map Rule.id).nodup_iff.mp (hsound.nodup.sublist (hsublist.map Rule.id))
  have hscripts : ∀ r ∈ rs ++ ns, ∀ t ∈ r.phrase.tags, ∃ s,
      TagScript.compile r.id (Part.name t.1) t.2 = .ok s := by
    intro r hr t ht
    obtain ⟨s, hs, -⟩ := hsound.keeps r (hsome.subset hr) t ht
    exact ⟨s, hs⟩
  obtain ⟨b', hread'⟩ := exists_readRules hrs hns hids hscripts
  have hresources' : readResources caseSensitive .empty root'.elements = (g.resources, []) := by
    rw [readResources_filter, ← hothers, ← readResources_filter]
    exact hresources
  have hload : load caseSensitive root' = .ok ⟨caseSensitive, g.resources, b'⟩ :=
    load_eq_ok.mpr ⟨rfl, hresources', hread'⟩
  obtain ⟨hrs', hns'⟩ := reads_of_load hload
  -- An element is read as one rule.
  have hunique : Relator.RightUnique fun e r =>
      Rule.ofElement? g.resources.fragments caseSensitive e = .ok r := by
    intro e r r' hr hr'
    rw [hr] at hr'
    exact Except.ok.inj hr'
  exact ⟨_, hload, rfl, List.right_unique_forall₂' hunique hrs' hrs,
    List.right_unique_forall₂' hunique hns' hns⟩

/-- Rules that are declared in another order are read in that order. -/
theorem exists_reads_of_perm [PropertyTable] {fragments : Fragments} {caseSensitive : Bool}
    {es es' : List Element} {rs : List Rule} (negative : Bool)
    (hperm : (es.filter (·.declaresRule)).Perm (es'.filter (·.declaresRule)))
    (hrs : Reads fragments caseSensitive (es.filter (·.declares negative)) rs) :
    ∃ rs', Reads fragments caseSensitive (es'.filter (·.declares negative)) rs' ∧ rs'.Perm rs := by
  have hsort (es : List Element) : (es.filter (·.declaresRule)).filter (·.declares negative) =
      es.filter (·.declares negative) := by
    rw [List.filter_filter]
    refine List.filter_congr fun e _ => ?_
    cases negative <;> simp +contextual [Element.declaresRule]
  have hsorts := hperm.filter (·.declares negative)
  rw [hsort, hsort] at hsorts
  exact List.perm_comp_forall₂ hsorts.symm hrs

/-- A grammar with the rules of another one in another order. -/
structure IsReordered (g g' : Grammar) : Prop where
  resources : g'.resources = g.resources
  rules : g'.book.rules.Perm g.book.rules
  negativeRules : g'.book.negativeRules.Perm g.book.negativeRules
  sound : g.book.IsSound
  sound' : g'.book.IsSound

theorem IsReordered.symm {g g' : Grammar} (h : IsReordered g g') : IsReordered g' g :=
  ⟨h.resources.symm, h.rules.symm, h.negativeRules.symm, h.sound', h.sound⟩

/-- A document whose rules are written in another order is loaded, too. -/
theorem exists_load_of_perm [PropertyTable] {caseSensitive : Bool} {root root' : Element}
    {g : Grammar} (h : load caseSensitive root = .ok g)
    (hrules : (root.elements.filter (·.declaresRule)).Perm (root'.elements.filter (·.declaresRule)))
    (hothers : root.elements.filter (!·.declaresRule) = root'.elements.filter (!·.declaresRule)) :
    ∃ g', load caseSensitive root' = .ok g' ∧ IsReordered g g' := by
  obtain ⟨hrs, hns⟩ := reads_of_load h
  obtain ⟨rs', hrs', hperm⟩ := exists_reads_of_perm false hrules hrs
  obtain ⟨ns', hns', hnperm⟩ := exists_reads_of_perm true hrules hns
  obtain ⟨g', hload, hresources, rfl, rfl⟩ :=
    exists_load_of_reads h hothers hrs' hns' (hperm.append hnperm).subperm
  exact ⟨g', hload, hresources, hperm, hnperm, isSound_of_load h, isSound_of_load hload⟩

/-! ## Extracting -/

variable {g g' : Grammar}

/-- The rules of the other grammar find the same matches. -/
theorem exists_foundBy_of_perm (h : IsReordered g g') {kinds : KindSet} {text : Text}
    {rules rules' : List Rule} {found : List Match} (hperm : rules'.Perm rules)
    (hrules : ∀ r ∈ rules, r ∈ g.book.all ∧ r ∈ g'.book.all)
    (hfound : g.foundBy kinds text rules = .ok found) :
    ∃ found', g'.foundBy kinds text rules' = .ok found' ∧ found'.Perm found := by
  have hsame : g'.foundBy kinds text rules = .ok found := by
    rw [← hfound]
    refine foundBy_eq h.resources fun r hr => ?_
    obtain ⟨hg, hg'⟩ := hrules r hr
    exact ⟨h.sound.isSettled hg, h.sound'.isSettled hg'⟩
  obtain ⟨founds, hfounds, rfl⟩ := Except.map_eq_ok.mp hsame
  obtain ⟨founds', hfounds', hflat⟩ :=
    Except.mapM_perm (hperm.symm.filter (asks kinds)) hfounds
  exact ⟨founds'.flatten, Except.map_eq_ok.mpr ⟨founds', hfounds', rfl⟩, hflat.flatten⟩

/-- Whether a match is suppressed can be told from its outline. -/
theorem map_outline_filter (negatives : List Match) {l l' : List Match}
    (h : l.map Match.outline = l'.map Match.outline) :
    (l.filter fun m => !suppressed negatives m).map Match.outline =
      (l'.filter fun m => !suppressed negatives m).map Match.outline := by
  have hfilter (l : List Match) : (l.filter fun m => !suppressed negatives m).map Match.outline =
      (l.map Match.outline).filter fun o =>
        !negatives.any fun n => n.index ≤ o.1 && o.2.1 ≤ n.stop := by
    rw [List.filter_map]
    rfl
  rw [hfilter, hfilter, h]

/-- What is extracted with the rules in one order is extracted with them in the other order, up to
    the choice between matches of the same outline. -/
theorem extract_of_isReordered (h : IsReordered g g') {kinds : KindSet} {text : Text}
    {out : List Match} (hout : (g.extract kinds text).2 = .ok out) :
    ∃ out', (g'.extract kinds text).2 = .ok out' ∧
      out'.map Match.outline = out.map Match.outline := by
  obtain ⟨found, negatives, hfound, hnegatives, rfl⟩ := exists_found_of_extract hout
  obtain ⟨found', hfound', hperm⟩ := exists_foundBy_of_perm h h.rules
    (fun r hr => ⟨List.mem_append_left _ hr, List.mem_append_left _ (h.rules.mem_iff.mpr hr)⟩) hfound
  obtain ⟨negatives', hnegatives', hnperm⟩ := exists_foundBy_of_perm h h.negativeRules
    (fun r hr => ⟨List.mem_append_right _ hr,
      List.mem_append_right _ (h.negativeRules.mem_iff.mpr hr)⟩) hnegatives
  refine ⟨(Match.resolve (sortBy Match.index found')).filter fun m =>
    !suppressed negatives' m, ?_, ?_⟩
  · rw [snd_extract, hfound', hnegatives']
    rfl
  · rw [suppressed_perm hnperm]
    apply map_outline_filter
    -- Sorting the candidates again leaves another order of the same candidates.
    have hsorted : (sortBy Match.index found').Perm (sortBy Match.index found) :=
      (sortBy_perm Match.index found').trans (hperm.trans (sortBy_perm Match.index found).symm)
    have hgreedy (l : List Match) := Match.isGreedy_resolve (pairwise_sortBy Match.index l)
    exact (hgreedy found').outlines_eq (hgreedy found) hsorted

/-- A document that loads does so with its rules in any other order. A query on the one grammar
    succeeds if it succeeds on the other, and then extracts as many matches, with the same places,
    ends and numbers of facts. -/
theorem extract_of_perm [PropertyTable] {caseSensitive : Bool} {root root' : Element}
    (h : load caseSensitive root = .ok g)
    (hrules : (root.elements.filter (·.declaresRule)).Perm
      (root'.elements.filter (·.declaresRule)))
    (hothers : root.elements.filter (!·.declaresRule) = root'.elements.filter (!·.declaresRule)) :
    ∃ g', load caseSensitive root' = .ok g' ∧ ∀ kinds text,
      ((∃ out, (g'.extract kinds text).2 = .ok out) ↔ ∃ out, (g.extract kinds text).2 = .ok out) ∧
      ∀ out out', (g.extract kinds text).2 = .ok out → (g'.extract kinds text).2 = .ok out' →
        out'.map (fun m => (m.index, m.stop, m.facts.size)) =
          out.map fun m => (m.index, m.stop, m.facts.size) := by
  obtain ⟨g', hload, hreordered⟩ := exists_load_of_perm h hrules hothers
  refine ⟨g', hload, fun kinds text => ⟨⟨?_, ?_⟩, ?_⟩⟩
  · rintro ⟨out', hout'⟩
    obtain ⟨out, hout, -⟩ := extract_of_isReordered hreordered.symm hout'
    exact ⟨out, hout⟩
  · rintro ⟨out, hout⟩
    obtain ⟨out', hout', -⟩ := extract_of_isReordered hreordered hout
    exact ⟨out', hout'⟩
  · intro out out' hout hout'
    obtain ⟨out₁, hout₁, hsame⟩ := extract_of_isReordered hreordered hout
    rw [hout'] at hout₁
    obtain rfl := Except.ok.inj hout₁
    exact hsame

/-! ## A sample -/

/-- Two rules with the same matches, a third one, and a negative rule. -/
def contesting : List Node :=
  [dateRule "rule" "first" "a" [itemOf "a"], dateRule "negative_rule" "no" "b" [itemOf "b"],
    dateRule "rule" "second" "a" [itemOf "a"], dateRule "rule" "other" "b" [itemOf "b"]]

/-- The rules of a document, in this order. -/
def inOrder (rules : List Node) : Element := ⟨"grammar", .empty, rules⟩

/-- The rule that is written first has the match at `a`; nothing else depends on the order. -/
theorem extract_of_perm_contesting : ∃ g g' out out',
    load true (inOrder contesting) = .ok g ∧ load true (inOrder contesting.reverse) = .ok g' ∧
    (g.extract .all "b a").2 = .ok out ∧ (g'.extract .all "b a").2 = .ok out' ∧
    out.map Match.ruleId = ["first".toList] ∧ out'.map Match.ruleId = ["second".toList] ∧
    out'.map (fun m => (m.index, m.stop, m.facts.size)) =
      out.map fun m => (m.index, m.stop, m.facts.size) := by
  have hrun : (answer? (inOrder contesting) "b a").map (·.2.map Match.ruleId) =
      some ["first".toList] := by
    decide +kernel
  have hrun' : (answer? (inOrder contesting.reverse) "b a").map (·.2.map Match.ruleId) =
      some ["second".toList] := by
    decide +kernel
  obtain ⟨⟨g, out⟩, hanswer, hids⟩ := Option.map_eq_some_iff.mp hrun
  obtain ⟨⟨g', out'⟩, hanswer', hids'⟩ := Option.map_eq_some_iff.mp hrun'
  obtain ⟨hload, hout⟩ := of_answer? hanswer
  obtain ⟨hload', hout'⟩ := of_answer? hanswer'
  have hperm : ((inOrder contesting).elements.filter (·.declaresRule)).Perm
      ((inOrder contesting.reverse).elements.filter (·.declaresRule)) :=
    (List.reverse_perm _).symm
  obtain ⟨g₁, hload₁, hsame⟩ := extract_of_perm hload hperm rfl
  rw [hload'] at hload₁
  obtain rfl := Except.ok.inj hload₁
  exact ⟨g, g', out, out', hload, hload', hout, hout', hids, hids',
    (hsame .all "b a").2 out out' hout hout'⟩

end TimePhrase.Grammar
