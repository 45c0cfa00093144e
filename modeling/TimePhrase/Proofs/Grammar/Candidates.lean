import TimePhrase.CommandLine.Outcome
import TimePhrase.Proofs.Grammar.Deletion
import TimePhrase.Proofs.Rule.Placement

/-!
# All matches and those of some kinds

A query for everything asks all exposed rules and sorts what they find. A query for some kinds asks
the rules of these kinds only. The matches of a rule have its kind, so the second query finds what
is left of the first one's matches without the other kinds, and since sorting is stable they come in
the same order. A rule that is not asked cannot fail, so nothing can go wrong for some kinds if all
rules have answered.

* `findsAll_of_matchAll`, `kind_of_mem_matchAll`  the matches of one rule
* `foundBy_of_all`  the matches of the rules of some kinds
* `snd_candidates_of_matchAll`  the candidates of a query for some kinds
* `exists_founds_of_matchAll`  the order of all matches
* `matchAll_candidates`  both queries of a loaded grammar, at any time
-/

namespace TimePhrase

/-! ## One rule -/

namespace Rule

variable {r : Rule} {scripts : Registry} {tables : Tables} {text : Text} {ms : List Match}

/-- What a rule has found in a text: a match for each of its occurrences, from left to right. -/
structure FindsAll (r : Rule) (scripts : Registry) (tables : Tables) (text : Text)
    (ms : List Match) : Prop where
  answer : (r.matchAll scripts tables text).2 = .ok ms
  found : List.Forall₂ (r.Finds scripts tables text) (r.pattern.occurrences text) ms
  ordered : ms.Pairwise fun m n => m.stop ≤ n.index

theorem forall₂_finds_of_matchAll (h : (r.matchAll scripts tables text).2 = .ok ms) :
    List.Forall₂ (r.Finds scripts tables text) (r.pattern.occurrences text) ms := by
  unfold matchAll matchesOf at h
  split at h
  · rename_i hnone
    rw [List.isEmpty_iff.mp hnone]
    obtain rfl := Except.ok.inj h
    exact List.Forall₂.nil
  · split at h
    · exact nomatch h
    · rename_i r' hr'
      have hmatch := Except.mapM_eq_ok_iff.mp h
      refine ((List.forall₂_and_left _ ms).mpr ⟨fun o ho => ho, hmatch⟩).imp fun o m hom => ?_
      exact ⟨hom.1, r', hr', hom.2⟩

/-- If a rule answers, it has found everything there is. -/
theorem findsAll_of_matchAll (h : (r.matchAll scripts tables text).2 = .ok ms) :
    r.FindsAll scripts tables text ms where
  answer := h
  found := forall₂_finds_of_matchAll h
  ordered := by
    have hocc : ∀ o ∈ r.pattern.occurrences text, ∃ a w, Pattern.IsOccurrence text o a w :=
      fun o ho => Pattern.isOccurrence_of_mem_occurrences ho
    refine pairwise_of_forall₂ (forall₂_of_matchesOf h hocc) (fun o ho => ?_)
      (Pattern.pairwise_occurrences r.pattern text)
    obtain ⟨a, w, ho⟩ := hocc o ho
    exact ho.start_le_stop

/-- The matches of a rule have its kind. -/
theorem kind_of_mem_matchAll (h : (r.matchAll scripts tables text).2 = .ok ms) :
    ∀ m ∈ ms, m.kind = r.kind := by
  intro m hm
  obtain ⟨o, -, r', hr', hmatch⟩ := exists_finds_of_matchAll h m hm
  obtain ⟨actions, rfl⟩ := exists_actions_of_realize hr'
  obtain ⟨facts, -, hm⟩ := Except.bind_eq_ok.mp hmatch
  rw [← Except.ok.inj hm]

end Rule

namespace Grammar

variable {g : Grammar} {text : Text}

/-! ## All rules -/

@[simp] theorem asks_all (r : Rule) : asks .all r = r.isExposed := by
  have hall : KindSet.all.has r.kind = true := by cases r.kind <;> rfl
  rw [asks, hall, Bool.and_true]

/-- The rules of some kinds find what the rules of all kinds do, without the other kinds. -/
theorem foundBy_of_all {rules : List Rule} {found : List Match}
    (h : g.foundBy .all text rules = .ok found) (kinds : KindSet) :
    g.foundBy kinds text rules = .ok (found.filter fun m => kinds.has m.kind) := by
  have hrules : rules.filter (asks kinds) =
      (rules.filter (asks .all)).filter fun r => kinds.has r.kind := by
    rw [List.filter_filter]
    refine List.filter_congr fun r _ => ?_
    rw [asks_all, asks, Bool.and_comm]
  rw [foundBy, hrules]
  refine Except.flatten_mapM_filter h fun r _ ms hms m hm => ?_
  rw [Rule.kind_of_mem_matchAll hms m hm]

/-- The candidates of some kinds are what is left of all matches without the other kinds. -/
theorem snd_candidates_of_matchAll {all : List Match} (h : (g.matchAll text).2 = .ok all)
    (kinds : KindSet) :
    (g.candidates kinds text).2 = .ok (all.filter fun m => kinds.has m.kind) := by
  rw [matchAll, snd_candidates] at h
  obtain ⟨found, hfound, rfl⟩ := Except.map_eq_ok.mp h
  rw [snd_candidates, foundBy_of_all hfound kinds, ← sortBy_filter]
  rfl

/-- If all rules have answered, only the negative rules are left to fail. -/
theorem snd_extract_of_matchAll {all : List Match} (h : (g.matchAll text).2 = .ok all)
    (kinds : KindSet) :
    (g.extract kinds text).2 =
      (g.foundBy kinds text g.book.negativeRules).map fun negatives =>
        (Match.resolve (all.filter fun m => kinds.has m.kind)).filter fun m =>
          !suppressed negatives m := by
  have hcandidates := snd_candidates_of_matchAll h kinds
  rw [snd_candidates] at hcandidates
  obtain ⟨found, hfound, hsorted⟩ := Except.map_eq_ok.mp hcandidates
  rw [snd_extract, hfound, ← hsorted]
  cases g.foundBy kinds text g.book.negativeRules <;> rfl

/-- What is extracted has been among the candidates. -/
theorem sublist_of_extract {kinds : KindSet} {out candidates : List Match}
    (h : (g.candidates kinds text).2 = .ok candidates) (hout : (g.extract kinds text).2 = .ok out) :
    out.Sublist candidates := by
  obtain ⟨found, negatives, hfound, -, rfl⟩ := exists_found_of_extract hout
  rw [snd_candidates, hfound] at h
  obtain rfl := Except.ok.inj h
  have hgreedy := Match.isGreedy_resolve (pairwise_sortBy Match.index found)
  exact List.filter_sublist.trans hgreedy.sublist

/-- All exposed rules together have found what each of them has found, in the order of the places,
    and at the same place in the order of the rules. -/
theorem exists_founds_of_matchAll {all : List Match} (h : (g.matchAll text).2 = .ok all) :
    ∃ founds, List.Forall₂ (fun r ms => r.FindsAll g.book.scripts g.resources.tables text ms)
        (g.book.rules.filter Rule.isExposed) founds ∧
      SortedFrom Match.index founds.flatten all := by
  rw [matchAll, snd_candidates] at h
  obtain ⟨found, hfound, rfl⟩ := Except.map_eq_ok.mp h
  obtain ⟨founds, hfounds, rfl⟩ := Except.map_eq_ok.mp hfound
  refine ⟨founds, ?_, sortedFrom_sortBy Match.index founds.flatten⟩
  rw [List.filter_congr fun r _ => asks_all r] at hfounds
  exact (Except.mapM_eq_ok_iff.mp hfounds).imp fun r ms hms => Rule.findsAll_of_matchAll hms

/-! ## Both queries -/

/-- Of a loaded grammar, at any time, a query for everything that all rules can answer gives the
    matches of the exposed rules by their places, at the same place in the order in which the
    document declares the rules. Without the matches of other kinds, which is what the program prints
    of it, these are the candidates of a query for some kinds, and all it extracts is among them. -/
theorem matchAll_candidates [PropertyTable] {caseSensitive : Bool} {root : Element} {g : Grammar}
    {text : Text} {all : List Match} (hload : load caseSensitive root = .ok g) (qs : List Query)
    (hall : ((g.after qs).matchAll text).2 = .ok all) :
    Reads g.resources.fragments caseSensitive (root.elements.filter (·.declares false))
      g.book.rules ∧
    (∃ founds, List.Forall₂ (fun r ms => r.FindsAll g.book.scripts g.resources.tables text ms)
        (g.book.rules.filter Rule.isExposed) founds ∧
      SortedFrom Match.index founds.flatten all) ∧
    ∀ (kinds : KindSet) (qs' : List Query),
      ((g.after qs').candidates kinds text).2 = .ok (all.filter fun m => kinds.has m.kind) ∧
      CommandLine.Request.searched (g.after qs') text .raw kinds =
        CommandLine.Request.reported Match.rawReport ((g.after qs').candidates kinds text).2 ∧
      ((g.after qs').extract kinds text).2 =
        (g.foundBy kinds text g.book.negativeRules).map (fun negatives =>
          (Match.resolve (all.filter fun m => kinds.has m.kind)).filter fun m =>
            !suppressed negatives m) ∧
      ∀ out, ((g.after qs').extract kinds text).2 = .ok out → out.Sublist all := by
  have hsame (qs : List Query) : ((g.after qs).matchAll text).2 = (g.matchAll text).2 :=
    Answer.listed.inj (snd_ask_after hload qs (.matchAll text))
  rw [hsame] at hall
  refine ⟨(reads_of_load hload).1, exists_founds_of_matchAll hall, fun kinds qs' => ?_⟩
  have hall' : ((g.after qs').matchAll text).2 = .ok all := (hsame qs').trans hall
  have hcandidates := snd_candidates_of_matchAll hall' kinds
  refine ⟨hcandidates, ?_, ?_, fun out hout => ?_⟩
  · rw [CommandLine.Request.searched, hall', hcandidates]
    rfl
  · have hextract : ((g.after qs').extract kinds text).2 = (g.extract kinds text).2 :=
      Answer.listed.inj (snd_ask_after hload qs' (.extract kinds text))
    rw [hextract, snd_extract_of_matchAll hall]
  · exact (sublist_of_extract hcandidates hout).trans List.filter_sublist

/-- Rules for dates and a rule for times that match at the same place, a hidden rule, and a negative
    one. -/
def dated : Element :=
  ⟨"grammar", .empty,
    [.element "rule" (.ofList [("id", "time"), ("type", "time"), ("example", "a")]) [itemOf "a"],
      dateRule "rule" "long" "a b" [itemOf "a", itemOf "b"],
      dateRule "rule" "last" "b" [itemOf "b"],
      .element "rule" (.ofList [("id", "hidden"), ("type", "date"), ("scope", "private"),
        ("example", "b")]) [itemOf "b"],
      dateRule "negative_rule" "pair" "b a" [itemOf "b", itemOf "a"]]⟩

/-- In `b a b` the rule for times comes before that for dates, as it does in the document. A query
    for dates does without it. Of what it finds, the first match lies within one of the negative rule,
    and the last one gives way to the longer one before it. -/
theorem matchAll_candidates_dated : ∃ g all out,
    load true dated = .ok g ∧ (g.matchAll "b a b").2 = .ok all ∧
    all.map (fun m => (m.index, m.ruleId)) = [(0, "last".toList), (2, "time".toList),
      (2, "long".toList), (4, "last".toList)] ∧
    (g.candidates (.single .date) "b a b").2 =
      .ok (all.filter fun m => (KindSet.single .date).has m.kind) ∧
    (g.extract (.single .date) "b a b").2 = .ok out ∧
    out.map Match.ruleId = ["long".toList] ∧ out.Sublist all := by
  have hrun : (load true dated).toOption.bind (fun g => (g.matchAll "b a b").2.toOption.bind
      fun all => (g.extract (.single .date) "b a b").2.toOption.map fun out =>
        (all.map fun m => (m.index, m.ruleId), out.map Match.ruleId)) =
      some ([(0, "last".toList), (2, "time".toList), (2, "long".toList), (4, "last".toList)],
        ["long".toList]) := by
    decide +kernel
  obtain ⟨g, hg, hrun⟩ := Option.bind_eq_some_iff.mp hrun
  obtain ⟨all, hall, hrun⟩ := Option.bind_eq_some_iff.mp hrun
  obtain ⟨out, hout, heq⟩ := Option.map_eq_some_iff.mp hrun
  obtain ⟨hplaces, hids⟩ := Prod.mk.inj heq
  have hload := Except.eq_ok_of_toOption hg
  have hall := Except.eq_ok_of_toOption hall
  have hout := Except.eq_ok_of_toOption hout
  obtain ⟨-, -, hboth⟩ := matchAll_candidates hload [] hall
  obtain ⟨hcandidates, -, -, hsublist⟩ := hboth (.single .date) []
  exact ⟨g, all, out, hload, hall, hplaces, hcandidates, hout, hids, hsublist out hout⟩

end Grammar

end TimePhrase
