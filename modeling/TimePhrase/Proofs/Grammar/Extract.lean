import TimePhrase.Grammar.Query
import TimePhrase.Proofs.Fallible
import TimePhrase.Proofs.Grammar.Overlap
import TimePhrase.Proofs.Rule.Scripts

/-!
# What a query extracts

A query takes the matches of the rules it asks, rule by rule in document order. What it answers does
not depend on how it keeps the rules that found their scripts meanwhile, so its answer is an
expression in the matches of the single rules.

* `snd_extract`, `snd_matchExact`  the answers of `extract` and `matchExact`
* `extract_greedy`  how it resolves overlaps and what it leaves out
-/

namespace TimePhrase.Grammar

/-- The matches of the asked ones of some rules, rule by rule, or the first fault. -/
def foundBy (g : Grammar) (kinds : KindSet) (text : Text) (rules : List Rule) :
    Except MatchError (List Match) :=
  ((rules.filter (asks kinds)).mapM fun r : Rule =>
    (r.matchAll g.book.scripts g.resources.tables text).2).map List.flatten

theorem snd_collect (scripts : Registry) (tables : Tables) (text : Text) (asked : Rule → Bool)
    (rules : List Rule) : (collect scripts tables text asked rules).2 =
      ((rules.filter asked).mapM fun r : Rule =>
        (r.matchAll scripts tables text).2).map List.flatten := by
  induction rules with
  | nil => rfl
  | cons r rs ih =>
    simp only [collect, List.filter_cons]
    by_cases ha : asked r = true
    · rw [if_pos ha, if_pos ha, List.mapM_cons]
      rcases hm : r.matchAll scripts tables text with ⟨r', e | found⟩
      · rfl
      · simp only [ih]
        cases (rs.filter asked).mapM fun r : Rule => (r.matchAll scripts tables text).2 <;> rfl
    · rw [if_neg ha, if_neg ha]
      exact ih

/-- What has been found are the matches of the asked rules. -/
theorem mem_foundBy {g : Grammar} {kinds : KindSet} {text : Text} {rules : List Rule}
    {found : List Match} (h : g.foundBy kinds text rules = .ok found) {m : Match} :
    m ∈ found ↔ ∃ r ∈ rules, asks kinds r = true ∧
      ∃ ms, (r.matchAll g.book.scripts g.resources.tables text).2 = .ok ms ∧ m ∈ ms := by
  obtain ⟨founds, hfounds, rfl⟩ := Except.map_eq_ok.mp h
  simp only [List.mem_flatten, Except.mem_iff_of_mapM_eq_ok hfounds, List.mem_filter]
  constructor
  · rintro ⟨ms, ⟨r, ⟨hr, ha⟩, hms⟩, hm⟩
    exact ⟨r, hr, ha, ms, hms, hm⟩
  · rintro ⟨r, hr, ha, ms, hms, hm⟩
    exact ⟨ms, ⟨r, ⟨hr, ha⟩, hms⟩, hm⟩

/-- Rules that find the scripts of their own tags have the same matches in any grammar with the same
    tables. -/
theorem foundBy_eq {g g' : Grammar} {kinds : KindSet} {text : Text} {rules : List Rule}
    (hresources : g'.resources = g.resources)
    (hsettled : ∀ r ∈ rules, r.IsSettled g.book.scripts ∧ r.IsSettled g'.book.scripts) :
    g'.foundBy kinds text rules = g.foundBy kinds text rules := by
  rw [foundBy, foundBy, hresources]
  refine congrArg (Except.map List.flatten) (Except.mapM_congr fun r hr => ?_)
  obtain ⟨h, h'⟩ := hsettled r (List.mem_filter.mp hr).1
  rw [Rule.matchAll_eq_of_isSettled h' h]

theorem snd_candidates (g : Grammar) (kinds : KindSet) (text : Text) :
    (g.candidates kinds text).2 = (g.foundBy kinds text g.book.rules).map (sortBy Match.index) := by
  rw [foundBy, ← snd_collect]
  rfl

/-- Asking the rules leaves the negative rules, and what they can use, as they are. -/
theorem snd_suppressors (g : Grammar) (kinds : KindSet) (text : Text) :
    ((g.candidates kinds text).1.suppressors kinds text).2 =
      (g.foundBy kinds text g.book.negativeRules).map (sortBy Match.index) := by
  rw [foundBy, ← snd_collect]
  rfl

/-- Whether one of some matches encloses a match. -/
def suppressed (negatives : List Match) (m : Match) : Bool := negatives.any fun n => n.encloses m

theorem suppressed_perm {l l' : List Match} (h : l.Perm l') : suppressed l = suppressed l' :=
  funext fun _ => h.any_eq

theorem snd_extract (g : Grammar) (kinds : KindSet) (text : Text) :
    (g.extract kinds text).2 = (do
      let found ← g.foundBy kinds text g.book.rules
      let negatives ← g.foundBy kinds text g.book.negativeRules
      return (Match.resolve (sortBy Match.index found)).filter fun m =>
        !suppressed negatives m) := by
  have hfound := g.snd_candidates kinds text
  have hneg := g.snd_suppressors kinds text
  unfold extract
  rcases hc : g.candidates kinds text with ⟨g', e | found⟩
  · -- A rule has failed.
    rw [hc] at hfound
    cases hf : g.foundBy kinds text g.book.rules with
    | error e' =>
      rw [hf] at hfound
      obtain rfl := Except.error.inj hfound
      rfl
    | ok all =>
      rw [hf] at hfound
      exact nomatch hfound
  · -- The rules have answered, and the negative rules are asked.
    rw [hc] at hfound hneg
    obtain ⟨all, hall, rfl⟩ := Except.map_eq_ok.mp hfound.symm
    rw [hall]
    simp only [hneg]
    cases g.foundBy kinds text g.book.negativeRules with
    | error e => rfl
    | ok negatives =>
      show Except.ok _ = Except.ok _
      congr 1
      refine List.filter_congr fun m _ => ?_
      exact congrArg (! · m) (suppressed_perm (sortBy_perm Match.index negatives))

/-- Where a query gives an answer, all asked rules have given theirs. -/
theorem exists_found_of_extract {g : Grammar} {kinds : KindSet} {text : Text} {out : List Match}
    (h : (g.extract kinds text).2 = .ok out) :
    ∃ found negatives, g.foundBy kinds text g.book.rules = .ok found ∧
      g.foundBy kinds text g.book.negativeRules = .ok negatives ∧
      out = (Match.resolve (sortBy Match.index found)).filter fun m =>
        !suppressed negatives m := by
  rw [snd_extract] at h
  obtain ⟨found, hfound, h⟩ := Except.bind_eq_ok.mp h
  obtain ⟨negatives, hnegatives, h⟩ := Except.bind_eq_ok.mp h
  exact ⟨found, negatives, hfound, hnegatives, (Except.ok.inj h).symm⟩

/-- Of the matches of the asked rules, in the order of their places, those chosen greedily are
    extracted, without those that a match of an asked negative rule encloses. -/
theorem extract_greedy (g : Grammar) (kinds : KindSet) (text : Text) (out : List Match)
    (h : (g.extract kinds text).2 = .ok out) :
    ∃ found negatives candidates : List Match,
      g.foundBy kinds text g.book.rules = .ok found ∧
      g.foundBy kinds text g.book.negativeRules = .ok negatives ∧
      SortedFrom Match.index found candidates ∧
      Match.IsGreedy candidates (Match.resolve candidates) ∧
      out = (Match.resolve candidates).filter fun m => !suppressed negatives m := by
  obtain ⟨found, negatives, hfound, hnegatives, hout⟩ := exists_found_of_extract h
  have hsorted := sortedFrom_sortBy Match.index found
  exact ⟨found, negatives, sortBy Match.index found, hfound, hnegatives, hsorted,
    Match.isGreedy_resolve hsorted.ordered, hout⟩

/-! ## Matches of a whole text -/

/-- The first match among the answers of some rules, or the fault that comes before it. -/
def firstFound : List (Except MatchError (Option Match)) → Except MatchError (Option Match)
  | [] => .ok none
  | .ok none :: answers => firstFound answers
  | answer :: _ => answer

theorem snd_firstExact (scripts : Registry) (tables : Tables) (text : Text) (asked : Rule → Bool)
    (rules : List Rule) : (firstExact scripts tables text asked rules).2 =
      firstFound ((rules.filter asked).map fun r => (r.matchExact scripts tables text).2) := by
  induction rules with
  | nil => rfl
  | cons r rs ih =>
    simp only [firstExact, List.filter_cons]
    by_cases ha : asked r = true
    · rw [if_pos ha, if_pos ha, List.map_cons]
      rcases hm : r.matchExact scripts tables text with ⟨r', e | _ | found⟩
      · rfl
      · exact ih
      · rfl
    · rw [if_neg ha, if_neg ha]
      exact ih

theorem snd_matchExact (g : Grammar) (kinds : KindSet) (text : Text) :
    (g.matchExact kinds text).2 = firstFound ((g.book.rules.filter (asks kinds)).map fun r =>
      (r.matchExact g.book.scripts g.resources.tables text).2) := by
  rw [← snd_firstExact]
  rfl

/-! ## A sample -/

/-- An item with a text. -/
def itemOf (content : Text) : Node := .element "item" .empty [.text content]

/-- A rule for dates, or a negative one. -/
def dateRule (name id sample : Text) (body : List Node) : Node :=
  .element name (.ofList [("id", id), ("type", "date"), ("example", sample)]) body

/-- The grammar of a document and what it extracts from a text, if neither loading nor matching
    fails. -/
def answer? [PropertyTable] (root : Element) (text : Text) : Option (Grammar × List Match) := do
  let g ← (load true root).toOption
  let out ← (g.extract .all text).2.toOption
  return (g, out)

theorem of_answer? [PropertyTable] {root : Element} {text : Text} {a : Grammar × List Match}
    (h : answer? root text = some a) :
    load true root = .ok a.1 ∧ (a.1.extract .all text).2 = .ok a.2 := by
  obtain ⟨g, hg, h⟩ := Option.bind_eq_some_iff.mp h
  obtain ⟨out, hout, h⟩ := Option.bind_eq_some_iff.mp h
  obtain rfl := Option.some.inj h
  exact ⟨Except.eq_ok_of_toOption hg, Except.eq_ok_of_toOption hout⟩

/-- Rules whose matches overlap, and a negative rule. -/
def overlapping : Element :=
  ⟨"grammar", .empty, [dateRule "rule" "short" "a" [itemOf "a"],
    dateRule "rule" "long" "ab" [itemOf "a", itemOf "b"], dateRule "rule" "other" "b" [itemOf "b"],
    dateRule "negative_rule" "pair" "bb" [itemOf "bb"]]⟩

/-- In `a b bb` the longer match takes the place of `a` and hides the first `b`. The next one hides
    the last, and is itself enclosed by `bb`. -/
theorem extract_greedy_overlapping : ∃ g out negatives candidates,
    load true overlapping = .ok g ∧ (g.extract .all "a b bb").2 = .ok out ∧
    out.map Match.value = ["a b".toList] ∧
    Match.IsGreedy candidates (Match.resolve candidates) ∧
    out = (Match.resolve candidates).filter fun m => !suppressed negatives m := by
  have hrun : (answer? overlapping "a b bb").map (·.2.map Match.value) = some ["a b".toList] := by
    decide +kernel
  obtain ⟨⟨g, out⟩, hanswer, hvalues⟩ := Option.map_eq_some_iff.mp hrun
  obtain ⟨hload, hout⟩ := of_answer? hanswer
  obtain ⟨_, negatives, candidates, -, -, -, hgreedy, heq⟩ := extract_greedy g _ _ out hout
  exact ⟨g, out, negatives, candidates, hload, hout, hvalues, hgreedy, heq⟩

end TimePhrase.Grammar
