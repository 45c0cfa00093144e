import TimePhrase.Proofs.Document.Asides
import TimePhrase.Proofs.Grammar.Load
import TimePhrase.Proofs.Rule.Severed

/-!
# Grammars without one of their comments

Without one of its comments a grammar has the same hints, fragments, tables and scripts, and the
groups of its rules are the same. It is the same grammar altogether, unless there is a word on both
sides of the comment in a text that a rule matches.

* `Resources.add_eq`  resources do not depend on how their text is cut
* `agreesWith_of_readRules`  nor do the scripts and the groups of rules
* `readRules_eq_of_sameButRun`  nor do rules, unless words of theirs are severed
* `ofDocument_without_aside`  a grammar without one of its comments
* `exists_aside_between_words`  a comment between two words
-/

namespace TimePhrase

/-! ## Resources -/

namespace NormalizationTable

open Element (SameButRun)

variable {e e' : Element}

theorem itemEntry_eq (h : e.SameButRun e') : itemEntry e' = itemEntry e := by
  have hfirst := SameButRun.find? (p := fun c => c.name == ("normalized" : Text))
    (fun hc => by rw [hc.name]) h.elements
  unfold itemEntry Element.firstElement?
  rcases hfirst with ⟨hnone, hnone'⟩ | ⟨c, c', hc, hc', hsame⟩
  · rw [hnone, hnone', h.text_eq]
  · rw [hc, hc']
    simp only [h.ownText_eq, hsame.text_eq]

theorem insertItem_eq (h : e.SameButRun e') (t : NormalizationTable) :
    insertItem t e' = insertItem t e := by
  rw [insertItem, insertItem, itemEntry_eq h]

theorem ofElement?_eq (h : e.SameButRun e') (caseSensitive : Bool) :
    ofElement? e' caseSensitive = ofElement? e caseSensitive := by
  have hitems := SameButRun.filter (p := fun c => c.name == ("item" : Text))
    (fun hc => by rw [hc.name]) h.elements
  have hfold (t : NormalizationTable) :
      (e'.elements.filter fun c => c.name == ("item" : Text)).foldlM insertItem t =
        (e.elements.filter fun c => c.name == ("item" : Text)).foldlM insertItem t := by
    generalize e.elements.filter (fun c => c.name == ("item" : Text)) = items at hitems ⊢
    generalize e'.elements.filter (fun c => c.name == ("item" : Text)) = items' at hitems ⊢
    induction hitems generalizing t with
    | nil => rfl
    | cons hitem _ ih => simp only [List.foldlM_cons, insertItem_eq hitem, ih]
  unfold ofElement?
  simp only [h.header?_eq, h.flag?_eq, hfold]

end NormalizationTable

namespace Resources

/-- What an element declares does not depend on how its text is cut. -/
theorem add_eq {e e' : Element} (h : e.SameButRun e') (caseSensitive : Bool) (r : Resources) :
    r.add caseSensitive e' = r.add caseSensitive e := by
  unfold add addFragment Fragment.ofElement? addTable addHint
  simp only [h.name, h.header?_eq, h.attribute?_eq, NormalizationTable.ofElement?_eq h]

end Resources

/-! ## Rules -/

namespace Rule

/-- Rules that are the same, up to words that are phrases of their own in the first one. -/
def AgreesWith (r r' : Rule) : Prop := r' = r ∨ ∃ a b, r.SeveredIn a b r'

variable {fragments : Fragments} {caseSensitive : Bool} {e e' : Element} {r r' : Rule}

theorem AgreesWith.id_eq (h : r.AgreesWith r') : r'.id = r.id := by
  rcases h with rfl | ⟨a, b, h⟩
  · rfl
  · exact congrArg Header.id h.header

theorem AgreesWith.tags_eq (h : r.AgreesWith r') : r'.phrase.tags = r.phrase.tags := by
  rcases h with rfl | ⟨a, b, h⟩
  · rfl
  · rw [Phrase.tags, Phrase.tags, h.groups]

/-- Elements that are the same up to a severed run are read as rules that are the same up to severed
    words. -/
theorem agreesWith_of_ofElement? [PropertyTable] (h : e.SameButRun e')
    (hr : ofElement? fragments caseSensitive e = .ok r)
    (hr' : ofElement? fragments caseSensitive e' = .ok r') : r.AgreesWith r' := by
  rcases h.children with heq | ⟨path, a, b, hsevered⟩
  · have hsame : e' = e := by
      cases e
      cases e'
      obtain rfl := h.name
      obtain rfl := h.attributes
      obtain rfl := heq
      rfl
    rw [hsame, hr] at hr'
    exact .inl (Except.ok.inj hr').symm
  · by_cases hno : a.words = [] ∨ b.words = [] ∨ ¬ ∀ n ∈ path, Phrase.isWorded n = true
    · rw [ofElement?_eq_of_severedAt h hsevered hno, hr] at hr'
      exact .inl (Except.ok.inj hr').symm
    · rw [not_or, not_or, not_not] at hno
      exact .inr ⟨a, b, severedIn_of_ofElement? h hsevered hno.1 hno.2.1 hno.2.2 hr hr'⟩

end Rule

namespace RuleBook

variable {fragments : Fragments} {caseSensitive : Bool} {k k' l l' : RuleBook}

/-- Books with the same scripts and rules that are the same up to severed words. -/
structure AgreesWith (k k' : RuleBook) : Prop where
  scripts : k'.scripts = k.scripts
  rules : List.Forall₂ Rule.AgreesWith k.rules k'.rules
  negativeRules : List.Forall₂ Rule.AgreesWith k.negativeRules k'.negativeRules

theorem AgreesWith.withRule (h : k.AgreesWith k') (negative : Bool) (scripts : Registry) {r r' : Rule}
    (hr : r.AgreesWith r') :
    (k.withRule negative scripts r).AgreesWith (k'.withRule negative scripts r') := by
  have hlast : List.Forall₂ Rule.AgreesWith [r] [r'] := .cons hr .nil
  cases negative with
  | true => exact ⟨rfl, h.rules, List.rel_append h.negativeRules hlast⟩
  | false => exact ⟨rfl, List.rel_append h.rules hlast, h.negativeRules⟩

/-- What an element declares is taken over in the same way. -/
theorem agreesWith_of_add [PropertyTable] {e e' : Element} (he : e.SameButRun e')
    (hk : k.AgreesWith k') (h : k.add fragments caseSensitive e = (l, none))
    (h' : k'.add fragments caseSensitive e' = (l', none)) : l.AgreesWith l' := by
  have hdeclares (negative : Bool) : e'.declares negative = e.declares negative := by
    rw [Element.declares, Element.declares, he.name]
  by_cases hrule : e.declaresRule = true
  · obtain ⟨negative, hnegative⟩ : ∃ negative, e.declares negative = true := by
      rcases Bool.or_eq_true_iff.mp hrule with hpos | hneg
      · exact ⟨false, hpos⟩
      · exact ⟨true, hneg⟩
    obtain ⟨scripts, r, hr, -, rfl⟩ := (add_of_declares hnegative).mp h
    obtain ⟨scripts', r', hr', -, rfl⟩ :=
      (add_of_declares ((hdeclares negative).trans hnegative)).mp h'
    obtain ⟨hread, hregister⟩ := Rule.compile_eq_ok.mp hr
    obtain ⟨hread', hregister'⟩ := Rule.compile_eq_ok.mp hr'
    have hagree := Rule.agreesWith_of_ofElement? he hread hread'
    rw [hk.scripts, hagree.id_eq, hagree.tags_eq, hregister] at hregister'
    obtain rfl := (Prod.mk.inj hregister').1
    exact hk.withRule negative scripts hagree
  · have hnone : e.declaresRule = false := Bool.not_eq_true _ ▸ hrule
    have hnone' : e'.declaresRule = false := by
      rw [Element.declaresRule, hdeclares, hdeclares]
      exact hnone
    rw [add_of_not_declaresRule hnone] at h
    rw [add_of_not_declaresRule hnone'] at h'
    obtain rfl := (Prod.mk.inj h).1
    obtain rfl := (Prod.mk.inj h').1
    exact hk

/-- A severed run makes no difference to what is taken over, unless it is part of the phrase of a rule
    and there are words on both sides. -/
theorem add_eq_of_severedAt [PropertyTable] {e e' : Element} {path : List Text} {a b : Text}
    (he : e.SameButRun e') (hsevered : Node.SeveredAt path a b e.children e'.children)
    (hno : e.declaresRule = false ∨ a.words = [] ∨ b.words = [] ∨ ¬ ∀ n ∈ path, Phrase.isWorded n = true)
    (k : RuleBook) :
    k.add fragments caseSensitive e' = k.add fragments caseSensitive e := by
  rcases hno with hnone | hno
  · have hnone' : e'.declaresRule = false := by
      rw [Element.declaresRule, Element.declares, Element.declares, he.name]
      exact hnone
    rw [add_of_not_declaresRule hnone, add_of_not_declaresRule hnone']
  · have hcompile (scripts : Registry) : Rule.compile fragments caseSensitive scripts e' =
        Rule.compile fragments caseSensitive scripts e := by
      rw [Rule.compile, Rule.compile, Rule.ofElement?_eq_of_severedAt he hsevered hno]
    rw [add, add, addRule, addRule, addRule, addRule, hcompile, he.name]

end RuleBook

namespace Grammar

open Document (ReachesContent IsAside KeepsLineEnds)

variable {fragments : Fragments} {caseSensitive : Bool} {es es' : List Element}

/-- Elements that are taken over in the same way one by one are so one after the other. -/
theorem readResources_congr (h : List.Forall₂ Element.SameButRun es es') (r : Resources) :
    readResources caseSensitive r es' = readResources caseSensitive r es := by
  induction h generalizing r with
  | nil => rfl
  | cons he _ ih => simp only [readResources, Resources.add_eq he, ih]

/-- Rules that are read from elements that are the same up to a severed run agree. -/
theorem agreesWith_of_readRules [PropertyTable] {k k' l l' : RuleBook}
    (h : List.Forall₂ Element.SameButRun es es') (hk : k.AgreesWith k')
    (hl : readRules fragments caseSensitive k es = (l, []))
    (hl' : readRules fragments caseSensitive k' es' = (l', [])) : l.AgreesWith l' := by
  induction h generalizing k k' with
  | nil =>
    obtain rfl := (Prod.mk.inj hl).1
    obtain rfl := (Prod.mk.inj hl').1
    exact hk
  | cons he _ ih =>
    obtain ⟨m, hm, hl⟩ := readRules_cons.mp hl
    obtain ⟨m', hm', hl'⟩ := readRules_cons.mp hl'
    exact ih (RuleBook.agreesWith_of_add he hk hm hm') hl hl'

/-- Two lists of elements that differ in one of them are read as the same rules if that one is taken
    over in the same way. -/
theorem readRules_congr [PropertyTable] {e e' : Element}
    (h : ∀ k : RuleBook, k.add fragments caseSensitive e' = k.add fragments caseSensitive e)
    (fs : List Element) (k : RuleBook) :
    readRules fragments caseSensitive k (es ++ e' :: fs) =
      readRules fragments caseSensitive k (es ++ e :: fs) := by
  induction es generalizing k with
  | nil => simp only [List.nil_append, readRules, h]
  | cons c es ih => simp only [List.cons_append, readRules, ih]

/-! ## Whole grammars -/

/-- The root elements of two documents that are the same, but that in the first one a run of text
    with a word on both sides is severed where a rule takes its words from. -/
def SeversWords (root root' : Element) : Prop :=
  ∃ name path a b, Node.SeveredAt (name :: path) a b root.children root'.children ∧
    (name = ("rule" : Text) ∨ name = ("negative_rule" : Text)) ∧
    (∀ n ∈ path, n = ("item" : Text) ∨ n = ("one-of" : Text)) ∧ a.words ≠ [] ∧ b.words ≠ []

/-- The rules are read in the same way, unless words of a rule are severed. -/
theorem readRules_eq_of_sameButRun [PropertyTable] {root root' : Element}
    (h : root.SameButRun root') (hno : ¬ SeversWords root root') (k : RuleBook) :
    readRules fragments caseSensitive k root'.elements =
      readRules fragments caseSensitive k root.elements := by
  rcases h.children with heq | ⟨path, a, b, hsevered⟩
  · rw [Element.elements, Element.elements, heq]
  · cases path with
    | nil => rw [Element.elements, Element.elements, hsevered.elements_eq]
    | cons name path =>
      obtain ⟨es, e, e', fs, hes, hes', hname, hname', hattributes, hinside⟩ :=
        hsevered.exists_elements
      rw [Element.elements, Element.elements, hes, hes']
      have he : e.SameButRun e' := ⟨hname'.trans hname.symm, hattributes, .inr ⟨path, a, b, hinside⟩⟩
      refine readRules_congr (RuleBook.add_eq_of_severedAt he hinside ?_) fs k
      by_contra hwords
      rw [not_or, not_or, not_or, not_not, Bool.not_eq_false] at hwords
      obtain ⟨hrule, ha, hb, hpath⟩ := hwords
      refine hno ⟨name, path, a, b, hsevered, ?_, ?_, ha, hb⟩
      · rw [← hname]
        rcases Bool.or_eq_true_iff.mp hrule with hpos | hneg
        · exact .inl (Element.declares_iff.mp hpos)
        · exact .inr (Element.declares_iff.mp hneg)
      · intro n hn
        exact of_decide_eq_true (hpath n hn)

/-- So the same grammar is loaded, or the same faults are reported. -/
theorem load_eq_of_sameButRun [PropertyTable] {root root' : Element} (h : root.SameButRun root')
    (hno : ¬ SeversWords root root') : load caseSensitive root' = load caseSensitive root := by
  unfold load
  simp only [readResources_congr h.elements, readRules_eq_of_sameButRun h hno]

/-- Without one of its comments a grammar has the same resources and the same scripts, and its rules
    are the same up to words that are phrases of their own. It is the same grammar, unless the comment
    stands in a text that a rule matches, between words. -/
theorem ofDocument_without_aside [PropertyTable] {u a v : Text} {g g' : Grammar}
    (hu : ReachesContent u) (ha : IsAside a) (hline : KeepsLineEnds u v)
    (h : ofDocument caseSensitive (u ++ a ++ v) = .ok g)
    (h' : ofDocument caseSensitive (u ++ v) = .ok g') :
    g'.resources = g.resources ∧ g.book.AgreesWith g'.book ∧
      (g' = g ∨ ∃ root root', Document.read? (u ++ a ++ v) = some root ∧
        Document.read? (u ++ v) = some root' ∧ SeversWords root root') := by
  unfold ofDocument at h h'
  cases hroot : Document.read? (u ++ a ++ v) with
  | none =>
    rw [hroot] at h
    exact nomatch h
  | some root =>
    cases hroot' : Document.read? (u ++ v) with
    | none =>
      rw [hroot'] at h'
      exact nomatch h'
    | some root' =>
      rw [hroot] at h
      rw [hroot'] at h'
      have hsame := Document.sameButRun_of_read? hu ha hline hroot hroot'
      obtain ⟨-, hresources, hrules⟩ := load_eq_ok.mp h
      obtain ⟨-, hresources', hrules'⟩ := load_eq_ok.mp h'
      rw [readResources_congr hsame.elements, hresources] at hresources'
      have hres : g'.resources = g.resources := (Prod.mk.inj hresources').1.symm
      rw [hres] at hrules'
      refine ⟨hres, ?_, ?_⟩
      · exact agreesWith_of_readRules hsame.elements ⟨rfl, .nil, .nil⟩ hrules hrules'
      · by_cases hsevers : SeversWords root root'
        · exact .inr ⟨root, root', rfl, rfl, hsevers⟩
        · have hload : load caseSensitive root' = load caseSensitive root :=
            load_eq_of_sameButRun hsame hsevers
          exact .inl (Except.ok.inj (h'.symm.trans (hload.trans h)))

/-! ### A sample -/

/-- A document up to a text in its only rule. -/
def weekOpening : Text :=
  "<grammar><rule id='week' type='date' example='next week'>next "

/-- The rest of the document. -/
def weekEnding : Text := " week</rule></grammar>"

/-- A comment. -/
def weekComment : Text := "<!-- one week from now -->"

theorem reachesContent_weekOpening : ReachesContent weekOpening := by
  have hroot : (Document.readStartTag [] "grammar>").map (fun p => (p.1.ending, p.1.scopes, p.2)) =
      some (.opened, [], []) := by
    decide +kernel
  have hrule : (Document.readStartTag [] "rule id='week' type='date' example='next week'>").map
      (fun p => (p.1.ending, p.1.scopes, p.2)) = some (.opened, [], []) := by
    decide +kernel
  obtain ⟨⟨root, r⟩, hreadRoot, heq⟩ := Option.map_eq_some_iff.mp hroot
  obtain ⟨hrootEnd, heq⟩ := Prod.mk.inj heq
  obtain ⟨hrootScopes, rfl⟩ := Prod.mk.inj heq
  obtain ⟨⟨rule, r'⟩, hreadRule, heq⟩ := Option.map_eq_some_iff.mp hrule
  obtain ⟨hruleEnd, heq⟩ := Prod.mk.inj heq
  obtain ⟨hruleScopes, rfl⟩ := Prod.mk.inj heq
  have hnext : Document.IsContent [] "next " [.text "next "] := ⟨2, by rfl⟩
  have hinside : Document.Reaches [] ([] ++ '<' ::
      ("rule id='week' type='date' example='next week'>" ++ "next ".toList)) :=
    .inside ⟨1, rfl⟩ hreadRule hruleEnd (hruleScopes ▸ .here hnext)
  exact ⟨[], "grammar>", _, root, by decide +kernel, by decide +kernel, hreadRoot, hrootEnd,
    hrootScopes ▸ hinside⟩

theorem isAside_weekComment : IsAside weekComment := .inl ⟨_, rfl, by decide +kernel⟩

theorem keepsLineEnds_week : KeepsLineEnds weekOpening weekEnding :=
  ⟨fun hlast => absurd hlast (by decide), by decide⟩

/-- The rule of a document that has just one, and whether a text is an occurrence of it. -/
theorem exists_rule_of_rules [PropertyTable] {d id text : Text} {matched : Bool}
    (h : (ofDocument true d).toOption.map (fun g =>
      g.book.rules.map fun r => (r.id, r.exactPattern.isIn text)) = some [(id, matched)]) :
    ∃ g r, ofDocument true d = .ok g ∧ g.book.rules = [r] ∧ r.id = id ∧
      r.exactPattern.isIn text = matched := by
  obtain ⟨g, hg, hrules⟩ := Option.map_eq_some_iff.mp h
  obtain ⟨r, hr, heq⟩ := List.map_eq_singleton_iff.mp hrules
  obtain ⟨hid, hmatched⟩ := Prod.mk.inj heq
  exact ⟨g, r, Except.eq_ok_of_toOption hg, hr, hid, hmatched⟩

theorem exists_rule_week : ∃ g r,
    ofDocument true (weekOpening ++ weekComment ++ weekEnding) = .ok g ∧ g.book.rules = [r] ∧
    r.id = ("week" : Text) ∧ r.exactPattern.isIn "nextweek" = true :=
  exists_rule_of_rules (by decide +kernel)

theorem exists_rule_week_without_aside : ∃ g r,
    ofDocument true (weekOpening ++ weekEnding) = .ok g ∧ g.book.rules = [r] ∧
    r.id = ("week" : Text) ∧ r.exactPattern.isIn "nextweek" = false :=
  exists_rule_of_rules (by decide +kernel)

/-- The document loads with its comment and without it. -/
theorem ofDocument_without_aside_week : ∃ g g',
    ofDocument true (weekOpening ++ weekComment ++ weekEnding) = .ok g ∧
    ofDocument true (weekOpening ++ weekEnding) = .ok g' ∧
    g'.resources = g.resources ∧ g.book.AgreesWith g'.book := by
  obtain ⟨g, -, hg, -⟩ := exists_rule_week
  obtain ⟨g', -, hg', -⟩ := exists_rule_week_without_aside
  obtain ⟨hresources, hbook, -⟩ := ofDocument_without_aside reachesContent_weekOpening
    isAside_weekComment keepsLineEnds_week hg hg'
  exact ⟨g, g', hg, hg', hresources, hbook⟩

/-- A comment between two words makes a difference: with it the rule also matches a text in which
    nothing stands between the words. -/
theorem exists_aside_between_words : ∃ u a v g g' r r',
    ReachesContent u ∧ IsAside a ∧ KeepsLineEnds u v ∧
    ofDocument true (u ++ a ++ v) = .ok g ∧ ofDocument true (u ++ v) = .ok g' ∧
    g.book.rules = [r] ∧ g'.book.rules = [r'] ∧ r'.id = r.id ∧
    r.exactPattern.isIn "nextweek" = true ∧ r'.exactPattern.isIn "nextweek" = false := by
  obtain ⟨g, r, hg, hr, hid, hmatched⟩ := exists_rule_week
  obtain ⟨g', r', hg', hr', hid', hmatched'⟩ := exists_rule_week_without_aside
  exact ⟨weekOpening, weekComment, weekEnding, g, g', r, r', reachesContent_weekOpening,
    isAside_weekComment, keepsLineEnds_week, hg, hg', hr, hr', hid'.trans hid.symm, hmatched,
    hmatched'⟩

end Grammar

end TimePhrase
