import TimePhrase.Proofs.Grammar.History
import TimePhrase.Proofs.Grammar.RuleOrder
import TimePhrase.Proofs.Interleaved

/-!
# Rules that are not asked

A query asks the exposed rules of its kinds. All other rules can be deleted from the document without
a change to the answer. A deleted rule takes its id and its scripts with it, but every rule that is
left finds the scripts of its own tags with or without them, and since a deleted rule would not be
asked, it can neither match nor fail.

* `exists_load_of_interleaved`  what deleting rules does to a grammar
* `IsThinned.ask`  what it does to a query that would not ask them
* `ask_of_deleted`  both together, at any time
-/

namespace TimePhrase

namespace Element

/-- The scope that an element declares. -/
def scope? (e : Element) : Option Scope := (e.attribute? "scope").bind Scope.ofName?

/-- The kind that an element declares. -/
def kind? (e : Element) : Option Kind := (e.filledAttribute? "type").bind Kind.ofName?

theorem scope_of_header? {e : Element} {h : Header} {scope : Scope} (hheader : e.header? = .ok h)
    (hscope : e.scope? = some scope) : h.scope = scope := by
  obtain ⟨value, hvalue, hname⟩ := Option.bind_eq_some_iff.mp hscope
  unfold header? at hheader
  split at hheader
  · exact nomatch hheader
  · rw [hvalue] at hheader
    simp only [hname] at hheader
    rw [← Except.ok.inj hheader]

end Element

namespace Rule

variable {fragments : Fragments} {caseSensitive : Bool} {e : Element} {r : Rule}

/-- A rule has the scope that its element declares. -/
theorem scope_of_ofElement? [PropertyTable] {scope : Scope}
    (h : ofElement? fragments caseSensitive e = .ok r) (hscope : e.scope? = some scope) :
    r.header.scope = scope := by
  have hheader := (isReadFrom_of_ofElement? h).header
  unfold headerOf at hheader
  split at hheader
  · rename_i hread
    rw [Except.ok.inj hheader] at hread
    exact Element.scope_of_header? hread hscope
  · exact nomatch hheader

/-- The kind of a rule is the one that its element declares. -/
theorem kind?_of_ofElement? [PropertyTable] (h : ofElement? fragments caseSensitive e = .ok r) :
    e.kind? = some r.kind := by
  obtain ⟨value, hvalue, hkind⟩ := Except.bind_eq_ok.mp (isReadFrom_of_ofElement? h).kind
  unfold requiredAttribute at hvalue
  split at hvalue
  · rename_i hattribute
    obtain rfl := Except.ok.inj hvalue
    split at hkind
    · rename_i hname
      rw [Element.kind?, hattribute, ← Except.pure_eq_ok.mp hkind]
      exact hname
    · exact absurd hkind Except.throw_ne_ok
  · exact nomatch hvalue

end Rule

namespace Query

/-- The kinds of the rules that are asked. -/
def kinds : Query → KindSet
  | .matchAll _ => .all
  | .matchExact kinds _ => kinds
  | .extract kinds _ => kinds

/-- Whether the element declares a rule that is out of the reach of the query, a hidden one or one of
    a kind that is not asked for. -/
def passesOver (q : Query) (e : Element) : Bool :=
  e.scope? == some .hidden || e.kind?.any fun k => !q.kinds.has k

/-- A query does not ask the rules that it passes over. -/
theorem asks_of_passesOver [PropertyTable] {q : Query} {e : Element} (h : q.passesOver e = true)
    {fragments : Fragments} {caseSensitive : Bool} {r : Rule}
    (hr : Rule.ofElement? fragments caseSensitive e = .ok r) :
    Grammar.asks q.kinds r = false := by
  rw [Grammar.asks, Bool.and_eq_false_iff]
  rcases Bool.or_eq_true_iff.mp h with hhidden | hkind
  · left
    rw [Rule.isExposed, Rule.scope_of_ofElement? hr (eq_of_beq hhidden)]
    rfl
  · right
    rw [Rule.kind?_of_ofElement? hr] at hkind
    simpa using hkind

end Query

namespace Grammar

/-! ## Loading -/

/-- A grammar with the rules of another one except for some. -/
structure IsThinned (g g' : Grammar) (rs ns : List Rule) : Prop where
  resources : g'.resources = g.resources
  rules : Interleaved g'.book.rules rs g.book.rules
  negativeRules : Interleaved g'.book.negativeRules ns g.book.negativeRules
  sound : g.book.IsSound
  sound' : g'.book.IsSound

/-- A document from which rules are deleted is loaded, too. -/
theorem exists_load_of_interleaved [PropertyTable] {caseSensitive : Bool} {root root' : Element}
    {g : Grammar} {deleted : List Element} (h : load caseSensitive root = .ok g)
    (hdeleted : Interleaved root'.elements deleted root.elements)
    (hrules : ∀ e ∈ deleted, e.declaresRule = true) :
    ∃ g' rs ns, load caseSensitive root' = .ok g' ∧
      Reads g.resources.fragments caseSensitive (deleted.filter (·.declares false)) rs ∧
      Reads g.resources.fragments caseSensitive (deleted.filter (·.declares true)) ns ∧
      IsThinned g g' rs ns := by
  -- The rules of either sort come from the elements that are left and from the deleted ones.
  obtain ⟨hread, hread_negative⟩ := reads_of_load h
  obtain ⟨rs', rs, hrs', hrs, hrs_inter⟩ :=
    (hdeleted.filter (·.declares false)).exists_forall₂ hread
  obtain ⟨ns', ns, hns', hns, hns_inter⟩ :=
    (hdeleted.filter (·.declares true)).exists_forall₂ hread_negative
  have hothers : root.elements.filter (!·.declaresRule) = root'.elements.filter (!·.declaresRule) :=
    hdeleted.filter_eq fun e he => by simp [hrules e he]
  have hsome : (rs' ++ ns').Subperm g.book.all :=
    (hrs_inter.sublist.append hns_inter.sublist).subperm
  obtain ⟨g', hload, hresources, rfl, rfl⟩ := exists_load_of_reads h hothers hrs' hns' hsome
  exact ⟨g', rs, ns, hload, hrs, hns,
    ⟨hresources, hrs_inter, hns_inter, isSound_of_load h, isSound_of_load hload⟩⟩

/-! ## Asking -/

namespace IsThinned

variable {g g' : Grammar} {rs ns : List Rule} {kinds : KindSet}

/-- The rules that are left find their scripts in both grammars. -/
theorem isSettled (h : IsThinned g g' rs ns) {r : Rule} (hr : r ∈ g'.book.all) :
    r.IsSettled g.book.scripts ∧ r.IsSettled g'.book.scripts := by
  have hall := h.rules.sublist.append h.negativeRules.sublist
  exact ⟨h.sound.isSettled (hall.subset hr), h.sound'.isSettled hr⟩

theorem foundBy_eq (h : IsThinned g g' rs ns) {rules rules' deleted : List Rule}
    (hdeleted : Interleaved rules' deleted rules) (hall : ∀ r ∈ rules', r ∈ g'.book.all)
    (hasked : ∀ r ∈ deleted, asks kinds r = false) (text : Text) :
    g'.foundBy kinds text rules' = g.foundBy kinds text rules := by
  rw [Grammar.foundBy_eq h.resources fun r hr => h.isSettled (hall r hr), foundBy, foundBy,
    hdeleted.filter_eq hasked]

theorem foundBy_rules (h : IsThinned g g' rs ns) (hrs : ∀ r ∈ rs, asks kinds r = false)
    (text : Text) : g'.foundBy kinds text g'.book.rules = g.foundBy kinds text g.book.rules :=
  h.foundBy_eq h.rules (fun _ => List.mem_append_left _) hrs text

theorem foundBy_negativeRules (h : IsThinned g g' rs ns) (hns : ∀ r ∈ ns, asks kinds r = false)
    (text : Text) :
    g'.foundBy kinds text g'.book.negativeRules = g.foundBy kinds text g.book.negativeRules :=
  h.foundBy_eq h.negativeRules (fun _ => List.mem_append_right _) hns text

theorem matchAll (h : IsThinned g g' rs ns) (hrs : ∀ r ∈ rs, asks .all r = false) (text : Text) :
    (g'.matchAll text).2 = (g.matchAll text).2 := by
  rw [Grammar.matchAll, Grammar.matchAll, snd_candidates, snd_candidates, h.foundBy_rules hrs]

theorem matchExact (h : IsThinned g g' rs ns) (hrs : ∀ r ∈ rs, asks kinds r = false)
    (text : Text) : (g'.matchExact kinds text).2 = (g.matchExact kinds text).2 := by
  rw [snd_matchExact, snd_matchExact, h.rules.filter_eq hrs, h.resources]
  refine congrArg firstFound (List.map_congr_left fun r hr => ?_)
  obtain ⟨hsettled, hsettled'⟩ := h.isSettled (List.mem_append_left _ (List.mem_filter.mp hr).1)
  rw [Rule.matchExact_eq_of_isSettled hsettled' hsettled]

theorem extract (h : IsThinned g g' rs ns) (hrs : ∀ r ∈ rs, asks kinds r = false)
    (hns : ∀ r ∈ ns, asks kinds r = false) (text : Text) :
    (g'.extract kinds text).2 = (g.extract kinds text).2 := by
  rw [snd_extract, snd_extract, h.foundBy_rules hrs, h.foundBy_negativeRules hns]

/-- A query does not need the rules that it does not ask. -/
theorem ask (h : IsThinned g g' rs ns) {q : Query} (hrs : ∀ r ∈ rs, asks q.kinds r = false)
    (hns : ∀ r ∈ ns, asks q.kinds r = false) : (q.ask g').2 = (q.ask g).2 := by
  cases q with
  | matchAll text => exact congrArg Answer.listed (h.matchAll hrs text)
  | matchExact kinds text => exact congrArg Answer.whole (h.matchExact hrs text)
  | extract kinds text => exact congrArg Answer.listed (h.extract hrs hns text)

end IsThinned

/-- What has been asked of a loaded grammar does not matter for the answer. -/
theorem snd_ask_after [PropertyTable] {caseSensitive : Bool} {root : Element} {g : Grammar}
    (h : load caseSensitive root = .ok g) (qs : List Query) (q : Query) :
    (q.ask (g.after qs)).2 = (q.ask g).2 := by
  obtain ⟨hsettled, hsame⟩ := settled_after (isSettled_of_load h) qs
  rw [(ask_of_isSettled hsettled q).1, hsame, unasked_of_load h]

/-- A document that loads does so without some of its rules, and then answers every query that passes
    them over as before, whatever has been asked in the meantime. So hidden rules are of no account
    for any query, and rules of the wrong kind are of none for a query that asks for kinds. -/
theorem ask_of_deleted [PropertyTable] {caseSensitive : Bool} {root root' : Element} {g : Grammar}
    {deleted : List Element} (h : load caseSensitive root = .ok g)
    (hdeleted : Interleaved root'.elements deleted root.elements)
    (hrules : ∀ e ∈ deleted, e.declaresRule = true) :
    ∃ g', load caseSensitive root' = .ok g' ∧
      ∀ q : Query, (∀ e ∈ deleted, q.passesOver e = true) →
        ∀ qs qs' : List Query, (q.ask (g'.after qs')).2 = (q.ask (g.after qs)).2 := by
  obtain ⟨g', rs, ns, hload, hrs, hns, hthinned⟩ := exists_load_of_interleaved h hdeleted hrules
  refine ⟨g', hload, fun q hq qs qs' => ?_⟩
  -- The deleted rules are read from elements that the query passes over.
  have hasked {negative : Bool} {rules : List Rule}
      (hread : Reads g.resources.fragments caseSensitive (deleted.filter (·.declares negative))
        rules) : ∀ r ∈ rules, asks q.kinds r = false := by
    intro r hr
    obtain ⟨e, he, hof⟩ := Except.exists_of_mapM_eq_ok (Except.mapM_eq_ok_iff.mpr hread) r hr
    exact Query.asks_of_passesOver (hq e (List.mem_filter.mp he).1) hof
  rw [snd_ask_after h, snd_ask_after hload, hthinned.ask (hasked hrs) (hasked hns)]

/-! ## A sample -/

/-- A rule for dates, and one for times whose script fails. -/
def withTimes : List Node :=
  [dateRule "rule" "day" "day" [itemOf "day"],
    .element "rule" (.ofList [("id", "late"), ("type", "time"), ("example", "late")])
      [.element "item" .empty
        [.text "late", .element "tag" .empty [.text "timex[\"hour\"] = Sum(value, \"0\");"]]],
    .element "negative_rule"
      (.ofList [("id", "pair"), ("type", "date"), ("scope", "private"), ("example", "day late")])
      [itemOf "day", itemOf "late"]]

/-- A query for dates does not run the script of the rule for times, and a hidden rule does not
    suppress anything, so the rule for dates can do without them. -/
theorem ask_of_deleted_withTimes : ∃ g g',
    load true ⟨"grammar", .empty, withTimes⟩ = .ok g ∧
    load true ⟨"grammar", .empty, withTimes.take 1⟩ = .ok g' ∧
    (g.extract .all "day late").2.toOption = none ∧
    ((g.extract (.single .date) "day late").2.toOption.map fun out => out.map Match.index) =
      some [0] ∧
    ((Query.extract (.single .date) "day late").ask g').2 =
      ((Query.extract (.single .date) "day late").ask g).2 := by
  have hrun : (load true ⟨"grammar", .empty, withTimes⟩).toOption.map (fun g =>
      ((g.extract .all "day late").2.toOption.isNone,
        (g.extract (.single .date) "day late").2.toOption.map fun out => out.map Match.index)) =
      some (true, some [0]) := by
    decide +kernel
  obtain ⟨g, hg, heq⟩ := Option.map_eq_some_iff.mp hrun
  obtain ⟨hfails, hfound⟩ := Prod.mk.inj heq
  have hload := Except.eq_ok_of_toOption hg
  have hdeleted : Interleaved (Element.elements ⟨"grammar", .empty, withTimes.take 1⟩)
      ((withTimes.drop 1).filterMap Node.element?)
      (Element.elements ⟨"grammar", .empty, withTimes⟩) :=
    .left (.right (.right .nil))
  obtain ⟨g', hload', hsame⟩ := ask_of_deleted hload hdeleted (by decide)
  exact ⟨g, g', hload, hload', Option.isNone_iff_eq_none.mp hfails, hfound,
    hsame (.extract (.single .date) "day late") (by decide) [] []⟩

end Grammar

end TimePhrase
