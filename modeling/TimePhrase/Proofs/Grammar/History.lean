import TimePhrase.Grammar.Query
import TimePhrase.Proofs.Grammar.Load
import TimePhrase.Proofs.Grammar.Extract

/-!
# A grammar has no memory

A query can let rules look up their scripts, and nothing else about a grammar ever changes. Since a
rule finds the scripts of its own tags whenever it is asked, it does not matter which queries came
before, nor whether they have failed.

* `ask_of_isSettled`  one query
* `settled_after`  any number of queries, one after the other
* `ask_after`  the answers of a loaded grammar, at any time
-/

namespace TimePhrase

/-! ## Queries and answers -/

/-- What can be asked of a grammar. The match of a whole text is asked for among some kinds, or among
    all of them. -/
inductive Query where
  | matchAll (text : Text)
  | matchExact (kinds : KindSet) (text : Text)
  | extract (kinds : KindSet) (text : Text)

/-- What a query can answer. -/
inductive Answer where
  | listed (found : Except MatchError (List Match))
  | whole (found : Except MatchError (Option Match))

namespace Answer

/-- The fault that is reported, if there is one. -/
def fault? : Answer → Option MatchError
  | .listed (.error e) => some e
  | .whole (.error e) => some e
  | _ => none

theorem fault?_listed {found : Except MatchError (List Match)} {e : MatchError} :
    e ∈ (listed found).fault? ↔ found = .error e := by
  cases found <;> simp [fault?]

theorem fault?_whole {found : Except MatchError (Option Match)} {e : MatchError} :
    e ∈ (whole found).fault? ↔ found = .error e := by
  cases found <;> simp [fault?]

end Answer

/-- Asks a grammar, and returns it as it is afterwards. -/
def Query.ask : Query → Grammar → Grammar × Answer
  | .matchAll text, g => ((g.matchAll text).1, .listed (g.matchAll text).2)
  | .matchExact kinds text, g => ((g.matchExact kinds text).1, .whole (g.matchExact kinds text).2)
  | .extract kinds text, g => ((g.extract kinds text).1, .listed (g.extract kinds text).2)

namespace Grammar

/-- The grammar after queries have been asked, one after the other. -/
def after (g : Grammar) (qs : List Query) : Grammar := qs.foldl (fun g q => (q.ask g).1) g

/-- The grammar as it is before its rules look up their scripts. -/
def unasked (g : Grammar) : Grammar :=
  (g.withRules (g.book.rules.map Rule.unasked)).withNegativeRules
    (g.book.negativeRules.map Rule.unasked)

/-- A grammar whose rules have not looked up their scripts, or have found those of their own
    tags. -/
structure IsSettled (g : Grammar) : Prop where
  rules : ∀ r ∈ g.book.rules, r.IsSettled g.book.scripts
  negativeRules : ∀ r ∈ g.book.negativeRules, r.IsSettled g.book.scripts

/-! ## Asking rules -/

section Rules

variable {scripts : Registry} {rules : List Rule}

/-- What asking rules comes to, compared with asking the same rules for the first time. -/
structure AsksAlike {α : Type} (scripts : Registry) (rules : List Rule)
    (asked : List Rule × Except MatchError α) (first : Except MatchError α) : Prop where
  answer : asked.2 = first
  same : asked.1.map Rule.unasked = rules.map Rule.unasked
  settled : ∀ r ∈ asked.1, r.IsSettled scripts
  found : ∀ e, asked.2 = .error e → e.isMissingScript = false

/-- A rule in front that is not asked, or has answered, leaves the others to be asked. -/
theorem AsksAlike.cons {α β : Type} {r r' : Rule} {asked : List Rule × Except MatchError α}
    {first : Except MatchError α} (h : AsksAlike scripts rules asked first)
    (hr : r'.unasked = r.unasked) (hsettled : r'.IsSettled scripts)
    {f : Except MatchError α → Except MatchError β} (hf : ∀ x e, f x = .error e → x = .error e) :
    AsksAlike scripts (r :: rules) (r' :: asked.1, f asked.2) (f first) where
  answer := congrArg f h.answer
  same := by rw [List.map_cons, List.map_cons, hr, h.same]
  settled := List.forall_mem_cons.mpr ⟨hsettled, h.settled⟩
  found e he := h.found e (hf _ e he)

/-- A rule in front that ends the query leaves the others as they are. -/
theorem AsksAlike.of_first {α : Type} {r r' : Rule} {answer : Except MatchError α}
    (h : ∀ r ∈ rules, r.IsSettled scripts) (hr : r'.unasked = r.unasked)
    (hsettled : r'.IsSettled scripts) (hfound : ∀ e, answer = .error e → e.isMissingScript = false) :
    AsksAlike scripts (r :: rules) (r' :: rules, answer) answer where
  answer := rfl
  same := by rw [List.map_cons, List.map_cons, hr]
  settled := List.forall_mem_cons.mpr ⟨hsettled, h⟩
  found := hfound

theorem asksAlike_collect (tables : Tables) (text : Text) (kinds : KindSet)
    (h : ∀ r ∈ rules, r.IsSettled scripts) :
    AsksAlike scripts rules (collect scripts tables text (asks kinds) rules)
      (collect scripts tables text (asks kinds) (rules.map Rule.unasked)).2 := by
  induction rules with
  | nil => exact ⟨rfl, rfl, by simp [collect], nofun⟩
  | cons r rs ih =>
    obtain ⟨hr, hrs⟩ := List.forall_mem_cons.mp h
    have hothers := ih hrs
    have hasked : asks kinds r.unasked = asks kinds r := rfl
    simp only [List.map_cons, collect, hasked]
    by_cases ha : asks kinds r = true
    · rw [if_pos ha, if_pos ha]
      obtain ⟨hanswer, hsame, hsettled, hfound⟩ := Rule.matchAll_of_isSettled hr tables text
      rcases hm : r.matchAll scripts tables text with ⟨r', result⟩
      rcases hm' : r.unasked.matchAll scripts tables text with ⟨r'', result'⟩
      rw [hm, hm'] at hanswer
      rw [hm] at hsame hsettled hfound
      obtain rfl : result = result' := hanswer
      cases result with
      | error e =>
        refine .of_first hrs hsame hsettled fun e' he => ?_
        obtain rfl := Except.error.inj he
        exact hfound e rfl
      | ok found => exact hothers.cons hsame hsettled fun x e he => Except.map_eq_error.mp he
    · rw [if_neg ha, if_neg ha]
      exact hothers.cons rfl hr fun x e he => he

theorem asksAlike_firstExact (tables : Tables) (text : Text) (kinds : KindSet)
    (h : ∀ r ∈ rules, r.IsSettled scripts) :
    AsksAlike scripts rules (firstExact scripts tables text (asks kinds) rules)
      (firstExact scripts tables text (asks kinds) (rules.map Rule.unasked)).2 := by
  induction rules with
  | nil => exact ⟨rfl, rfl, by simp [firstExact], nofun⟩
  | cons r rs ih =>
    obtain ⟨hr, hrs⟩ := List.forall_mem_cons.mp h
    have hothers := ih hrs
    have hasked : asks kinds r.unasked = asks kinds r := rfl
    simp only [List.map_cons, firstExact, hasked]
    by_cases ha : asks kinds r = true
    · rw [if_pos ha, if_pos ha]
      obtain ⟨hanswer, hsame, hsettled, hfound⟩ := Rule.matchExact_of_isSettled hr tables text
      rcases hm : r.matchExact scripts tables text with ⟨r', result⟩
      rcases hm' : r.unasked.matchExact scripts tables text with ⟨r'', result'⟩
      rw [hm, hm'] at hanswer
      rw [hm] at hsame hsettled hfound
      obtain rfl : result = result' := hanswer
      -- Only a rule without a match leaves the others to be asked.
      rcases result with e | _ | found
      · exact .of_first hrs hsame hsettled hfound
      · exact hothers.cons hsame hsettled fun x e he => he
      · exact .of_first hrs hsame hsettled (by simp)
    · rw [if_neg ha, if_neg ha]
      exact hothers.cons rfl hr fun x e he => he

end Rules

/-! ## Asking a grammar -/

variable {g : Grammar}

theorem IsSettled.unasked (h : g.IsSettled) : g.unasked.IsSettled where
  rules _ hr := by
    obtain ⟨q, hq, rfl⟩ := List.mem_map.mp hr
    exact (h.rules q hq).unasked
  negativeRules _ hr := by
    obtain ⟨q, hq, rfl⟩ := List.mem_map.mp hr
    exact (h.negativeRules q hq).unasked

/-- What asking a grammar comes to, compared with asking it for the first time. -/
structure AnswersAlike {α : Type} (g : Grammar) (asked : Grammar × Except MatchError α)
    (first : Except MatchError α) : Prop where
  answer : asked.2 = first
  same : asked.1.unasked = g.unasked
  settled : asked.1.IsSettled
  found : ∀ e, asked.2 = .error e → e.isMissingScript = false

/-- Rules that have been asked can take the places of those they were. -/
theorem AsksAlike.withRules {α β : Type} {asked : List Rule × Except MatchError α}
    {first : Except MatchError α} (h : AsksAlike g.book.scripts g.book.rules asked first)
    (hg : g.IsSettled) (f : α → β) :
    AnswersAlike g (g.withRules asked.1, asked.2.map f) (first.map f) where
  answer := congrArg (Except.map f) h.answer
  same := by
    simp only [Grammar.unasked, Grammar.withRules, Grammar.withNegativeRules, h.same]
  settled := ⟨h.settled, hg.negativeRules⟩
  found e he := h.found e (Except.map_eq_error.mp he)

theorem AsksAlike.withNegativeRules {α β : Type} {asked : List Rule × Except MatchError α}
    {first : Except MatchError α} (h : AsksAlike g.book.scripts g.book.negativeRules asked first)
    (hg : g.IsSettled) (f : α → β) :
    AnswersAlike g (g.withNegativeRules asked.1, asked.2.map f) (first.map f) where
  answer := congrArg (Except.map f) h.answer
  same := by
    simp only [Grammar.unasked, Grammar.withRules, Grammar.withNegativeRules, h.same]
  settled := ⟨hg.rules, h.settled⟩
  found e he := h.found e (Except.map_eq_error.mp he)

theorem candidates_of_isSettled (h : g.IsSettled) (kinds : KindSet) (text : Text) :
    AnswersAlike g (g.candidates kinds text) (g.unasked.candidates kinds text).2 :=
  (asksAlike_collect g.resources.tables text kinds h.rules).withRules h (sortBy Match.index)

theorem suppressors_of_isSettled (h : g.IsSettled) (kinds : KindSet) (text : Text) :
    AnswersAlike g (g.suppressors kinds text) (g.unasked.suppressors kinds text).2 :=
  (asksAlike_collect g.resources.tables text kinds h.negativeRules).withNegativeRules h
    (sortBy Match.index)

theorem matchExact_of_isSettled (h : g.IsSettled) (kinds : KindSet) (text : Text) :
    AnswersAlike g (g.matchExact kinds text) (g.unasked.matchExact kinds text).2 := by
  have hasked := (asksAlike_firstExact g.resources.tables text kinds h.rules).withRules h id
  rwa [Except.map_id] at hasked

theorem unasked_unasked (g : Grammar) : g.unasked.unasked = g.unasked := by
  have htwice : Rule.unasked ∘ Rule.unasked = Rule.unasked := rfl
  simp only [Grammar.unasked, Grammar.withRules, Grammar.withNegativeRules, List.map_map, htwice]

/-- Asking the negative rules after the others comes to the same as asking them alone. -/
theorem suppressors_after_candidates (h : g.IsSettled) (kinds : KindSet) (text : Text) :
    AnswersAlike g ((g.candidates kinds text).1.suppressors kinds text)
      (g.unasked.suppressors kinds text).2 := by
  have hasked := candidates_of_isSettled h kinds text
  have hnegatives := suppressors_of_isSettled hasked.settled kinds text
  rw [hasked.same] at hnegatives
  exact ⟨hnegatives.answer, hnegatives.same.trans hasked.same, hnegatives.settled,
    hnegatives.found⟩

theorem extract_of_isSettled (h : g.IsSettled) (kinds : KindSet) (text : Text) :
    AnswersAlike g (g.extract kinds text) (g.unasked.extract kinds text).2 := by
  have hasked := candidates_of_isSettled h kinds text
  have hnegatives := suppressors_after_candidates h kinds text
  have hfirst := suppressors_after_candidates h.unasked kinds text
  rw [unasked_unasked] at hfirst
  unfold extract
  rcases hg : g.candidates kinds text with ⟨g₁, found⟩
  rcases hu : g.unasked.candidates kinds text with ⟨g₂, found'⟩
  rw [hg] at hasked hnegatives
  rw [hu] at hasked hfirst
  obtain rfl : found = found' := hasked.answer
  cases found with
  | error e => exact ⟨rfl, hasked.same, hasked.settled, hasked.found⟩
  | ok found =>
    refine ⟨?_, hnegatives.same, hnegatives.settled, fun e he => ?_⟩
    · simp only [hnegatives.answer, hfirst.answer]
    · exact hnegatives.found e (Except.map_eq_error.mp he)

/-- Any query answers as if it were the first one, and leaves the grammar settled. -/
theorem ask_of_isSettled (h : g.IsSettled) (q : Query) :
    (q.ask g).2 = (q.ask g.unasked).2 ∧ (q.ask g).1.unasked = g.unasked ∧
      (q.ask g).1.IsSettled ∧ ∀ e ∈ (q.ask g).2.fault?, e.isMissingScript = false := by
  cases q with
  | matchAll text =>
    have hasked := candidates_of_isSettled h .all text
    exact ⟨congrArg Answer.listed hasked.answer, hasked.same, hasked.settled,
      fun e he => hasked.found e (Answer.fault?_listed.mp he)⟩
  | matchExact kinds text =>
    have hasked := matchExact_of_isSettled h kinds text
    exact ⟨congrArg Answer.whole hasked.answer, hasked.same, hasked.settled,
      fun e he => hasked.found e (Answer.fault?_whole.mp he)⟩
  | extract kinds text =>
    have hasked := extract_of_isSettled h kinds text
    exact ⟨congrArg Answer.listed hasked.answer, hasked.same, hasked.settled,
      fun e he => hasked.found e (Answer.fault?_listed.mp he)⟩

/-- Queries, one after the other, leave a settled grammar settled. -/
theorem settled_after (h : g.IsSettled) (qs : List Query) :
    (g.after qs).IsSettled ∧ (g.after qs).unasked = g.unasked := by
  induction qs generalizing g with
  | nil => exact ⟨h, rfl⟩
  | cons q qs ih =>
    obtain ⟨-, hsame, hsettled, -⟩ := ask_of_isSettled h q
    obtain ⟨hqs, hqs_same⟩ := ih hsettled
    exact ⟨hqs, hqs_same.trans hsame⟩

/-! ## Loaded grammars -/

/-- No rule of a loaded grammar has looked up its scripts. -/
theorem unasked_of_load [PropertyTable] {caseSensitive : Bool} {root : Element}
    (h : load caseSensitive root = .ok g) : g.unasked = g := by
  have hsound := isSound_of_load h
  have hkept (rules : List Rule) (h : ∀ r ∈ rules, r ∈ g.book.all) :
      rules.map Rule.unasked = rules := by
    rw [List.map_congr_left fun r hr => Rule.unasked_of_actions (hsound.unasked r (h r hr))]
    exact List.map_id rules
  have hrules := hkept g.book.rules fun _ => List.mem_append_left _
  have hnegatives := hkept g.book.negativeRules fun _ => List.mem_append_right _
  rw [Grammar.unasked, hrules, hnegatives]
  rfl

theorem isSettled_of_load [PropertyTable] {caseSensitive : Bool} {root : Element}
    (h : load caseSensitive root = .ok g) : g.IsSettled := by
  have hsound := isSound_of_load h
  exact ⟨fun r hr => hsound.isSettled (List.mem_append_left _ hr),
    fun r hr => hsound.isSettled (List.mem_append_right _ hr)⟩

/-- Whatever has been asked of a loaded grammar before, any query answers as it does on the grammar as
    it was loaded, and does not miss a script. Rules only ever look up the scripts compiled from
    their own tags, in the order of these; nothing else about the grammar changes. -/
theorem ask_after [PropertyTable] {caseSensitive : Bool} {root : Element}
    (h : load caseSensitive root = .ok g) (qs : List Query) :
    (∀ q : Query, (q.ask (g.after qs)).2 = (q.ask g).2 ∧
      ∀ e ∈ (q.ask (g.after qs)).2.fault?, e.isMissingScript = false) ∧
    (g.after qs).unasked = g ∧
    ∀ r ∈ (g.after qs).book.all, ∀ actions ∈ r.actions, r.ownActions = .ok actions := by
  obtain ⟨hsettled, hsame⟩ := settled_after (isSettled_of_load h) qs
  rw [unasked_of_load h] at hsame
  refine ⟨fun q => ?_, hsame, fun r hr => ?_⟩
  · obtain ⟨hanswer, -, -, hfault⟩ := ask_of_isSettled hsettled q
    rw [hsame] at hanswer
    exact ⟨hanswer, hfault⟩
  · rcases List.mem_append.mp hr with hr | hr
    · exact (hsettled.rules r hr).actions
    · exact (hsettled.negativeRules r hr).actions

/-! ## A sample -/

/-- Two rules that take their numbers apart. The second one fails where a word stands in place of
    the number. -/
def counting : Element :=
  ⟨"grammar", .empty, [
    dateRule "rule" "day" "day 5" [itemOf "day", .element "item" .empty
      [.text "5", .element "tag" .empty [.text "timex[\"day\"] = Sum(value, \"0\");"]]],
    dateRule "rule" "week" "week 5" [itemOf "week", .element "item" .empty
      [.element "one-of" .empty [itemOf "5", itemOf "last"],
        .element "tag" .empty [.text "timex[\"week\"] = Sum(value, \"0\");"]]]]⟩

/-- A query that fails, and one that does not. -/
def queries : List Query := [.extract .all "week last", .matchExact .all "day 5"]

/-- After the query that failed and the other one both rules have their scripts, and the next query
    answers as if nothing had happened. -/
theorem ask_after_counting : ∃ g, load true counting = .ok g ∧
    ((Query.extract .all "week last").ask g).2.fault?.isSome = true ∧
    (g.after queries).book.all.map (fun r => r.actions.isSome) = [true, true] ∧
    ((Query.matchAll "week 5").ask (g.after queries)).2 = ((Query.matchAll "week 5").ask g).2 ∧
    ∀ r ∈ (g.after queries).book.all, ∀ actions ∈ r.actions, r.ownActions = .ok actions := by
  have hrun : (load true counting).toOption.map (fun g =>
      (((Query.extract .all "week last").ask g).2.fault?.isSome,
        (g.after queries).book.all.map fun r => r.actions.isSome)) =
      some (true, [true, true]) := by
    decide +kernel
  obtain ⟨g, hg, heq⟩ := Option.map_eq_some_iff.mp hrun
  have hload := Except.eq_ok_of_toOption hg
  obtain ⟨hfails, hasked⟩ := Prod.mk.inj heq
  obtain ⟨hanswers, -, hown⟩ := ask_after hload queries
  exact ⟨g, hload, hfails, hasked, (hanswers (.matchAll "week 5")).1, hown⟩

end Grammar

end TimePhrase
