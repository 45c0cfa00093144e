import TimePhrase.Proofs.Rule.Scripts

/-!
# Looking scripts up once

A rule looks up the scripts of its tagged groups at its first match, from whatever provider the call
brings along. It takes all of them or none. A rule that has them asks no provider any more, so its
answers come from those scripts for good, and a script that fails does not change that.

* `findActions_eq_ok`, `findActions_eq_error`  all scripts, or the first one that is missing
* `Call.run_eq_of_actions`  a call of a rule that has its scripts
* `Call.run_eq_of_realizes`, `Call.exists_missing_of_run`  a call of a rule that does not
* `after_of_find?_eq_some`, `after_of_actions_eq_some`  any number of calls, one after the other
* `actions_after`  the scripts of a rule at any time, and what the next call does with them
-/

namespace TimePhrase.Rule

/-! ## Looking up -/

/-- What a provider has for the tagged groups of a rule: a script for each, in the order of the
    tags. -/
def Provides (r : Rule) (scripts : Provider) (actions : List (Nat × TagScript)) : Prop :=
  List.Forall₂ (fun t a => a.1 = t.1 ∧ scripts r.id (Part.name t.1) = some a.2) r.phrase.tags actions

/-- Whether a provider has a script for every tagged group of a rule. -/
def isProvided (r : Rule) (scripts : Provider) : Bool :=
  r.phrase.tags.all fun t => (scripts r.id (Part.name t.1)).isSome

section Finding

variable {ruleId : Text} {scripts : Provider} {tags : List (Nat × Text)}

theorem findActions_eq_ok {actions : List (Nat × TagScript)} :
    findActions ruleId scripts tags = .ok actions ↔
      List.Forall₂ (fun t a => a.1 = t.1 ∧ scripts ruleId (Part.name t.1) = some a.2) tags actions := by
  induction tags generalizing actions with
  | nil => simp [findActions, eq_comm]
  | cons t tags ih =>
    obtain ⟨part, source⟩ := t
    rw [findActions, List.forall₂_cons_left_iff]
    cases scripts ruleId (Part.name part) with
    | none => simp
    | some script =>
      simp only [Except.map_eq_ok, ih]
      constructor
      · rintro ⟨others, hothers, rfl⟩
        exact ⟨(part, script), others, ⟨rfl, rfl⟩, hothers, rfl⟩
      · rintro ⟨⟨_, _⟩, others, ⟨rfl, hs⟩, hothers, rfl⟩
        obtain rfl := Option.some.inj hs
        exact ⟨others, hothers, rfl⟩

/-- The first group without a script is reported. -/
theorem findActions_eq_error {e : MatchError} (h : findActions ruleId scripts tags = .error e) :
    ∃ before t others, tags = before ++ t :: others ∧
      (∀ u ∈ before, (scripts ruleId (Part.name u.1)).isSome = true) ∧
      scripts ruleId (Part.name t.1) = none ∧ e = .missingScript ruleId t.1 := by
  induction tags with
  | nil => exact nomatch h
  | cons t tags ih =>
    obtain ⟨part, source⟩ := t
    rw [findActions] at h
    cases hget : scripts ruleId (Part.name part) with
    | none =>
      rw [hget] at h
      exact ⟨[], (part, source), tags, rfl, by simp, hget, (Except.error.inj h).symm⟩
    | some script =>
      rw [hget] at h
      obtain ⟨before, t, others, rfl, hbefore, hnone, he⟩ := ih (Except.map_eq_error.mp h)
      refine ⟨(part, source) :: before, t, others, rfl, ?_, hnone, he⟩
      exact List.forall_mem_cons.mpr ⟨by simp [hget], hbefore⟩

/-- No script is missing if there is one for every group. -/
theorem exists_findActions_iff : (∃ actions, findActions ruleId scripts tags = .ok actions) ↔
    (tags.all fun t => (scripts ruleId (Part.name t.1)).isSome) = true := by
  induction tags with
  | nil => simp [findActions]
  | cons t tags ih =>
    obtain ⟨part, source⟩ := t
    rw [findActions, List.all_cons, Bool.and_eq_true, ← ih]
    cases scripts ruleId (Part.name part) with
    | none => simp
    | some script => simp [Except.map_eq_ok]

end Finding

/-! ## Calls -/

/-- A call of a rule, with what the caller brings along. -/
structure Call where
  /-- Whether the rule is to match the whole of the text, or is searched for in it. -/
  whole : Bool
  scripts : Provider
  tables : Tables
  text : Text

/-- The rule with the scripts of its groups. -/
def withActions (r : Rule) (actions : List (Nat × TagScript)) : Rule :=
  { r with actions := some actions }

namespace Call

/-- Asks the rule, and returns it as it is afterwards. There is at most one match of a whole text. -/
def run (c : Call) (r : Rule) : Rule × Except MatchError (List Match) :=
  if c.whole then
    let (r, found) := r.matchExact c.scripts c.tables c.text
    (r, found.map Option.toList)
  else r.matchAll c.scripts c.tables c.text

/-- Whether the text matches the pattern that the call uses. -/
def isMatched (c : Call) (r : Rule) : Bool :=
  (if c.whole then r.exactPattern else r.pattern).isIn c.text

/-- Whether the rule can take over its scripts at this call: there is a match, and no script is
    missing. -/
def realizes (c : Call) (r : Rule) : Bool := c.isMatched r && r.isProvided c.scripts

/-- The matches that the call is about. -/
def occurrences (c : Call) (r : Rule) : List Occurrence :=
  if c.whole then (r.exactPattern.firstIn? c.text).toList else r.pattern.occurrences c.text

variable {c : Call} {r : Rule}

theorem run_eq (c : Call) (r : Rule) :
    c.run r = r.matchesOf c.scripts c.tables c.text (c.occurrences r) := by
  rw [run, occurrences]
  split
  · rw [matchExact]
    cases r.exactPattern.firstIn? c.text with
    | none => rfl
    | some o =>
      rw [Option.toList_some, matchesOf, if_neg (by simp)]
      cases r.realize c.scripts with
      | error e => rfl
      | ok r' =>
        -- Of one occurrence there is one match, or a fault.
        simp only [List.mapM_cons, List.mapM_nil]
        cases r'.matchOf c.tables c.text o <;> rfl
  · rfl

theorem occurrences_isEmpty (c : Call) (r : Rule) :
    (c.occurrences r).isEmpty = !c.isMatched r := by
  rw [occurrences, isMatched, Pattern.isIn]
  split
  · cases r.exactPattern.firstIn? c.text <;> rfl
  · rw [Pattern.occurrences]
    cases r.pattern.firstIn? c.text <;> rfl

/-! ### One call -/

theorem run_eq_of_not_isMatched (h : c.isMatched r = false) : c.run r = (r, .ok []) := by
  rw [run_eq, matchesOf, occurrences_isEmpty, h]
  rfl

/-- A rule that has its scripts runs them, and nothing else depends on the call's provider. -/
theorem run_eq_of_actions {actions : List (Nat × TagScript)} (h : r.actions = some actions) :
    c.run r = (r, (c.occurrences r).mapM (r.matchOf c.tables c.text)) := by
  rw [run_eq, matchesOf]
  split
  · rename_i hnil
    rw [List.isEmpty_iff.mp hnil]
    rfl
  · rw [realize, h]

theorem run_eq_of_isMatched (h : c.isMatched r = true) : c.run r =
    match r.realize c.scripts with
    | .error e => (r, .error e)
    | .ok r' => (r', (c.occurrences r).mapM (r'.matchOf c.tables c.text)) := by
  rw [run_eq, matchesOf, occurrences_isEmpty, h]
  cases r.realize c.scripts <;> rfl

/-- The first call with a match and all scripts gives the rule these scripts, whether or not one of
    them fails on the match. -/
theorem run_eq_of_realizes (hr : r.actions = none) (h : c.realizes r = true) :
    ∃ actions, r.Provides c.scripts actions ∧
      c.run r = (r.withActions actions, (c.run (r.withActions actions)).2) := by
  obtain ⟨hmatched, hprovided⟩ := Bool.and_eq_true_iff.mp h
  obtain ⟨actions, hfind⟩ := exists_findActions_iff.mpr hprovided
  refine ⟨actions, findActions_eq_ok.mp hfind, ?_⟩
  have hrealize : r.realize c.scripts = .ok (r.withActions actions) := by
    rw [realize, hr, hfind]
    rfl
  rw [run_eq_of_isMatched hmatched, hrealize, run_eq_of_actions (r := r.withActions actions) rfl]
  rfl

/-- A call with a match that lacks a script reports the first group without one, and leaves the rule
    as it was. -/
theorem exists_missing_of_run (hr : r.actions = none) (hmatched : c.isMatched r = true)
    (hprovided : r.isProvided c.scripts = false) :
    ∃ before t others, r.phrase.tags = before ++ t :: others ∧
      (∀ u ∈ before, (c.scripts r.id (Part.name u.1)).isSome = true) ∧
      c.scripts r.id (Part.name t.1) = none ∧
      c.run r = (r, .error (.missingScript r.id t.1)) := by
  cases hfind : findActions r.id c.scripts r.phrase.tags with
  | ok actions =>
    have hall := exists_findActions_iff.mp ⟨actions, hfind⟩
    rw [← isProvided, hprovided] at hall
    exact nomatch hall
  | error e =>
    obtain ⟨before, t, others, htags, hbefore, hnone, rfl⟩ := findActions_eq_error hfind
    refine ⟨before, t, others, htags, hbefore, hnone, ?_⟩
    have hrealize : r.realize c.scripts = .error (.missingScript r.id t.1) := by
      rw [realize, hr, hfind]
      rfl
    rw [run_eq_of_isMatched hmatched, hrealize]

theorem fst_run_of_not_realizes (hr : r.actions = none) (h : c.realizes r = false) :
    (c.run r).1 = r := by
  cases hmatched : c.isMatched r with
  | false => rw [run_eq_of_not_isMatched hmatched]
  | true =>
    have hprovided : r.isProvided c.scripts = false := by simpa [realizes, hmatched] using h
    obtain ⟨_, _, _, -, -, -, hrun⟩ := exists_missing_of_run hr hmatched hprovided
    rw [hrun]

end Call

/-! ## Any number of calls -/

/-- The rule after calls, one after the other. -/
def after (r : Rule) (cs : List Call) : Rule := cs.foldl (fun r c => (c.run r).1) r

theorem after_append (r : Rule) (cs ds : List Call) : r.after (cs ++ ds) = (r.after cs).after ds :=
  List.foldl_append

/-- A rule that has its scripts stays as it is. -/
theorem after_of_actions {r : Rule} {actions : List (Nat × TagScript)} (h : r.actions = some actions)
    (cs : List Call) : r.after cs = r := by
  induction cs with
  | nil => rfl
  | cons c cs ih =>
    rw [after, List.foldl_cons, Call.run_eq_of_actions h]
    exact ih

theorem after_of_find?_eq_none {r : Rule} (hr : r.actions = none) {cs : List Call}
    (h : cs.find? (·.realizes r) = none) : r.after cs = r := by
  induction cs with
  | nil => rfl
  | cons c cs ih =>
    rw [List.find?_cons] at h
    split at h
    · exact nomatch h
    · rename_i hc
      rw [after, List.foldl_cons, Call.fst_run_of_not_realizes hr hc]
      exact ih h

/-- The first call that can give the rule its scripts does so, and the later ones change nothing. -/
theorem after_of_find?_eq_some {r : Rule} (hr : r.actions = none) {cs : List Call} {c : Call}
    (h : cs.find? (·.realizes r) = some c) :
    ∃ actions, r.Provides c.scripts actions ∧ r.after cs = r.withActions actions := by
  obtain ⟨hc, before, others, rfl, hbefore⟩ := List.find?_eq_some_iff_append.mp h
  obtain ⟨actions, hprovides, hrun⟩ := Call.run_eq_of_realizes hr hc
  refine ⟨actions, hprovides, ?_⟩
  have hnone : before.find? (·.realizes r) = none :=
    List.find?_eq_none.mpr fun d hd => by simpa using hbefore d hd
  rw [after_append, after_of_find?_eq_none hr hnone, after, List.foldl_cons, hrun]
  exact after_of_actions (r := r.withActions actions) rfl others

/-- A rule that still has no scripts is as it was. -/
theorem after_of_actions_eq_none {r : Rule} (hr : r.actions = none) {cs : List Call}
    (h : (r.after cs).actions = none) : r.after cs = r := by
  cases hfind : cs.find? (·.realizes r) with
  | none => exact after_of_find?_eq_none hr hfind
  | some c =>
    obtain ⟨actions, -, hafter⟩ := after_of_find?_eq_some hr hfind
    rw [hafter] at h
    exact nomatch h

/-- Nothing but its scripts tells a rule from what it was. -/
theorem after_of_actions_eq_some {r : Rule} (hr : r.actions = none) {cs : List Call}
    {actions : List (Nat × TagScript)} (h : (r.after cs).actions = some actions) :
    r.after cs = r.withActions actions := by
  cases hfind : cs.find? (·.realizes r) with
  | none =>
    rw [after_of_find?_eq_none hr hfind, hr] at h
    exact nomatch h
  | some c =>
    obtain ⟨actions', -, hafter⟩ := after_of_find?_eq_some hr hfind
    rw [hafter] at h ⊢
    rw [← Option.some.inj h]

/-- No script of a rule without tags can be missing, so its first match settles its scripts. -/
theorem actions_after_of_tags_eq_nil {r : Rule} (hr : r.actions = none) (htags : r.phrase.tags = [])
    {cs : List Call} (h : ∃ c ∈ cs, c.isMatched r = true) : (r.after cs).actions = some [] := by
  obtain ⟨c, hc, hmatched⟩ := h
  have hrealizes : c.realizes r = true := by simp [Call.realizes, hmatched, isProvided, htags]
  have hfound : (cs.find? (·.realizes r)).isSome = true :=
    List.find?_isSome.mpr ⟨c, hc, hrealizes⟩
  obtain ⟨d, hd⟩ := Option.isSome_iff_exists.mp hfound
  obtain ⟨actions, hprovides, hafter⟩ := after_of_find?_eq_some hr hd
  rw [Provides, htags, List.forall₂_nil_left_iff] at hprovides
  rw [hafter, hprovides]
  rfl

/-- A compiled rule has no scripts until the first call with a match whose provider has a script for
    every tagged group. From then on it has those of that provider, in the order of its tags. Before
    that, a call with a match names the first group that lacks a script, and changes nothing. The
    call that gives the rule its scripts, and every call after it, answers with them, whatever its
    own provider has; and what a call answers, be it a fault of a script, does not matter for the
    rule. -/
theorem actions_after [PropertyTable] {fragments : Fragments} {caseSensitive : Bool}
    {registry registry' : Registry} {e : Element} {r : Rule}
    (h : compile fragments caseSensitive registry e = (registry', .ok r)) (cs : List Call) :
    (cs.find? (·.realizes r) = none → r.after cs = r ∧ r.actions = none) ∧
    (∀ c, cs.find? (·.realizes r) = some c →
      ∃ actions, r.Provides c.scripts actions ∧ r.after cs = r.withActions actions) ∧
    (r.phrase.tags = [] → (∃ c ∈ cs, c.isMatched r = true) → (r.after cs).actions = some []) ∧
    ∀ c : Call,
      ((r.after cs).actions = none →
        (c.isMatched r = false → c.run (r.after cs) = (r, .ok [])) ∧
        (c.isMatched r = true → r.isProvided c.scripts = false →
          ∃ before t others, r.phrase.tags = before ++ t :: others ∧
            (∀ u ∈ before, (c.scripts r.id (Part.name u.1)).isSome = true) ∧
            c.scripts r.id (Part.name t.1) = none ∧
            c.run (r.after cs) = (r, .error (.missingScript r.id t.1))) ∧
        (c.isMatched r = true → r.isProvided c.scripts = true →
          ∃ actions, r.Provides c.scripts actions ∧
            c.run (r.after cs) = (r.withActions actions, (c.run (r.withActions actions)).2))) ∧
      ∀ actions, (r.after cs).actions = some actions → r.after cs = r.withActions actions ∧
        (∀ ds, r.after (cs ++ ds) = r.after cs) ∧
        ∀ scripts : Provider, c.run (r.after cs) =
          (r.withActions actions, ({ c with scripts := scripts }.run (r.withActions actions)).2) := by
  have hr : r.actions = none := (isReadFrom_of_ofElement? (compile_eq_ok.mp h).1).actions
  refine ⟨fun hnone => ⟨after_of_find?_eq_none hr hnone, hr⟩,
    fun c hc => after_of_find?_eq_some hr hc,
    fun htags hmatched => actions_after_of_tags_eq_nil hr htags hmatched,
    fun c => ⟨fun hnone => ?_, fun actions hactions => ?_⟩⟩
  · rw [after_of_actions_eq_none hr hnone]
    exact ⟨Call.run_eq_of_not_isMatched, Call.exists_missing_of_run hr, fun hmatched hprovided =>
      Call.run_eq_of_realizes hr (Bool.and_eq_true_iff.mpr ⟨hmatched, hprovided⟩)⟩
  · have hsame := after_of_actions_eq_some hr hactions
    refine ⟨hsame, fun ds => ?_, fun scripts => ?_⟩
    · rw [after_append, after_of_actions hactions]
    · rw [hsame, Call.run_eq_of_actions (r := r.withActions actions) rfl,
        Call.run_eq_of_actions (r := r.withActions actions) rfl]
      rfl

/-! ## A sample -/

/-- The fault of an answer, if there is one. -/
def faultOf? {α : Type} : Except MatchError α → Option MatchError
  | .error e => some e
  | .ok _ => none

/-- A rule with two tags. The script of the second one fails where a word stands in place of the
    number. -/
def weekRule : Element :=
  ⟨"rule", .ofList [("id", "week"), ("type", "date"), ("example", "week 5")],
    [.element "item" .empty [.text "week", .element "tag" .empty [.text "timex[unit] = value"]],
      .element "item" .empty [.element "one-of" .empty [.element "item" .empty [.text "5"],
          .element "item" .empty [.text "last"]],
        .element "tag" .empty [.text "timex[week] = Sum(value, 0)"]]]⟩

/-- A call with a script for the first tag only. -/
def lacking : Call :=
  ⟨true, fun _ group => if group = "Part0" then some default else none, [], "week 5"⟩

/-- A call with all scripts, on a text on which the second one fails. -/
def failing (registry : Registry) : Call := ⟨false, registry, [], "week last"⟩

/-- The first call lacks the second script. The second call fails, but it gives the rule its scripts,
    which are run by a third call that brings none along. -/
theorem actions_after_weekRule : ∃ registry r actions,
    compile [] true .empty weekRule = (registry, .ok r) ∧
    lacking.isMatched r = true ∧ lacking.run r = (r, .error (.missingScript "week" 1)) ∧
    (failing registry).realizes r = true ∧
    faultOf? ((failing registry).run r).2 =
      some (.script "week" 1 (.nonIntegerOperand .sum "last" "0")) ∧
    r.after [lacking, failing registry] = r.withActions actions ∧ r.Provides registry actions ∧
    (⟨true, fun _ _ => none, [], "week 5"⟩ : Call).run (r.after [lacking, failing registry]) =
      (r.withActions actions,
        ((⟨true, registry, [], "week 5"⟩ : Call).run (r.withActions actions)).2) := by
  have hrun : (compile [] true .empty weekRule).2.toOption.map (fun r =>
      (lacking.isMatched r, r.isProvided lacking.scripts, faultOf? (lacking.run r).2,
        (failing (compile [] true .empty weekRule).1).realizes r,
        faultOf? ((failing (compile [] true .empty weekRule).1).run r).2)) =
      some (true, false, some (.missingScript "week" 1), true,
        some (.script "week" 1 (.nonIntegerOperand .sum "last" "0"))) := by
    decide +kernel
  obtain ⟨r, hr, hrun⟩ := Option.map_eq_some_iff.mp hrun
  obtain ⟨hmatched, hrun⟩ := Prod.mk.inj hrun
  obtain ⟨hprovided, hrun⟩ := Prod.mk.inj hrun
  obtain ⟨hmissing, hrun⟩ := Prod.mk.inj hrun
  obtain ⟨hrealizes, hfails⟩ := Prod.mk.inj hrun
  have hcompile : compile [] true .empty weekRule =
      ((compile [] true .empty weekRule).1, .ok r) := by
    rw [← Except.eq_ok_of_toOption hr]
  generalize (compile [] true .empty weekRule).1 = registry at hcompile hrealizes hfails
  -- The first call.
  obtain ⟨hnone, -, -, hfirst⟩ := actions_after hcompile []
  obtain ⟨-, hlacks, -⟩ := (hfirst lacking).1 (hnone rfl).2
  obtain ⟨_, t, _, -, -, -, hlacking⟩ := hlacks hmatched hprovided
  have hlacking : lacking.run r = (r, .error (.missingScript r.id t.1)) := hlacking
  rw [hlacking] at hmissing
  have hsame : MatchError.missingScript r.id t.1 = .missingScript "week" 1 :=
    Option.some.inj hmissing
  rw [hsame] at hlacking
  -- The call that gives the rule its scripts, and the one after it.
  have hskip : lacking.realizes r = false := by rw [Call.realizes, hprovided, Bool.and_false]
  have hfind : [lacking, failing registry].find? (·.realizes r) = some (failing registry) := by
    simp [hskip, hrealizes]
  obtain ⟨-, hsome, -, hnext⟩ := actions_after hcompile [lacking, failing registry]
  obtain ⟨actions, hprovides, hafter⟩ := hsome _ hfind
  obtain ⟨-, -, hlater⟩ := (hnext ⟨true, fun _ _ => none, [], "week 5"⟩).2 actions
    (by rw [hafter]; rfl)
  exact ⟨registry, r, actions, hcompile, hmatched, hlacking, hrealizes, hfails, hafter, hprovides,
    hlater registry⟩

end TimePhrase.Rule
