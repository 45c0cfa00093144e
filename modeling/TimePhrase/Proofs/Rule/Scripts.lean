import TimePhrase.Proofs.Rule.Reading
import TimePhrase.Proofs.Script.Registry
import TimePhrase.Rule.Match

/-!
# The scripts of a rule

A rule finds its scripts in a registry that other rules use as well. What it finds are the scripts
compiled from its own tags, as long as they have been put in and no script has taken their places.

* `ownActions`  the scripts a rule ought to find
* `Keeps`  a registry in which it finds them
* `keeps_of_registerScripts`  such is the registry after the rule has been compiled
* `realize_of_isSettled`  what looking up the scripts comes to then
* `matchesOf_of_isSettled`  whether a rule has been asked before does not change its answer
* `matchesOf_eq_of_isSettled`  nor do the scripts of other rules
-/

namespace TimePhrase

namespace Part

theorem name_inj {m n : Nat} : name m = name n ↔ m = n := by
  rw [name, name, List.append_cancel_left_eq, Text.ofNat_inj]

end Part

namespace MatchError

/-- Whether a script has not been found. -/
def isMissingScript : MatchError → Bool
  | .missingScript .. => true
  | .script .. => false

end MatchError

namespace Rule

/-! ## Compiling a rule -/

/-- What compiling an element to a rule has read. -/
structure IsReadFrom [PropertyTable] (fragments : Fragments) (caseSensitive : Bool) (e : Element)
    (r : Rule) :
    Prop where
  header : headerOf e = .ok r.header
  kind : kindOf e r.id = .ok r.kind
  phrase : Phrase.ofChildren r.id fragments e.children = .ok r.phrase
  pattern : Pattern.read? (!caseSensitive) r.expression = some r.pattern
  exactPattern : Pattern.read? (!caseSensitive) (anchored r.expression) = some r.exactPattern
  actions : r.actions = none

theorem patternOf_eq_ok [PropertyTable] {ruleId expression : Text} {caseSensitive : Bool}
    {p : Pattern} :
    patternOf ruleId caseSensitive expression = .ok p ↔
      Pattern.read? (!caseSensitive) expression = some p := by
  unfold patternOf
  split
  · rename_i q hq
    rw [hq, Except.ok.injEq, Option.some.injEq]
  · rename_i hq
    rw [hq]
    constructor <;> exact nofun

/-- The steps of compiling an element. -/
theorem exists_of_ofElement? [PropertyTable] {fragments : Fragments} {caseSensitive : Bool}
    {e : Element} {r : Rule} (h : ofElement? fragments caseSensitive e = .ok r) :
    ∃ header kind sample phrase pattern exactPattern, headerOf e = .ok header ∧
      kindOf e header.id = .ok kind ∧ requiredAttribute e header.id "example" = .ok sample ∧
      Phrase.ofChildren header.id fragments e.children = .ok phrase ∧
      patternOf header.id caseSensitive phrase.expression = .ok pattern ∧
      patternOf header.id caseSensitive (anchored phrase.expression) = .ok exactPattern ∧
      pattern.isIn sample = true ∧ exactPattern.isIn sample = true ∧
      r = ⟨header, kind, sample, phrase, pattern, exactPattern, none⟩ := by
  obtain ⟨header, hheader, h⟩ := Except.bind_eq_ok.mp h
  obtain ⟨kind, hkind, h⟩ := Except.bind_eq_ok.mp h
  obtain ⟨sample, hsample, h⟩ := Except.bind_eq_ok.mp h
  obtain ⟨phrase, hphrase, h⟩ := Except.bind_eq_ok.mp h
  obtain ⟨pattern, hpattern, h⟩ := Except.bind_eq_ok.mp h
  obtain ⟨exactPattern, hexact, h⟩ := Except.bind_eq_ok.mp h
  refine ⟨header, kind, sample, phrase, pattern, exactPattern, hheader, hkind, hsample, hphrase,
    hpattern, hexact, ?_⟩
  -- The two checks of the example either fail or leave the rule as it is.
  simp only at h
  split at h
  · obtain ⟨_, hthrow, -⟩ := Except.bind_eq_ok.mp h
    exact absurd hthrow Except.throw_ne_ok
  · rename_i hin
    split at h
    · obtain ⟨_, hthrow, -⟩ := Except.bind_eq_ok.mp h
      exact absurd hthrow Except.throw_ne_ok
    · rename_i hexactIn
      exact ⟨by simpa using hin, by simpa using hexactIn, (Except.pure_eq_ok.mp h).symm⟩

theorem isReadFrom_of_ofElement? [PropertyTable] {fragments : Fragments} {caseSensitive : Bool}
    {e : Element} {r : Rule} (h : ofElement? fragments caseSensitive e = .ok r) :
    IsReadFrom fragments caseSensitive e r := by
  obtain ⟨header, kind, sample, phrase, pattern, exactPattern, hheader, hkind, -, hphrase, hpattern,
    hexact, -, -, rfl⟩ := exists_of_ofElement? h
  exact ⟨hheader, hkind, hphrase, patternOf_eq_ok.mp hpattern, patternOf_eq_ok.mp hexact, rfl⟩

/-- A rule is refused if one of its patterns misses its example. -/
theorem isIn_sample [PropertyTable] {fragments : Fragments} {caseSensitive : Bool} {e : Element}
    {r : Rule} (h : ofElement? fragments caseSensitive e = .ok r) :
    r.pattern.isIn r.sample = true ∧ r.exactPattern.isIn r.sample = true := by
  obtain ⟨_, _, _, _, _, _, -, -, -, -, -, -, hin, hexactIn, rfl⟩ := exists_of_ofElement? h
  exact ⟨hin, hexactIn⟩

theorem compile_eq_ok [PropertyTable] {fragments : Fragments} {caseSensitive : Bool}
    {scripts scripts' : Registry} {e : Element} {r : Rule} :
    compile fragments caseSensitive scripts e = (scripts', .ok r) ↔
      ofElement? fragments caseSensitive e = .ok r ∧
        registerScripts r.id scripts r.phrase.tags = (scripts', none) := by
  unfold compile
  cases ofElement? fragments caseSensitive e with
  | error err => simp
  | ok q =>
    simp only
    rcases hreg : registerScripts q.id scripts q.phrase.tags with ⟨scripts₁, fault⟩
    cases fault with
    | none =>
      simp only [Prod.mk.injEq, Except.ok.injEq]
      constructor
      · rintro ⟨rfl, rfl⟩
        exact ⟨rfl, hreg⟩
      · rintro ⟨rfl, h⟩
        rw [hreg] at h
        exact ⟨(Prod.mk.inj h).1, rfl⟩
    | some cause =>
      simp only [Prod.mk.injEq, reduceCtorEq, and_false, Except.ok.injEq, false_iff]
      rintro ⟨rfl, h⟩
      rw [hreg] at h
      exact nomatch (Prod.mk.inj h).2

/-! ## The registry after that -/

/-- The scripts of a rule's groups, compiled from the rule's own tags. -/
def ownActions (r : Rule) : Except Script.Error (List (Nat × TagScript)) :=
  r.phrase.tags.mapM fun t => (TagScript.compile r.id (Part.name t.1) t.2).map (t.1, ·)

/-- The registry has, for each of the tags, the script compiled from it. -/
def KeepsTags (scripts : Registry) (ruleId : Text) (tags : List (Nat × Text)) : Prop :=
  ∀ t ∈ tags, ∃ s, TagScript.compile ruleId (Part.name t.1) t.2 = .ok s ∧
    scripts.get? ruleId (Part.name t.1) = some s

/-- A registry in which a rule finds the scripts of its own tags. -/
def Keeps (scripts : Registry) (r : Rule) : Prop := KeepsTags scripts r.id r.phrase.tags

theorem registerScripts_cons {ruleId source : Text} {part : Nat} {tags : List (Nat × Text)}
    {scripts scripts' : Registry} :
    registerScripts ruleId scripts ((part, source) :: tags) = (scripts', none) ↔
      ∃ s, TagScript.compile ruleId (Part.name part) source = .ok s ∧
        registerScripts ruleId (scripts.put s) tags = (scripts', none) := by
  simp only [registerScripts, Registry.append]
  cases TagScript.compile ruleId (Part.name part) source with
  | error e => simp [Except.map]
  | ok s => simp [Except.map]

/-- Scripts of other groups stay where they are. -/
theorem get?_of_registerScripts {ruleId : Text} {tags : List (Nat × Text)}
    {scripts scripts' : Registry} (h : registerScripts ruleId scripts tags = (scripts', none))
    {otherId group : Text} (hne : ∀ t ∈ tags, ruleId = otherId → Part.name t.1 ≠ group) :
    scripts'.get? otherId group = scripts.get? otherId group := by
  induction tags generalizing scripts with
  | nil =>
    obtain rfl := (Prod.mk.inj h).1
    rfl
  | cons t tags ih =>
    obtain ⟨s, hs, h⟩ := registerScripts_cons.mp h
    obtain ⟨hid, hgroup⟩ := TagScript.of_compile hs
    obtain ⟨ht, htags⟩ := List.forall_mem_cons.mp hne
    rw [ih h htags, Registry.get?_put_of_ne]
    rw [TagScript.isFor, hid, hgroup, Bool.eq_false_iff]
    intro hfor
    rw [Bool.and_eq_true, beq_iff_eq, beq_iff_eq] at hfor
    exact ht hfor.1 hfor.2

/-- After its scripts have been registered, a rule finds the scripts of its own tags. -/
theorem keeps_of_registerScripts {ruleId : Text} {tags : List (Nat × Text)}
    {scripts scripts' : Registry} (h : registerScripts ruleId scripts tags = (scripts', none))
    (hnodup : (tags.map Prod.fst).Nodup) : KeepsTags scripts' ruleId tags := by
  induction tags generalizing scripts with
  | nil => exact fun t ht => absurd ht List.not_mem_nil
  | cons t tags ih =>
    obtain ⟨s, hs, h⟩ := registerScripts_cons.mp h
    obtain ⟨hid, hgroup⟩ := TagScript.of_compile hs
    rw [List.map_cons, List.nodup_cons] at hnodup
    refine List.forall_mem_cons.mpr ⟨⟨s, hs, ?_⟩, ih h hnodup.2⟩
    -- The tags after this one belong to other groups.
    rw [get?_of_registerScripts h]
    · have hself := Registry.get?_put_self scripts s
      rwa [hid, hgroup] at hself
    · intro u hu _ hname
      refine hnodup.1 ?_
      rw [← Part.name_inj.mp hname]
      exact List.mem_map_of_mem hu

/-- Scripts are registered if each of them compiles, whatever the registry holds. -/
theorem exists_registerScripts {ruleId : Text} {tags : List (Nat × Text)}
    (h : ∀ t ∈ tags, ∃ s, TagScript.compile ruleId (Part.name t.1) t.2 = .ok s)
    (scripts : Registry) : ∃ scripts', registerScripts ruleId scripts tags = (scripts', none) := by
  induction tags generalizing scripts with
  | nil => exact ⟨scripts, rfl⟩
  | cons t tags ih =>
    obtain ⟨⟨s, hs⟩, htags⟩ := List.forall_mem_cons.mp h
    obtain ⟨scripts', hscripts'⟩ := ih htags (scripts.put s)
    exact ⟨scripts', registerScripts_cons.mpr ⟨s, hs, hscripts'⟩⟩

/-! ## Looking the scripts up -/

/-- A rule that has not looked its scripts up, or that has found those of its own tags. -/
structure IsSettled (scripts : Registry) (r : Rule) : Prop where
  keeps : Keeps scripts r
  actions : ∀ actions ∈ r.actions, r.ownActions = .ok actions

theorem findActions_of_keepsTags {scripts : Registry} {ruleId : Text} {tags : List (Nat × Text)}
    (h : KeepsTags scripts ruleId tags) : ∃ actions,
      findActions ruleId scripts tags = .ok actions ∧
      tags.mapM (fun t => (TagScript.compile ruleId (Part.name t.1) t.2).map (t.1, ·)) =
        .ok actions := by
  induction tags with
  | nil => exact ⟨[], rfl, rfl⟩
  | cons t tags ih =>
    obtain ⟨⟨s, hs, hget⟩, htags⟩ := List.forall_mem_cons.mp h
    obtain ⟨actions, hfind, hown⟩ := ih htags
    refine ⟨(t.1, s) :: actions, ?_, ?_⟩
    · obtain ⟨part, source⟩ := t
      simp only [findActions, hget, hfind, Except.map]
    · rw [List.mapM_cons, hs, hown]
      rfl

/-- Looking up the scripts succeeds, and what it finds does not depend on the registry. -/
theorem realize_of_isSettled {scripts : Registry} {r : Rule} (h : IsSettled scripts r) :
    ∃ actions, r.ownActions = .ok actions ∧
      r.realize scripts = .ok { r with actions := some actions } := by
  obtain ⟨actions, hfind, hown⟩ := findActions_of_keepsTags h.keeps
  refine ⟨actions, hown, ?_⟩
  unfold realize
  cases hactions : r.actions with
  | none => simp only [hfind, Except.map]
  | some actions' =>
    have hown' := h.actions actions' hactions
    rw [ownActions, hown] at hown'
    obtain rfl := Except.ok.inj hown'
    simp only [← hactions]

/-! ## Faults of matches -/

theorem exists_script_of_factsOf {ruleId : Text} {tables : Tables} {text : Text}
    {o : Occurrence} {facts : Dictionary} {actions : List (Nat × TagScript)} {e : MatchError}
    (h : factsOf ruleId tables text o facts actions = .error e) :
    ∃ part cause, e = .script ruleId part cause := by
  induction actions generalizing facts with
  | nil => exact nomatch h
  | cons a actions ih =>
    simp only [factsOf] at h
    split at h
    · exact ih h
    · split at h
      · exact ih h
      · exact ⟨_, _, (Except.error.inj h).symm⟩

/-- A match of a rule that has its scripts fails with one of them only. -/
theorem exists_script_of_matchOf {r : Rule} {tables : Tables} {text : Text} {o : Occurrence}
    {e : MatchError} (h : r.matchOf tables text o = .error e) :
    ∃ part cause, e = .script r.id part cause := by
  unfold matchOf at h
  rcases Except.bind_eq_error.mp h with h | ⟨_, -, h⟩
  · exact exists_script_of_factsOf h
  · exact nomatch h

theorem isMissingScript_of_matchOf {r : Rule} {tables : Tables} {text : Text} {o : Occurrence}
    {e : MatchError} (h : r.matchOf tables text o = .error e) : e.isMissingScript = false := by
  obtain ⟨part, cause, rfl⟩ := exists_script_of_matchOf h
  rfl

/-! ## Matches before and after -/

/-- The rule as it is before it looks up its scripts. -/
def unasked (r : Rule) : Rule := { r with actions := none }

theorem unasked_of_actions {r : Rule} (h : r.actions = none) : r.unasked = r := by
  rw [unasked, ← h]

theorem IsSettled.unasked {scripts : Registry} {r : Rule} (h : IsSettled scripts r) :
    IsSettled scripts r.unasked where
  keeps := h.keeps
  actions _ hactions := absurd hactions (Option.not_mem_none _)

/-- What asking a rule comes to: it answers as it did the first time, and stays the same rule,
    settled as before. No script is missing. -/
structure AnswersAlike {α : Type} (scripts : Registry) (r : Rule)
    (asked : Rule × Except MatchError α) (first : Except MatchError α) : Prop where
  answer : asked.2 = first
  same : asked.1.unasked = r.unasked
  settled : IsSettled scripts asked.1
  found : ∀ e, asked.2 = .error e → e.isMissingScript = false

theorem matchesOf_of_isSettled {scripts : Registry} {r : Rule} (h : IsSettled scripts r)
    (tables : Tables) (text : Text) (os : List Occurrence) :
    AnswersAlike scripts r (r.matchesOf scripts tables text os)
      (r.unasked.matchesOf scripts tables text os).2 := by
  obtain ⟨actions, hown, hreal⟩ := realize_of_isSettled h
  obtain ⟨actions', hown', hreal'⟩ := realize_of_isSettled h.unasked
  -- Both look up the scripts of the same tags.
  have heq : actions' = actions := by
    have hsame : r.unasked.ownActions = r.ownActions := rfl
    rw [hsame, hown] at hown'
    exact (Except.ok.inj hown').symm
  subst heq
  unfold matchesOf
  split
  · exact ⟨rfl, rfl, h, nofun⟩
  · rw [hreal, hreal']
    refine ⟨rfl, rfl, ⟨h.keeps, fun found hfound => ?_⟩, fun e he => ?_⟩
    · obtain rfl := Option.some.inj hfound
      exact hown
    · obtain ⟨o, -, ho⟩ := Except.exists_of_mapM_eq_error he
      exact isMissingScript_of_matchOf ho

theorem matchAll_of_isSettled {scripts : Registry} {r : Rule} (h : IsSettled scripts r)
    (tables : Tables) (text : Text) :
    AnswersAlike scripts r (r.matchAll scripts tables text)
      (r.unasked.matchAll scripts tables text).2 :=
  matchesOf_of_isSettled h tables text _

theorem matchExact_of_isSettled {scripts : Registry} {r : Rule} (h : IsSettled scripts r)
    (tables : Tables) (text : Text) :
    AnswersAlike scripts r (r.matchExact scripts tables text)
      (r.unasked.matchExact scripts tables text).2 := by
  have hmatches := matchesOf_of_isSettled h tables text (r.exactPattern.firstIn? text).toList
  exact ⟨congrArg (Except.map List.head?) hmatches.answer, hmatches.same, hmatches.settled,
    fun e he => hmatches.found e (Except.map_eq_error.mp he)⟩

/-- A settled rule answers alike whatever else is in the registry. -/
theorem matchesOf_eq_of_isSettled {scripts scripts' : Registry} {r : Rule}
    (h : IsSettled scripts r) (h' : IsSettled scripts' r) (tables : Tables) (text : Text)
    (os : List Occurrence) :
    r.matchesOf scripts tables text os = r.matchesOf scripts' tables text os := by
  obtain ⟨actions, hown, hreal⟩ := realize_of_isSettled h
  obtain ⟨actions', hown', hreal'⟩ := realize_of_isSettled h'
  rw [hown] at hown'
  obtain rfl := Except.ok.inj hown'
  unfold matchesOf
  rw [hreal, hreal']

theorem matchAll_eq_of_isSettled {scripts scripts' : Registry} {r : Rule}
    (h : IsSettled scripts r) (h' : IsSettled scripts' r) (tables : Tables) (text : Text) :
    r.matchAll scripts tables text = r.matchAll scripts' tables text :=
  matchesOf_eq_of_isSettled h h' tables text _

theorem matchExact_eq_of_isSettled {scripts scripts' : Registry} {r : Rule}
    (h : IsSettled scripts r) (h' : IsSettled scripts' r) (tables : Tables) (text : Text) :
    r.matchExact scripts tables text = r.matchExact scripts' tables text := by
  unfold matchExact
  rw [matchesOf_eq_of_isSettled h h']

end Rule

end TimePhrase
