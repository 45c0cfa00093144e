import Mathlib.Data.List.TakeWhile
import TimePhrase.Proofs.Resource.Header
import TimePhrase.Proofs.Rule.Faults
import TimePhrase.Proofs.Rule.Scripts

/-!
# Compiling rules on one registry

A rule that is compiled hands in the sources of its tags, in order, up to the first one that does
not compile. A rule that is refused for another reason hands in nothing.

* `Request`  a source that is handed in, or a rule that is compiled
* `Rule.Registers`  what compiling a rule hands in, given how it ends
* `Registry.after_requests`  the registry after any number of requests
-/

namespace TimePhrase

namespace LoadError

/-- Whether the fault is one in a script. -/
def isScriptFault : LoadError → Bool
  | .script _ => true
  | _ => false

theorem isScriptFault_of_isElementFault {fragments : Fragments} {err : LoadError}
    (h : err.isElementFault fragments = true) : err.isScriptFault = false := by
  cases err with
  | script cause => exact nomatch h
  | _ => rfl

end LoadError

namespace Rule

/-! ## Handing in the sources of the tags -/

/-- The sources of tags, for the groups that they belong to. -/
def submissionsOf (ruleId : Text) (tags : List (Nat × Text)) : List Submission :=
  tags.map fun t => ⟨ruleId, Part.name t.1, t.2⟩

/-- The sources of a rule's tags. -/
def submissions (r : Rule) : List Submission := submissionsOf r.id r.phrase.tags

theorem ruleId_of_mem_submissionsOf {ruleId : Text} {tags : List (Nat × Text)} {s : Submission}
    (h : s ∈ submissionsOf ruleId tags) : s.ruleId = ruleId := by
  obtain ⟨t, -, rfl⟩ := List.mem_map.mp h
  rfl

/-- What registering tags comes to: all sources are handed in if they compile, and otherwise those
    before the first one that does not. -/
theorem registerScripts_cases (ruleId : Text) (tags : List (Nat × Text)) (scripts : Registry) :
    (registerScripts ruleId scripts tags = (scripts.submitAll (submissionsOf ruleId tags), none) ∧
        ∀ s ∈ submissionsOf ruleId tags, s.compiles = true) ∨
      ∃ before s after cause, submissionsOf ruleId tags = before ++ s :: after ∧
        registerScripts ruleId scripts tags = (scripts.submitAll before, some cause) ∧
        (∀ b ∈ before, b.compiles = true) ∧
        TagScript.compile s.ruleId s.group s.source = .error cause := by
  induction tags generalizing scripts with
  | nil => exact .inl ⟨rfl, List.forall_mem_nil _⟩
  | cons t tags ih =>
    obtain ⟨part, source⟩ := t
    let first : Submission := ⟨ruleId, Part.name part, source⟩
    have hcons : submissionsOf ruleId ((part, source) :: tags) =
        first :: submissionsOf ruleId tags := rfl
    rw [hcons]
    simp only [registerScripts]
    cases happend : scripts.append ruleId (Part.name part) source with
    | error cause =>
      exact .inr ⟨[], first, _, cause, rfl, rfl, List.forall_mem_nil _,
        Registry.append_eq_error.mp happend⟩
    | ok scripts' =>
      have hsubmit : scripts.submit first = scripts' := Registry.submit_of_append_eq_ok happend
      have hfirst : first.compiles = true :=
        Submission.compiles_iff.mpr ((Registry.append_eq_ok.mp happend).imp fun _ h => h.1)
      rcases ih scripts' with ⟨hreg, hall⟩ | ⟨before, s, after, cause, hsplit, hreg, hall, hs⟩
      · refine .inl ⟨?_, List.forall_mem_cons.mpr ⟨hfirst, hall⟩⟩
        rw [Registry.submitAll_cons, hsubmit]
        exact hreg
      · refine .inr ⟨first :: before, s, after, cause, ?_, ?_,
          List.forall_mem_cons.mpr ⟨hfirst, hall⟩, hs⟩
        · rw [hsplit]
          rfl
        · rw [Registry.submitAll_cons, hsubmit]
          exact hreg

/-! ## What compiling a rule hands in -/

theorem filledAttribute?_of_headerOf {e : Element} {header : Header} (h : headerOf e = .ok header) :
    e.filledAttribute? "id" = some header.id := by
  unfold headerOf at h
  split at h
  · rename_i found hfound
    obtain rfl := Except.ok.inj h
    exact Element.filledAttribute?_of_header? hfound
  · exact nomatch h

/-- What compiling an element hands in, given how it ends. -/
inductive Registers [PropertyTable] (fragments : Fragments) (caseSensitive : Bool) (e : Element) :
    Except LoadError Rule → List Submission → Prop
  /-- Nothing, if the element is refused for a fault that is not in a script. -/
  | refused (err : LoadError) (hfault : err.isScriptFault = false) :
      Registers fragments caseSensitive e (.error err) []
  /-- All sources of the tags, if there is no fault. -/
  | compiled (rule : Rule) (hall : ∀ s ∈ rule.submissions, s.compiles = true) :
      Registers fragments caseSensitive e (.ok rule) rule.submissions
  /-- The sources before the first one that does not compile, if there is such a one. -/
  | faulty (rule : Rule) (before after : List Submission) (s : Submission) (cause : Script.Error)
      (hrule : ofElement? fragments caseSensitive e = .ok rule)
      (hsplit : rule.submissions = before ++ s :: after)
      (hbefore : ∀ b ∈ before, b.compiles = true)
      (hs : TagScript.compile s.ruleId s.group s.source = .error cause) :
      Registers fragments caseSensitive e (.error (.script cause)) before

/-- The sources that compiling an element hands in. -/
def accepted [PropertyTable] (fragments : Fragments) (caseSensitive : Bool) (e : Element) :
    List Submission :=
  match ofElement? fragments caseSensitive e with
  | .error _ => []
  | .ok rule => rule.submissions.takeWhile Submission.compiles

theorem compiles_of_mem_accepted [PropertyTable] {fragments : Fragments} {caseSensitive : Bool}
    {e : Element} {s : Submission} (h : s ∈ accepted fragments caseSensitive e) :
    s.compiles = true := by
  unfold accepted at h
  split at h
  · exact absurd h List.not_mem_nil
  · exact List.mem_takeWhile_imp h

theorem ruleId_of_mem_accepted [PropertyTable] {fragments : Fragments} {caseSensitive : Bool}
    {e : Element} {s : Submission} (h : s ∈ accepted fragments caseSensitive e) :
    e.filledAttribute? "id" = some s.ruleId := by
  unfold accepted at h
  split at h
  · exact absurd h List.not_mem_nil
  · rename_i rule hrule
    rw [ruleId_of_mem_submissionsOf ((List.takeWhile_sublist _).mem h)]
    exact filledAttribute?_of_headerOf (isReadFrom_of_ofElement? hrule).header

/-- Compiling an element acts on any registry as handing in those sources does. -/
theorem compile_registers [PropertyTable] (fragments : Fragments) (caseSensitive : Bool)
    (scripts : Registry) (e : Element) :
    (compile fragments caseSensitive scripts e).1 =
        scripts.submitAll (accepted fragments caseSensitive e) ∧
      Registers fragments caseSensitive e (compile fragments caseSensitive scripts e).2
        (accepted fragments caseSensitive e) := by
  unfold compile accepted
  cases hrule : ofElement? fragments caseSensitive e with
  | error err =>
    have hfault : err.isScriptFault = false :=
      LoadError.isScriptFault_of_isElementFault (failsAsElement_ofElement? err hrule)
    exact ⟨rfl, .refused err hfault⟩
  | ok rule =>
    simp only
    rcases registerScripts_cases rule.id rule.phrase.tags scripts with
      ⟨hreg, hall⟩ | ⟨before, s, after, cause, hsplit, hreg, hbefore, hs⟩
    · have haccepted : rule.submissions.takeWhile Submission.compiles = rule.submissions :=
        List.takeWhile_eq_self_iff.mpr hall
      rw [hreg, haccepted]
      exact ⟨rfl, .compiled rule hall⟩
    · have haccepted : rule.submissions.takeWhile Submission.compiles = before := by
        rw [submissions, hsplit, List.takeWhile_append_of_pos hbefore, List.takeWhile_cons_of_neg,
          List.append_nil]
        intro hcompiles
        obtain ⟨t, ht⟩ := Submission.compiles_iff.mp hcompiles
        rw [hs] at ht
        exact nomatch ht
      rw [hreg, haccepted]
      exact ⟨rfl, .faulty rule before after s cause hrule hsplit hbefore hs⟩

end Rule

/-! ## Any number of requests -/

/-- What can be asked of a registry: to take a source, or to take those of a rule that is compiled. -/
inductive Request where
  | append (s : Submission)
  | compile (fragments : Fragments) (caseSensitive : Bool) (e : Element)

namespace Request

/-- The registry after a request. -/
def run [PropertyTable] (r : Registry) : Request → Registry
  | .append s => r.submit s
  | .compile fragments caseSensitive e => (Rule.compile fragments caseSensitive r e).1

/-- The sources that a request hands in and that compile. -/
def accepted [PropertyTable] : Request → List Submission
  | .append s => if s.compiles then [s] else []
  | .compile fragments caseSensitive e => Rule.accepted fragments caseSensitive e

/-- The rule that a request names, if it names one. -/
def ruleId? : Request → Option Text
  | .append s => some s.ruleId
  | .compile _ _ e => e.filledAttribute? "id"

theorem run_eq [PropertyTable] (r : Registry) (q : Request) : q.run r = r.submitAll q.accepted := by
  cases q with
  | append s =>
    rw [run, accepted]
    cases hs : s.compiles with
    | true => rfl
    | false => exact Registry.submit_of_not_compiles r hs
  | compile fragments caseSensitive e =>
    exact (Rule.compile_registers fragments caseSensitive r e).1

theorem compiles_of_mem_accepted [PropertyTable] {q : Request} {s : Submission}
    (h : s ∈ q.accepted) :
    s.compiles = true := by
  cases q with
  | append t =>
    rw [accepted] at h
    split at h
    · rename_i ht
      rwa [List.mem_singleton.mp h]
    · exact absurd h List.not_mem_nil
  | compile fragments caseSensitive e => exact Rule.compiles_of_mem_accepted h

theorem ruleId_of_mem_accepted [PropertyTable] {q : Request} {s : Submission} (h : s ∈ q.accepted) :
    q.ruleId? = some s.ruleId := by
  cases q with
  | append t =>
    rw [accepted] at h
    split at h
    · rw [List.mem_singleton.mp h, ruleId?]
    · exact absurd h List.not_mem_nil
  | compile fragments caseSensitive e => exact Rule.ruleId_of_mem_accepted h

/-- A request leaves the scripts of other rules where they are. -/
theorem get?_run_of_ne [PropertyTable] (r : Registry) {q : Request} {ruleId : Text}
    (h : q.ruleId? ≠ some ruleId) (group : Text) :
    (q.run r).get? ruleId group = r.get? ruleId group := by
  rw [run_eq]
  refine Registry.get?_submitAll_of_ne r (fun s hs hid => h ?_) group
  rw [ruleId_of_mem_accepted hs, hid]

end Request

namespace Registry

/-- The registry after several requests, which was empty before. -/
def after [PropertyTable] (qs : List Request) : Registry := qs.foldl Request.run .empty

/-- One more request. -/
theorem Holds.run [PropertyTable] {r : Registry} {l : List Submission} (h : r.Holds l)
    (q : Request) :
    (q.run r).Holds (l ++ q.accepted) := by
  rw [Request.run_eq]
  exact h.submitAll fun _ => Request.compiles_of_mem_accepted

theorem Holds.foldl_run [PropertyTable] {r : Registry} {l : List Submission} (h : r.Holds l)
    (qs : List Request) :
    (qs.foldl Request.run r).Holds (l ++ qs.flatMap Request.accepted) := by
  induction qs generalizing r l with
  | nil =>
    rw [List.flatMap_nil, List.append_nil]
    exact h
  | cons q qs ih =>
    rw [List.flatMap_cons, ← List.append_assoc]
    exact ih (h.run q)

/-- After any number of requests the registry holds the sources that were accepted, in order: for
    each group the last one. A source that does not compile changes nothing. Compiling a rule is like
    handing in the sources of its tags up to the first faulty one, or none at all if the rule is
    refused for another fault. Scripts of other rules never change. -/
theorem after_requests [PropertyTable] :
    (∀ qs : List Request, (after qs).Holds (qs.flatMap Request.accepted)) ∧
    (∀ (r : Registry) (s : Submission) (cause : Script.Error),
      r.append s.ruleId s.group s.source = .error cause →
        (Request.append s).run r = r ∧ (Request.append s).accepted = []) ∧
    (∀ (r r' : Registry) (s : Submission), r.append s.ruleId s.group s.source = .ok r' →
      (Request.append s).run r = r' ∧ (Request.append s).accepted = [s]) ∧
    (∀ (r : Registry) (fragments : Fragments) (caseSensitive : Bool) (e : Element),
      (Rule.compile fragments caseSensitive r e).1 =
          r.submitAll (Request.compile fragments caseSensitive e).accepted ∧
        Rule.Registers fragments caseSensitive e (Rule.compile fragments caseSensitive r e).2
          (Request.compile fragments caseSensitive e).accepted) ∧
    ∀ (r : Registry) (q : Request) (ruleId group : Text), q.ruleId? ≠ some ruleId →
      (q.run r).get? ruleId group = r.get? ruleId group := by
  refine ⟨fun qs => holds_empty.foldl_run qs, ?_, ?_, ?_, ?_⟩
  · intro r s cause h
    have hs : ¬ s.compiles = true := by
      intro hcompiles
      obtain ⟨t, ht⟩ := Submission.compiles_iff.mp hcompiles
      rw [append_eq_error.mp h] at ht
      exact nomatch ht
    exact ⟨submit_of_append_eq_error h, if_neg hs⟩
  · intro r r' s h
    obtain ⟨t, ht, -⟩ := append_eq_ok.mp h
    exact ⟨submit_of_append_eq_ok h, if_pos (Submission.compiles_iff.mpr ⟨t, ht⟩)⟩
  · exact fun r fragments caseSensitive e => Rule.compile_registers fragments caseSensitive r e
  · exact fun r q ruleId group h => Request.get?_run_of_ne r h group

/-- A rule with two tags, of which the second one is no script. -/
def halfTagged : Element :=
  ⟨"rule", .ofList [("id", "week"), ("type", "date"), ("example", "week 5")],
    [.element "item" .empty [.text "week",
        .element "tag" .empty [.text "timex[\"c\"] = value"]],
      .element "item" .empty [.text "5", .element "tag" .empty [.text "value"]]]⟩

/-- Of the sources for one group the last one counts, and one that is no script does not. The rule
    that is compiled between them hands in its first tag only, because the second one is faulty. -/
theorem after_requests_replaced :
    let first : Submission := ⟨"week", "Part0", "timex[\"a\"] = value"⟩
    let tagged : Submission := ⟨"week", "Part0", "timex[\"c\"] = value"⟩
    let second : Submission := ⟨"week", "Part0", "timex[\"b\"] = value"⟩
    let third : Submission := ⟨"week", "Part0", "value"⟩
    let qs : List Request :=
      [.append first, .compile [] true halfTagged, .append second, .append third]
    qs.flatMap Request.accepted = [first, tagged, second] ∧
      (after (qs.take 2)).get? "week" "Part0" = tagged.script? ∧ tagged.compiles = true ∧
      (after qs).get? "week" "Part0" = second.script? ∧ second.compiles = true ∧
      (after qs).get? "week" "Part1" = none ∧ (after qs).size = 1 := by
  intro first tagged second third qs
  have haccepted : qs.flatMap Request.accepted = [first, tagged, second] := by decide +kernel
  have hbefore : (qs.take 2).flatMap Request.accepted = [first, tagged] := by decide +kernel
  have hholds := after_requests.1 qs
  have hholdsBefore := after_requests.1 (qs.take 2)
  rw [haccepted] at hholds
  rw [hbefore] at hholdsBefore
  refine ⟨haccepted, ?_, by decide +kernel, ?_, by decide +kernel, ?_, hholds.size_eq⟩
  · rw [hholdsBefore.get?_eq]
    rfl
  · rw [hholds.get?_eq]
    rfl
  · rw [hholds.get?_eq]
    rfl

end Registry

end TimePhrase
