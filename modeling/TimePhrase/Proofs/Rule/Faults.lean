import TimePhrase.Proofs.Fallible
import TimePhrase.Rule.Basic

/-!
# What can be wrong with the element of a rule

An element is read without a look at its scripts, so what is wrong with it is in none of them. A
fragment that is reported to be missing is missing.

* `LoadError.isElementFault`  the faults that an element can have
* `Rule.failsAsElement_ofElement?`  it has no others
-/

namespace TimePhrase

/-- Whether reading the element of a rule can end with the fault. -/
def LoadError.isElementFault (fragments : Fragments) : LoadError → Bool
  | .script _ => false
  | .unknownFragment _ reference => (fragments.get? reference).isNone
  | _ => true

namespace Rule

/-- A computation that fails only as reading an element can. -/
def FailsAsElement {α : Type} (fragments : Fragments) (x : Except LoadError α) : Prop :=
  x.FailsOnly fun err => err.isElementFault fragments = true

variable {α β : Type} {ruleId attr : Text} {fragments : Fragments} {e : Element}

theorem FailsAsElement.ok (a : α) : FailsAsElement fragments (.ok a) :=
  Except.FailsOnly.ok a

theorem FailsAsElement.error {err : LoadError} (h : err.isElementFault fragments = true) :
    FailsAsElement fragments (.error err : Except LoadError α) :=
  Except.FailsOnly.error h

theorem FailsAsElement.bind {x : Except LoadError α} {f : α → Except LoadError β}
    (hx : FailsAsElement fragments x) (hf : ∀ a, FailsAsElement fragments (f a)) :
    FailsAsElement fragments (x >>= f) :=
  Except.FailsOnly.bind hx hf

theorem failsAsElement_requiredAttribute :
    FailsAsElement fragments (requiredAttribute e ruleId attr) := by
  unfold requiredAttribute
  split
  · exact FailsAsElement.ok _
  · exact FailsAsElement.error rfl

theorem failsAsElement_headerOf : FailsAsElement fragments (headerOf e) := by
  unfold headerOf
  split
  · exact FailsAsElement.ok _
  · exact FailsAsElement.error rfl

theorem failsAsElement_kindOf : FailsAsElement fragments (kindOf e ruleId) := by
  refine failsAsElement_requiredAttribute.bind fun value => ?_
  split
  · exact FailsAsElement.ok _
  · exact FailsAsElement.error rfl

theorem failsAsElement_patternOf [PropertyTable] {caseSensitive : Bool} {expression : Text} :
    FailsAsElement fragments (patternOf ruleId caseSensitive expression) := by
  unfold patternOf
  split
  · exact FailsAsElement.ok _
  · exact FailsAsElement.error rfl

theorem failsAsElement_mark : FailsAsElement fragments (Mark.ofElement? ruleId e) := by
  refine FailsAsElement.bind ?_ fun range => FailsAsElement.bind ?_ fun excluded =>
    FailsAsElement.bind ?_ fun tag => FailsAsElement.ok _
  · unfold Mark.rangeOf?
    split
    · exact FailsAsElement.ok _
    · split
      · exact FailsAsElement.ok _
      · exact FailsAsElement.error rfl
  · unfold Mark.excludedOf?
    split
    · exact FailsAsElement.ok _
    · exact FailsAsElement.error rfl
  · unfold Mark.tagOf?
    split
    · exact FailsAsElement.ok _
    · exact FailsAsElement.ok _
    · exact FailsAsElement.error rfl

/-- The only place where a fragment is missed is where it has just been looked for. -/
theorem failsAsElement_ofReference :
    FailsAsElement fragments (Phrase.ofReference ruleId fragments e) := by
  unfold Phrase.ofReference
  split
  · exact FailsAsElement.error rfl
  · rename_i uri huri
    simp only
    split
    · exact FailsAsElement.ok _
    · rename_i hnone
      refine FailsAsElement.error ?_
      rw [LoadError.isElementFault, hnone]
      rfl

mutual

theorem failsAsElement_ofNode (n : Node) (next : Nat) :
    FailsAsElement fragments (Phrase.ofNode ruleId fragments n next) := by
  match n with
  | .text content => exact FailsAsElement.ok _
  | .element name attributes children =>
    unfold Phrase.ofNode
    split
    · exact FailsAsElement.ok _
    · refine failsAsElement_mark.bind fun mark => ?_
      have hend (body : Phrase) (after : Nat) : FailsAsElement fragments
          (if mark.isPlain then
            match body with
            | .sequence [] => pure (none, after)
            | body => pure (some body, after)
          else pure (some (.group next mark body), after) :
            Except LoadError (Option Phrase × Nat)) := by
        split
        · split <;> exact FailsAsElement.ok _
        · exact FailsAsElement.ok _
      simp only
      split
      · exact failsAsElement_ofReference.bind fun body => hend body _
      · refine (failsAsElement_ofNodes children _).bind fun members => ?_
        split
        · exact hend _ _
        · split
          · exact (FailsAsElement.error rfl).bind fun _ => hend _ _
          · exact hend _ _

theorem failsAsElement_ofNodes (ns : List Node) (next : Nat) :
    FailsAsElement fragments (Phrase.ofNodes ruleId fragments ns next) := by
  match ns with
  | [] => exact FailsAsElement.ok _
  | n :: r =>
    unfold Phrase.ofNodes
    exact (failsAsElement_ofNode n next).bind fun p =>
      (failsAsElement_ofNodes r _).bind fun ps => FailsAsElement.ok _

end

/-- The element of a rule has no other faults. -/
theorem failsAsElement_ofElement? [PropertyTable] {caseSensitive : Bool} :
    FailsAsElement fragments (ofElement? fragments caseSensitive e) := by
  unfold ofElement?
  refine failsAsElement_headerOf.bind fun header => failsAsElement_kindOf.bind fun kind =>
    failsAsElement_requiredAttribute.bind fun sample => FailsAsElement.bind ?_ fun phrase =>
    failsAsElement_patternOf.bind fun pattern => failsAsElement_patternOf.bind fun exactPattern => ?_
  · unfold Phrase.ofChildren
    refine (failsAsElement_ofNodes e.children 0).bind fun members => ?_
    simp only
    split
    · exact FailsAsElement.error rfl
    · exact FailsAsElement.ok _
  · simp only
    split
    · exact FailsAsElement.error rfl
    · split
      · exact FailsAsElement.error rfl
      · exact FailsAsElement.ok _

end Rule

end TimePhrase
