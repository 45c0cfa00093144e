import TimePhrase.Proofs.Grammar.Extract
import TimePhrase.Proofs.Grammar.RuleOrder

/-!
# The faults of a document

A document is read in two passes, one for its resources and hints and one for its rules. In each of
them an element has one fault at most, and an element with a fault leaves nothing behind that an
element after it is judged by. A faulty resource is not taken over, and a faulty rule leaves at most
scripts behind, which no other rule is compiled with. So an element with a fault can be taken out of
the document, and then the other faults are left.

* `faultsBy_append_cons`  a faulty element among others, in one pass
* `judgesAlike_resourceStep`, `judgesAlike_ruleStep`  what is left behind by faulty elements
* `load_faults`  the faults of a document, and of one with other elements
-/

namespace TimePhrase

namespace Element

/-- Whether the element declares a resource, a fragment or a table. -/
def declaresResource (e : Element) : Bool :=
  e.name == ("regex" : Text) || e.name == ("normalization_rule" : Text)

/-- Whether the element gives a hint. -/
def givesHint (e : Element) : Bool := e.name == ("meta" : Text)

end Element

namespace Grammar

/-! ## Passes over the elements -/

section Pass

variable {σ : Type} (step : σ → Element → σ × Option LoadError)

/-- What has been read after some elements. -/
def readBy (s : σ) (es : List Element) : σ := es.foldl (fun s e => (step s e).1) s

/-- The faulty ones of some elements, each with its fault, in the order of the elements. -/
def faultsBy : σ → List Element → List (Element × LoadError)
  | _, [] => []
  | s, e :: es => ((step s e).2.map (e, ·)).toList ++ faultsBy (step s e).1 es

theorem readBy_append (s : σ) (es fs : List Element) :
    readBy step s (es ++ fs) = readBy step (readBy step s es) fs :=
  List.foldl_append

theorem faultsBy_append (s : σ) (es fs : List Element) :
    faultsBy step s (es ++ fs) = faultsBy step s es ++ faultsBy step (readBy step s es) fs := by
  induction es generalizing s with
  | nil => rfl
  | cons e es ih => rw [List.cons_append, faultsBy, faultsBy, ih, List.append_assoc]; rfl

variable {step}

/-- Only elements of a class are read if the step passes over all others. -/
theorem readBy_filter {p : Element → Bool} (h : ∀ s e, p e = false → step s e = (s, none)) (s : σ)
    (es : List Element) : readBy step s (es.filter p) = readBy step s es := by
  induction es generalizing s with
  | nil => rfl
  | cons e es ih =>
    cases he : p e with
    | true =>
      rw [List.filter_cons_of_pos he]
      exact ih _
    | false =>
      rw [List.filter_cons_of_neg (by simp [he]), ih]
      show _ = readBy step (step s e).1 es
      rw [h s e he]

theorem faultsBy_filter {p : Element → Bool} (h : ∀ s e, p e = false → step s e = (s, none)) (s : σ)
    (es : List Element) : faultsBy step s (es.filter p) = faultsBy step s es := by
  induction es generalizing s with
  | nil => rfl
  | cons e es ih =>
    cases he : p e with
    | true => rw [List.filter_cons_of_pos he, faultsBy, faultsBy, ih]
    | false =>
      rw [List.filter_cons_of_neg (by simp [he]), ih, faultsBy, h s e he]
      rfl

/-- The faulty elements are some of those that the step looks at, each of them reported once. -/
theorem faultsBy_sublist {p : Element → Bool}
    (h : ∀ s e err, (step s e).2 = some err → p e = true) (s : σ) (es : List Element) :
    ((faultsBy step s es).map Prod.fst).Sublist (es.filter p) := by
  induction es generalizing s with
  | nil => exact List.Sublist.refl []
  | cons e es ih =>
    rw [faultsBy, List.map_append]
    cases herr : (step s e).2 with
    | none =>
      refine (ih (step s e).1).trans (List.Sublist.filter p ?_)
      exact List.sublist_cons_self e es
    | some err =>
      rw [List.filter_cons_of_pos (h s e err herr)]
      exact (ih (step s e).1).cons_cons e

/-- An element that the step passes over can be left out. -/
theorem readBy_append_cons {e : Element} (h : ∀ s, step s e = (s, none)) (s : σ)
    (before after : List Element) :
    readBy step s (before ++ e :: after) = readBy step s (before ++ after) := by
  rw [readBy_append, readBy_append]
  show readBy step (step (readBy step s before) e).1 after = _
  rw [h]

theorem faultsBy_append_cons_of_none {e : Element} (h : ∀ s, step s e = (s, none)) (s : σ)
    (before after : List Element) :
    faultsBy step s (before ++ e :: after) = faultsBy step s (before ++ after) := by
  rw [faultsBy_append, faultsBy_append, faultsBy, h]
  rfl

/-- A reported element stands somewhere, and its fault is what the step finds there. -/
theorem exists_of_mem_faultsBy {s : σ} {es : List Element} {x : Element × LoadError}
    (h : x ∈ faultsBy step s es) : ∃ before after, es = before ++ x.1 :: after ∧
      (step (readBy step s before) x.1).2 = some x.2 := by
  induction es generalizing s with
  | nil => exact absurd h List.not_mem_nil
  | cons e es ih =>
    rcases List.mem_append.mp h with h | h
    · obtain ⟨err, herr, rfl⟩ := Option.map_eq_some_iff.mp (Option.mem_toList.mp h)
      exact ⟨[], es, rfl, herr⟩
    · obtain ⟨before, after, rfl, herr⟩ := ih h
      exact ⟨e :: before, after, rfl, herr⟩

/-! ### Faulty elements -/

/-- States from which the same faults are found, and which a faulty element does not tell apart. -/
structure JudgesAlike (step : σ → Element → σ × Option LoadError) (same : σ → σ → Prop) : Prop where
  step_eq : ∀ s s' e, same s s' → (step s e).2 = (step s' e).2 ∧ same (step s e).1 (step s' e).1
  of_fault : ∀ s e err, (step s e).2 = some err → same (step s e).1 s

variable {same : σ → σ → Prop}

theorem JudgesAlike.faultsBy_eq (h : JudgesAlike step same) {s s' : σ} (hs : same s s')
    (es : List Element) : faultsBy step s es = faultsBy step s' es := by
  induction es generalizing s s' with
  | nil => rfl
  | cons e es ih =>
    obtain ⟨hfault, hsame⟩ := h.step_eq s s' e hs
    rw [faultsBy, faultsBy, hfault, ih hsame]

/-- What is reported of the elements around a faulty one does not depend on it. -/
theorem faultsBy_append_cons (h : JudgesAlike step same) {s : σ} {before : List Element}
    {e : Element} {err : LoadError} (hfault : (step (readBy step s before) e).2 = some err)
    (after : List Element) : ∃ q,
      faultsBy step s (before ++ e :: after) = faultsBy step s before ++ (e, err) :: q ∧
        faultsBy step s (before ++ after) = faultsBy step s before ++ q := by
  have hleft := h.of_fault _ e err hfault
  refine ⟨faultsBy step (readBy step s before) after, ?_, ?_⟩
  · rw [faultsBy_append, faultsBy, hfault, h.faultsBy_eq hleft after]
    rfl
  · exact faultsBy_append step s before after

end Pass

/-! ## The two passes -/

/-- One step of the pass over the resources. A faulty one is not taken over. -/
def resourceStep (caseSensitive : Bool) (r : Resources) (e : Element) :
    Resources × Option LoadError :=
  match r.add caseSensitive e with
  | .ok r => (r, none)
  | .error err => (r, some err)

/-- One step of the pass over the rules. -/
def ruleStep [PropertyTable] (fragments : Fragments) (caseSensitive : Bool) (b : RuleBook)
    (e : Element) : RuleBook × Option LoadError :=
  b.add fragments caseSensitive e

theorem readResources_eq (caseSensitive : Bool) (r : Resources) (es : List Element) :
    readResources caseSensitive r es = (readBy (resourceStep caseSensitive) r es,
      (faultsBy (resourceStep caseSensitive) r es).map Prod.snd) := by
  induction es generalizing r with
  | nil => rfl
  | cons e es ih =>
    have hread : readBy (resourceStep caseSensitive) r (e :: es) =
        readBy (resourceStep caseSensitive) (resourceStep caseSensitive r e).1 es := rfl
    rw [readResources, hread, faultsBy, resourceStep]
    cases r.add caseSensitive e with
    | ok r => exact ih r
    | error err => simp only [ih r]; rfl

theorem readRules_eq [PropertyTable] (fragments : Fragments) (caseSensitive : Bool) (b : RuleBook)
    (es : List Element) :
    readRules fragments caseSensitive b es = (readBy (ruleStep fragments caseSensitive) b es,
      (faultsBy (ruleStep fragments caseSensitive) b es).map Prod.snd) := by
  induction es generalizing b with
  | nil => rfl
  | cons e es ih =>
    have hread : readBy (ruleStep fragments caseSensitive) b (e :: es) =
        readBy (ruleStep fragments caseSensitive) (ruleStep fragments caseSensitive b e).1 es := rfl
    rw [readRules, hread, faultsBy, ruleStep]
    rcases b.add fragments caseSensitive e with ⟨b', err⟩
    cases err <;> simp [ih b']

theorem resourceStep_of_not_declares {e : Element}
    (he : (e.declaresResource || e.givesHint) = false)
    (caseSensitive : Bool) (r : Resources) : resourceStep caseSensitive r e = (r, none) := by
  simp only [Element.declaresResource, Element.givesHint, Bool.or_eq_false_iff,
    beq_eq_false_iff_ne] at he
  obtain ⟨⟨hregex, htable⟩, hhint⟩ := he
  rw [resourceStep, Resources.add, if_neg hregex, if_neg htable, if_neg hhint]

theorem declaresResource_of_fault {caseSensitive : Bool} {r : Resources} {e : Element}
    {err : LoadError} (h : (resourceStep caseSensitive r e).2 = some err) :
    e.declaresResource = true := by
  by_contra hnone
  simp only [Element.declaresResource, Bool.not_eq_true, Bool.or_eq_false_iff,
    beq_eq_false_iff_ne] at hnone
  rw [resourceStep, Resources.add, if_neg hnone.1, if_neg hnone.2] at h
  split_ifs at h

theorem declaresRule_of_fault [PropertyTable] {fragments : Fragments} {caseSensitive : Bool}
    {b : RuleBook} {e : Element} {err : LoadError}
    (h : (ruleStep fragments caseSensitive b e).2 = some err) :
    e.declaresRule = true := by
  by_contra hnone
  rw [Bool.not_eq_true] at hnone
  rw [ruleStep, RuleBook.add_of_not_declaresRule hnone] at h
  exact nomatch h

/-- A faulty resource leaves the resources as they were. -/
theorem judgesAlike_resourceStep (caseSensitive : Bool) :
    JudgesAlike (resourceStep caseSensitive) Eq where
  step_eq := by
    rintro s _ e rfl
    exact ⟨rfl, rfl⟩
  of_fault r e err h := by
    rw [resourceStep] at h ⊢
    cases hadd : r.add caseSensitive e with
    | ok r' =>
      rw [hadd] at h
      exact nomatch h
    | error err' => rfl

/-- Books that differ in nothing but their scripts. -/
def SameRules (b b' : RuleBook) : Prop :=
  b.rules = b'.rules ∧ b.negativeRules = b'.negativeRules

/-- Whether scripts compile does not depend on those registered before. -/
theorem registerScripts_snd_eq (ruleId : Text) (tags : List (Nat × Text))
    (scripts scripts' : Registry) : (Rule.registerScripts ruleId scripts tags).2 =
      (Rule.registerScripts ruleId scripts' tags).2 := by
  induction tags generalizing scripts scripts' with
  | nil => rfl
  | cons t tags ih =>
    rw [Rule.registerScripts, Rule.registerScripts, Registry.append, Registry.append]
    cases TagScript.compile ruleId (Part.name t.1) t.2 with
    | error cause => rfl
    | ok script => exact ih _ _

/-- What an element is compiled to does not depend on them either. -/
theorem compile_snd_eq [PropertyTable] (fragments : Fragments) (caseSensitive : Bool)
    (scripts scripts' : Registry) (e : Element) :
    (Rule.compile fragments caseSensitive scripts e).2 =
      (Rule.compile fragments caseSensitive scripts' e).2 := by
  rw [Rule.compile, Rule.compile]
  cases Rule.ofElement? fragments caseSensitive e with
  | error err => rfl
  | ok rule =>
    have hfaults := registerScripts_snd_eq rule.id rule.phrase.tags scripts scripts'
    simp only
    -- What is left in the registry is not part of the result.
    generalize Rule.registerScripts rule.id scripts rule.phrase.tags = left at hfaults ⊢
    generalize Rule.registerScripts rule.id scripts' rule.phrase.tags = left' at hfaults ⊢
    obtain ⟨s, fault⟩ := left
    obtain ⟨s', fault'⟩ := left'
    obtain rfl : fault = fault' := hfaults
    cases fault with
    | none => rfl
    | some cause => rfl

/-- One more rule is taken over or refused alike by books with the same rules. -/
theorem addRule_of_sameRules [PropertyTable] {b b' : RuleBook} (h : SameRules b b')
    (fragments : Fragments) (caseSensitive negative : Bool) (e : Element) :
    (b.addRule fragments caseSensitive negative e).2 =
        (b'.addRule fragments caseSensitive negative e).2 ∧
      SameRules (b.addRule fragments caseSensitive negative e).1
        (b'.addRule fragments caseSensitive negative e).1 := by
  have hget (id : Text) : b.get? id = b'.get? id := by
    rw [RuleBook.get?, RuleBook.get?, RuleBook.all, RuleBook.all, h.1, h.2]
  have hcompile := compile_snd_eq fragments caseSensitive b.scripts b'.scripts e
  rw [RuleBook.addRule, RuleBook.addRule]
  generalize Rule.compile fragments caseSensitive b.scripts e = found at hcompile ⊢
  generalize Rule.compile fragments caseSensitive b'.scripts e = found' at hcompile ⊢
  obtain ⟨s, r⟩ := found
  obtain ⟨s', r'⟩ := found'
  obtain rfl : r = r' := hcompile
  cases r with
  | error err => exact ⟨rfl, h⟩
  | ok rule =>
    simp only [hget rule.id]
    cases b'.get? rule.id with
    | some _ => exact ⟨rfl, h⟩
    | none =>
      cases negative with
      | false => exact ⟨rfl, congrArg (· ++ [rule]) h.1, h.2⟩
      | true => exact ⟨rfl, h.1, congrArg (· ++ [rule]) h.2⟩

/-- A rule that is refused leaves the rules of the book as they were. -/
theorem sameRules_of_addRule [PropertyTable] {b : RuleBook} {fragments : Fragments}
    {caseSensitive negative : Bool} {e : Element} {err : LoadError}
    (h : (b.addRule fragments caseSensitive negative e).2 = some err) :
    SameRules (b.addRule fragments caseSensitive negative e).1 b := by
  rw [RuleBook.addRule] at h ⊢
  generalize Rule.compile fragments caseSensitive b.scripts e = found at h ⊢
  obtain ⟨s, cause | rule⟩ := found
  · exact ⟨rfl, rfl⟩
  · simp only at h ⊢
    cases hget : b.get? rule.id with
    | some _ => exact ⟨rfl, rfl⟩
    | none =>
      rw [hget] at h
      cases negative <;> cases h

/-- A faulty rule leaves nothing but scripts behind. -/
theorem judgesAlike_ruleStep [PropertyTable] (fragments : Fragments) (caseSensitive : Bool) :
    JudgesAlike (ruleStep fragments caseSensitive) SameRules where
  step_eq b b' e h := by
    simp only [ruleStep, RuleBook.add]
    split_ifs
    · exact addRule_of_sameRules h fragments caseSensitive false e
    · exact addRule_of_sameRules h fragments caseSensitive true e
    · exact ⟨rfl, h⟩
  of_fault b e err h := by
    simp only [ruleStep, RuleBook.add] at h ⊢
    split_ifs at h ⊢
    · exact sameRules_of_addRule h
    · exact sameRules_of_addRule h

/-! ## Whole documents -/

/-- The resources of a document. -/
def resourcesOf (caseSensitive : Bool) (es : List Element) : Resources :=
  readBy (resourceStep caseSensitive) .empty es

/-- The faulty resources of a document, each with its fault. -/
def resourceFaults (caseSensitive : Bool) (es : List Element) : List (Element × LoadError) :=
  faultsBy (resourceStep caseSensitive) .empty es

/-- The faulty rules of a document, each with its fault. Any fragment of the document can be used
    in any rule. -/
def ruleFaults [PropertyTable] (caseSensitive : Bool) (es : List Element) :
    List (Element × LoadError) :=
  faultsBy (ruleStep (resourcesOf caseSensitive es).fragments caseSensitive) .empty es

/-- What is wrong with an element of a document that comes after the elements `before`. -/
def faultAfter? [PropertyTable] (caseSensitive : Bool) (es before : List Element) (e : Element) :
    Option LoadError :=
  let rules := ruleStep (resourcesOf caseSensitive es).fragments caseSensitive
  (resourceStep caseSensitive (resourcesOf caseSensitive before) e).2.or
    (rules (readBy rules .empty before) e).2

/-- The faulty elements that are reported before an element of a document. They are those among the
    elements `before` it, and before a rule all faulty resources as well. -/
def faultsBefore [PropertyTable] (caseSensitive : Bool) (es before : List Element) (e : Element) :
    List (Element × LoadError) :=
  if e.declaresRule then
    resourceFaults caseSensitive es ++
      faultsBy (ruleStep (resourcesOf caseSensitive es).fragments caseSensitive) .empty before
  else resourceFaults caseSensitive before

/-- The faulty elements of a document, the resources first. -/
def faults [PropertyTable] (caseSensitive : Bool) (es : List Element) :
    List (Element × LoadError) :=
  resourceFaults caseSensitive es ++ ruleFaults caseSensitive es

theorem load_eq [PropertyTable] (caseSensitive : Bool) (root : Element) :
    load caseSensitive root =
      match faults caseSensitive root.elements with
      | [] => .ok ⟨caseSensitive, resourcesOf caseSensitive root.elements,
          readBy (ruleStep (resourcesOf caseSensitive root.elements).fragments caseSensitive) .empty
            root.elements⟩
      | faults => .error (faults.map Prod.snd) := by
  rw [load, readResources_eq, ← resourcesOf]
  simp only [readRules_eq]
  rw [← resourceFaults, ← ruleFaults, ← List.map_append, ← faults]
  cases faults caseSensitive root.elements with
  | nil => rfl
  | cons f fs => rfl

/-- A document without faults is loaded. -/
theorem exists_load_iff [PropertyTable] {caseSensitive : Bool} {root : Element} :
    (∃ g, load caseSensitive root = .ok g) ↔ faults caseSensitive root.elements = [] := by
  rw [load_eq]
  cases faults caseSensitive root.elements with
  | nil => simp
  | cons f fs => simp

/-- Of any other document the faults are reported. -/
theorem load_eq_error [PropertyTable] {caseSensitive : Bool} {root : Element}
    {errs : List LoadError} :
    load caseSensitive root = .error errs ↔
      errs ≠ [] ∧ errs = (faults caseSensitive root.elements).map Prod.snd := by
  rw [load_eq]
  cases faults caseSensitive root.elements with
  | nil => simp
  | cons f fs =>
    simp only [Except.error.injEq]
    constructor
    · rintro rfl
      exact ⟨List.cons_ne_nil _ _, rfl⟩
    · exact fun h => h.2.symm

/-! ### Elements that do not count -/

theorem ruleStep_of_not_declaresRule [PropertyTable] {e : Element} (he : e.declaresRule = false)
    (fragments : Fragments) (caseSensitive : Bool) (b : RuleBook) :
    ruleStep fragments caseSensitive b e = (b, none) :=
  RuleBook.add_of_not_declaresRule he

/-- How resources and rules are interleaved does not matter, nor what else stands in a document. -/
theorem load_congr [PropertyTable] (caseSensitive : Bool) {root root' : Element}
    (hresources : root'.elements.filter (fun e => e.declaresResource || e.givesHint) =
      root.elements.filter fun e => e.declaresResource || e.givesHint)
    (hrules : root'.elements.filter (·.declaresRule) = root.elements.filter (·.declaresRule)) :
    load caseSensitive root' = load caseSensitive root := by
  have hres : resourcesOf caseSensitive root'.elements = resourcesOf caseSensitive root.elements ∧
      resourceFaults caseSensitive root'.elements =
        resourceFaults caseSensitive root.elements := by
    have hskip := fun r e he => resourceStep_of_not_declares (e := e) he caseSensitive r
    constructor
    · rw [resourcesOf, ← readBy_filter hskip, hresources, readBy_filter hskip, resourcesOf]
    · rw [resourceFaults, ← faultsBy_filter hskip, hresources, faultsBy_filter hskip,
        resourceFaults]
  have hskip := fun b e he => ruleStep_of_not_declaresRule (e := e) he
    (resourcesOf caseSensitive root.elements).fragments caseSensitive b
  have hfaults : ruleFaults caseSensitive root'.elements =
      ruleFaults caseSensitive root.elements := by
    rw [ruleFaults, hres.1, ← faultsBy_filter hskip, hrules, faultsBy_filter hskip, ruleFaults]
  rw [load_eq, load_eq, faults, hres.1, hres.2, hfaults, ← faults,
    ← readBy_filter hskip .empty root'.elements, hrules, readBy_filter hskip]

/-! ### Elements with a fault -/

theorem declaresRule_of_declaresResource {e : Element} (h : e.declaresResource = true) :
    e.declaresRule = false := by
  rw [Element.declaresResource, Bool.or_eq_true, beq_iff_eq, beq_iff_eq] at h
  rw [Element.declaresRule, Element.declares, Element.declares]
  rcases h with h | h <;> rw [h] <;> decide

/-- Taking a faulty resource out of a document takes out its fault. -/
theorem faults_of_resourceFault [PropertyTable] {caseSensitive : Bool}
    {before after : List Element} {e : Element} {err : LoadError}
    (h : (resourceStep caseSensitive (resourcesOf caseSensitive before) e).2 = some err) :
    ∃ q, faults caseSensitive (before ++ e :: after) =
        resourceFaults caseSensitive before ++ (e, err) :: q ∧
      faults caseSensitive (before ++ after) = resourceFaults caseSensitive before ++ q := by
  have hres : resourcesOf caseSensitive (before ++ e :: after) =
      resourcesOf caseSensitive (before ++ after) := by
    have hleft := (judgesAlike_resourceStep caseSensitive).of_fault _ _ _ h
    rw [resourcesOf, resourcesOf, readBy_append, readBy_append]
    show readBy _ (resourceStep caseSensitive (resourcesOf caseSensitive before) e).1 after = _
    rw [hleft]
    rfl
  have hnot : e.declaresRule = false :=
    declaresRule_of_declaresResource (declaresResource_of_fault h)
  have hrules : ruleFaults caseSensitive (before ++ e :: after) =
      ruleFaults caseSensitive (before ++ after) := by
    rw [ruleFaults, hres, faultsBy_append_cons_of_none
      (ruleStep_of_not_declaresRule hnot _ caseSensitive), ruleFaults]
  -- The resources are the same without it, so the rules are judged as they were.
  obtain ⟨q, hold, hnew⟩ := faultsBy_append_cons (judgesAlike_resourceStep caseSensitive) h after
  refine ⟨q ++ ruleFaults caseSensitive (before ++ after), ?_, ?_⟩
  · rw [faults, hrules, resourceFaults, hold, List.append_assoc, List.cons_append, resourceFaults]
  · rw [faults, resourceFaults, hnew, List.append_assoc, resourceFaults]

/-- Taking a faulty rule out of a document takes out its fault. -/
theorem faults_of_ruleFault [PropertyTable] {caseSensitive : Bool} {before after : List Element}
    {e : Element} {err : LoadError} {fragments : Fragments}
    (hfragments : (resourcesOf caseSensitive (before ++ e :: after)).fragments = fragments)
    (h : (ruleStep fragments caseSensitive
      (readBy (ruleStep fragments caseSensitive) .empty before) e).2 = some err) :
    ∃ q, faults caseSensitive (before ++ e :: after) =
        (resourceFaults caseSensitive (before ++ e :: after) ++
          faultsBy (ruleStep fragments caseSensitive) .empty before) ++ (e, err) :: q ∧
      faults caseSensitive (before ++ after) =
        (resourceFaults caseSensitive (before ++ e :: after) ++
          faultsBy (ruleStep fragments caseSensitive) .empty before) ++ q := by
  have hrule : e.declaresRule = true := declaresRule_of_fault h
  have hskip (r : Resources) : resourceStep caseSensitive r e = (r, none) := by
    rw [resourceStep, add_eq_of_declaresRule hrule]
  have hres : resourcesOf caseSensitive (before ++ e :: after) =
      resourcesOf caseSensitive (before ++ after) := readBy_append_cons hskip _ before after
  have hfaults : resourceFaults caseSensitive (before ++ e :: after) =
      resourceFaults caseSensitive (before ++ after) :=
    faultsBy_append_cons_of_none hskip _ before after
  obtain ⟨q, hold, hnew⟩ :=
    faultsBy_append_cons (judgesAlike_ruleStep fragments caseSensitive) h after
  refine ⟨q, ?_, ?_⟩
  · rw [faults, ruleFaults, hfragments, hold, List.append_assoc]
  · rw [faults, hfaults, ruleFaults, ← hres, hfragments, hnew, List.append_assoc]

/-- Taking a faulty element out of a document takes out its fault and no other one. -/
theorem faults_of_faultAfter? [PropertyTable] {caseSensitive : Bool} {before after : List Element}
    {e : Element} {err : LoadError}
    (h : faultAfter? caseSensitive (before ++ e :: after) before e = some err) :
    ∃ q, faults caseSensitive (before ++ e :: after) =
        faultsBefore caseSensitive (before ++ e :: after) before e ++ (e, err) :: q ∧
      faults caseSensitive (before ++ after) =
        faultsBefore caseSensitive (before ++ e :: after) before e ++ q := by
  rw [faultAfter?, Option.or_eq_some_iff] at h
  -- The element is faulty as a resource or as a rule, never as both.
  rcases h with h | ⟨-, h⟩
  · have hnot : e.declaresRule = false :=
      declaresRule_of_declaresResource (declaresResource_of_fault h)
    simp only [faultsBefore, hnot]
    exact faults_of_resourceFault h
  · have hrule : e.declaresRule = true := declaresRule_of_fault h
    simp only [faultsBefore, hrule, if_true]
    exact faults_of_ruleFault rfl h

/-- A reported element stands at a place of the document where it has its fault. -/
theorem exists_of_mem_faults [PropertyTable] {caseSensitive : Bool} {es : List Element}
    {x : Element × LoadError} (h : x ∈ faults caseSensitive es) :
    ∃ before after, es = before ++ x.1 :: after ∧
      faultAfter? caseSensitive es before x.1 = some x.2 := by
  rcases List.mem_append.mp h with h | h
  · obtain ⟨before, after, hes, herr⟩ := exists_of_mem_faultsBy h
    exact ⟨before, after, hes, Option.or_eq_some_iff.mpr (.inl herr)⟩
  · obtain ⟨before, after, hes, herr⟩ := exists_of_mem_faultsBy h
    -- An element that declares a rule has no fault as a resource.
    have hresource :
        (resourceStep caseSensitive (resourcesOf caseSensitive before) x.1).2 = none := by
      rw [resourceStep, add_eq_of_declaresRule (declaresRule_of_fault herr)]
    exact ⟨before, after, hes, Option.or_eq_some_iff.mpr (.inr ⟨hresource, herr⟩)⟩

/-- Every fault is reported, those of the resources in document order and then those of the rules in
    document order, and there is a grammar if there is no fault. The same elements of either sort in
    the same order have the same faults, or make the same grammar. Without one of its faulty
    elements a document has its other faults, those reported before it and those reported after it,
    or it is loaded if there are no others. -/
theorem load_faults [PropertyTable] (caseSensitive : Bool) (root : Element) :
    ((∃ g, load caseSensitive root = .ok g) ↔ faults caseSensitive root.elements = []) ∧
    (∀ errs, load caseSensitive root = .error errs ↔
      errs ≠ [] ∧ errs = (faults caseSensitive root.elements).map Prod.snd) ∧
    (faults caseSensitive root.elements =
        resourceFaults caseSensitive root.elements ++ ruleFaults caseSensitive root.elements ∧
      (∀ x ∈ faults caseSensitive root.elements, ∃ before after,
        root.elements = before ++ x.1 :: after ∧
          faultAfter? caseSensitive root.elements before x.1 = some x.2) ∧
      ((resourceFaults caseSensitive root.elements).map Prod.fst).Sublist
        (root.elements.filter (·.declaresResource)) ∧
      ((ruleFaults caseSensitive root.elements).map Prod.fst).Sublist
        (root.elements.filter (·.declaresRule))) ∧
    (∀ root' : Element,
      root'.elements.filter (fun e => e.declaresResource || e.givesHint) =
        root.elements.filter (fun e => e.declaresResource || e.givesHint) →
      root'.elements.filter (·.declaresRule) = root.elements.filter (·.declaresRule) →
      load caseSensitive root' = load caseSensitive root) ∧
    ∀ (root' : Element) (before : List Element) (e : Element) (after : List Element)
      (err : LoadError), root.elements = before ++ e :: after →
      faultAfter? caseSensitive root.elements before e = some err →
      root'.elements = before ++ after →
      ∃ p q, p = faultsBefore caseSensitive root.elements before e ∧
        faults caseSensitive root.elements = p ++ (e, err) :: q ∧
        faults caseSensitive root'.elements = p ++ q ∧
        load caseSensitive root = .error (p.map Prod.snd ++ err :: q.map Prod.snd) ∧
        (p ++ q ≠ [] →
          load caseSensitive root' = .error (p.map Prod.snd ++ q.map Prod.snd)) ∧
        (p ++ q = [] → ∃ g, load caseSensitive root' = .ok g) := by
  refine ⟨exists_load_iff, fun _ => load_eq_error, ⟨rfl, fun _ => exists_of_mem_faults, ?_, ?_⟩,
    fun _ => load_congr _, ?_⟩
  · refine faultsBy_sublist (fun r e err h => ?_) _ _
    exact declaresResource_of_fault h
  · refine faultsBy_sublist (fun b e err h => ?_) _ _
    exact declaresRule_of_fault h
  · intro root' before e after err hroot herr hroot'
    rw [hroot] at herr ⊢
    rw [hroot']
    obtain ⟨q, hold, hnew⟩ := faults_of_faultAfter? herr
    refine ⟨_, q, rfl, hold, hnew, ?_, fun hne => ?_, fun hnil => ?_⟩
    · exact load_eq_error.mpr ⟨by simp, by rw [hroot, hold, List.map_append, List.map_cons]⟩
    · rw [← List.map_append, ← hnew, ← hroot']
      exact load_eq_error.mpr ⟨by simpa [hroot', hnew] using hne, rfl⟩
    · exact exists_load_iff.mpr (by rw [hroot', hnew, hnil])

/-! ### A sample -/

/-- A rule that refers to the fragment `digit` before that is declared, the fragment twice, and the
    rule once more with another script. -/
def doubled (others : List Node) : Element :=
  let fragment : Node :=
    .element "regex" (.ofList [("id", "digit"), ("expression", "[0-9]")]) []
  let rule (script : Text) : Node := dateRule "rule" "day" "7"
    [.element "ruleref" (.ofList [("uri", "#digit")]) [.element "tag" .empty [.text script]]]
  ⟨"grammar", .empty, [rule "timex[d] = value", fragment] ++ others ++ [rule "timex[e] = value"]⟩

/-- The second fragment and the second rule have their ids twice. Without the second fragment the
    fault of the second rule is left, although that rule has put its script in the place of the
    first one's. -/
theorem load_faults_doubled : ∃ again : Node,
    load true (doubled [again]) = .error [.duplicateId "regex" "digit", .duplicateId "rule" "day"] ∧
    load true (doubled []) = .error [.duplicateId "rule" "day"] := by
  let again : Node := .element "regex" (.ofList [("id", "digit"), ("expression", "x")]) []
  obtain ⟨-, herror, -, -, hremove⟩ := load_faults true (doubled [again])
  have hfaults : (faults true (doubled [again]).elements).map Prod.snd =
      [.duplicateId "regex" "digit", .duplicateId "rule" "day"] := by
    decide +kernel
  have hload := (herror _).mpr ⟨by simp, hfaults.symm⟩
  obtain ⟨p, q, hp, -, -, hold, hnew, -⟩ := hremove (doubled [])
    ((doubled [again]).elements.take 2)
    ⟨"regex", .ofList [("id", "digit"), ("expression", "x")], []⟩ ((doubled []).elements.drop 2)
    (.duplicateId "regex" "digit") rfl (by decide +kernel) rfl
  refine ⟨again, hload, ?_⟩
  -- Nothing is reported before the second fragment.
  obtain rfl : p = [] := hp.trans (by decide +kernel)
  have hq : q.map Prod.snd = [.duplicateId "rule" "day"] :=
    (List.cons.inj (Except.error.inj (hload.symm.trans hold))).2.symm
  rw [← hq]
  exact hnew fun hnil => by simp [(List.append_eq_nil_iff.mp hnil).2] at hq

end Grammar

end TimePhrase
