import TimePhrase.Proofs.Rule.Expression
import TimePhrase.Proofs.Rule.Reading
import TimePhrase.Proofs.Rule.Scripts

/-!
# The language of a rule

The content of a rule describes a language without any talk of patterns: words with blanks between
them, items as sequences, choices as unions, and repetitions as powers. The anchored pattern of the
rule matches the texts of that language and no others.

* `Node.language?`  the language of a node
* `says_ofNodes`  what is written for nodes means their languages
* `isIn_exactPattern_iff`  the texts that a rule matches as a whole
-/

namespace TimePhrase

open Pattern (joined gap blankRun)

/-! ## Languages of nodes -/

/-- The language of a run of text: its words with blanks between them. A blank run has none. -/
def Text.language? (s : Text) : Option (Language Char) :=
  match s.words with
  | [] => none
  | ws => some (joined blankRun (ws.map fun w => {w}))

namespace Element

/-- Whether an item contributes even if it has no content. -/
def isMarked (e : Element) : Bool :=
  e.elements.any (fun c => c.name == ("tag" : Text)) || (e.attribute? "repeat").isSome ||
    ((e.attribute? "include").bind fun v => v.trim.toBool?) == some false ||
    (e.filledAttribute? "pos").isSome

/-- The language of an element from that of its body: its powers, if the element is repeated. -/
def repeated (e : Element) (l : Language Char) : Language Char :=
  Repeat.powersOf ((e.attribute? "repeat").bind Repeat.ofText?) l

theorem repeated_of_not_isMarked {e : Element} (h : e.isMarked = false) (l : Language Char) :
    e.repeated l = l := by
  simp only [isMarked, Bool.or_eq_false_iff, Option.isSome_eq_false_iff,
    Option.isNone_iff_eq_none] at h
  rw [repeated, h.1.1.2]
  rfl

end Element

namespace Node

mutual

/-- The language of what a node contributes, if it does. References to fragments are left out. -/
def language? : Node → Option (Language Char)
  | .text content => content.language?
  | .element name attributes children =>
    let e : Element := ⟨name, attributes, children⟩
    if name = "item" then
      if (languagesOf children).isEmpty ∧ !e.isMarked then none
      else some (e.repeated (joined gap (languagesOf children)))
    else if name = "one-of" then some (e.repeated (languagesOf children).sum)
    else none

/-- The languages of what the nodes of a list contribute. -/
def languagesOf : List Node → List (Language Char)
  | [] => []
  | n :: r => n.language?.toList ++ languagesOf r

end

mutual

/-- Whether a reference to a fragment stands at or below a node. -/
def hasReference : Node → Bool
  | .text _ => false
  | .element name _ children => name == ("ruleref" : Text) || anyReference children

/-- Whether a reference to a fragment stands at or below one of several nodes. -/
def anyReference : List Node → Bool
  | [] => false
  | n :: r => n.hasReference || anyReference r

end

end Node

/-- The language of what stands in an element: what its children contribute, one after the other. -/
def Element.language (e : Element) : Language Char := joined gap (Node.languagesOf e.children)

/-! ## Marks -/

namespace Mark

variable {ruleId : Text} {e : Element} {m : Mark}

theorem of_rangeOf? {range : Option Repeat} (h : rangeOf? ruleId e = .ok range) :
    range = (e.attribute? "repeat").bind Repeat.ofText? ∧
      range.isNone = (e.attribute? "repeat").isNone := by
  unfold rangeOf? at h
  split at h
  · rename_i hnone
    obtain rfl := Except.ok.inj h
    rw [hnone]
    exact ⟨rfl, rfl⟩
  · rename_i value hvalue
    split at h
    · rename_i range' hrange
      obtain rfl := Except.ok.inj h
      rw [hvalue]
      exact ⟨hrange.symm, rfl⟩
    · exact nomatch h

theorem of_excludedOf? {excluded : Bool} (h : excludedOf? ruleId e = .ok excluded) :
    excluded = (((e.attribute? "include").bind fun v => v.trim.toBool?) == some false) := by
  unfold excludedOf? Element.flag? at h
  cases hvalue : e.attribute? "include" with
  | none =>
    simp only [hvalue, Option.map_none] at h
    exact (Except.ok.inj h).symm
  | some value =>
    simp only [hvalue, Option.map_some] at h
    cases hflag : value.trim.toBool? with
    | none =>
      simp only [hflag] at h
      exact nomatch h
    | some flag =>
      simp only [hflag] at h
      simpa [hflag] using (Except.ok.inj h).symm

theorem of_tagOf? {tag : Option Text} (h : tagOf? ruleId e = .ok tag) :
    tag.isNone = !e.elements.any (fun c => c.name == ("tag" : Text)) := by
  unfold tagOf? at h
  split at h
  · rename_i hnone
    obtain rfl := Except.ok.inj h
    simpa using hnone
  · rename_i t htag
    obtain rfl := Except.ok.inj h
    have hmem : t ∈ e.elements.filter fun c => c.name == ("tag" : Text) := by
      rw [htag]
      exact List.mem_singleton_self t
    simp only [Option.isNone_some, Bool.false_eq, Bool.not_eq_false', List.any_eq_true]
    exact ⟨t, List.mem_filter.mp hmem⟩
  · exact nomatch h

/-- A mark says what the element does. -/
theorem of_ofElement? (h : ofElement? ruleId e = .ok m) :
    m.range = (e.attribute? "repeat").bind Repeat.ofText? ∧ m.isPlain = !e.isMarked := by
  obtain ⟨range, hrange, h⟩ := Except.bind_eq_ok.mp h
  obtain ⟨excluded, hexcluded, h⟩ := Except.bind_eq_ok.mp h
  obtain ⟨tag, htag, h⟩ := Except.bind_eq_ok.mp h
  obtain rfl := Except.pure_eq_ok.mp h
  obtain ⟨hrange, hnone⟩ := of_rangeOf? hrange
  refine ⟨hrange, ?_⟩
  simp only [isPlain, hnone, of_excludedOf? hexcluded, of_tagOf? htag, Element.isMarked]
  simp only [Bool.not_or, Option.not_isSome]
  ac_rfl

end Mark

/-! ## From nodes to phrases -/

namespace Phrase

variable {ruleId : Text} {fragments : Fragments} {p : Phrase} {ps : List Phrase}
  {l : Language Char}

theorem says_ofText? [PropertyTable] (s : Text) :
    List.Forall₂ Says (ofText? s).toList s.language?.toList := by
  unfold ofText? Text.language?
  cases s.words with
  | nil => exact .nil
  | cons w ws => exact .cons (says_words (w :: ws)) .nil

/-- An element contributes its body, as a group if it is marked. -/
theorem says_contributed [PropertyTable] {e : Element} {m : Mark} (next : Nat)
    (hmark : Mark.ofElement? ruleId e = .ok m) (h : p.Says l)
    (hne : p ≠ .sequence [] ∨ e.isMarked = true) :
    List.Forall₂ Says (contributed next m p).toList [e.repeated l] := by
  obtain ⟨hrange, hplain⟩ := Mark.of_ofElement? hmark
  unfold contributed
  cases hmarked : e.isMarked with
  | true =>
    rw [hplain, hmarked, Element.repeated, ← hrange]
    exact .cons (says_group next m h) .nil
  | false =>
    rw [hmarked] at hne
    rw [hplain, hmarked, Element.repeated_of_not_isMarked hmarked]
    simp only [Bool.not_false, if_true]
    split
    · simp at hne
    · exact .cons h .nil

/-- An item without content contributes nothing, unless it is marked. -/
theorem says_item [PropertyTable] {name : Text} {attributes : Dictionary} {children : List Node}
    {m : Mark} (next : Nat) (hmark : Mark.ofElement? ruleId ⟨name, attributes, children⟩ = .ok m)
    (hname : name = ("item" : Text)) (h : List.Forall₂ Says ps (Node.languagesOf children)) :
    List.Forall₂ Says (contributed next m (.sequence ps)).toList
      (Node.element name attributes children).language?.toList := by
  subst hname
  simp only [Node.language?, if_true]
  split
  · -- Without content or mark, neither side contributes.
    rename_i hempty
    obtain ⟨hnil, hmarked⟩ := hempty
    rw [List.isEmpty_iff.mp hnil, List.forall₂_nil_right_iff] at h
    rw [h, contributed, (Mark.of_ofElement? hmark).2, if_pos hmarked]
    exact .nil
  · rename_i hcontent
    refine says_contributed next hmark (says_sequence h) ?_
    by_cases hnil : ps = []
    · rw [hnil, List.forall₂_nil_left_iff] at h
      rw [h] at hcontent
      exact .inr (by simpa using hcontent)
    · exact .inl (by simpa using hnil)

theorem says_oneOf [PropertyTable] {name : Text} {attributes : Dictionary} {children : List Node}
    {m : Mark} (next : Nat) (hmark : Mark.ofElement? ruleId ⟨name, attributes, children⟩ = .ok m)
    (hname : name = ("one-of" : Text)) (hne : ps ≠ [])
    (h : List.Forall₂ Says ps (Node.languagesOf children)) :
    List.Forall₂ Says (contributed next m (.choice ps)).toList
      (Node.element name attributes children).language?.toList := by
  have hitem : ("one-of" : Text) ≠ ("item" : Text) := by decide
  subst hname
  simp only [Node.language?, if_neg hitem, if_true]
  exact says_contributed next hmark (says_choice h hne) (.inl nofun)

mutual

/-- What is written for a node means the language of the node. -/
theorem says_ofNode [PropertyTable] {n : Node} {next after : Nat} {p : Option Phrase}
    (h : ofNode ruleId fragments n next = .ok (p, after)) (href : n.hasReference = false) :
    List.Forall₂ Says p.toList n.language?.toList := by
  match n with
  | .text content =>
    obtain ⟨rfl, rfl⟩ := Prod.mk.inj (Except.ok.inj h)
    exact says_ofText? content
  | .element name attributes children =>
    simp only [Node.hasReference, Bool.or_eq_false_iff] at href
    rcases exists_of_ofNode h with ⟨hother, rfl, rfl⟩ | ⟨-, mark, body, hmark, hbody, rfl⟩
    · -- Tags and unknown elements are passed over.
      have hnone : (Node.element name attributes children).language? = none := by
        simp only [isStructural, decide_eq_false_iff_not, not_or] at hother
        simp only [Node.language?, if_neg hother.1, if_neg hother.2.1]
      rw [hnone]
      exact .nil
    · cases hbody with
      | reference hname _ => exact absurd hname (by simpa using href.1)
      | item hname hmembers => exact says_item next hmark hname (says_ofNodes hmembers href.2)
      | oneOf hname hne hmembers =>
        exact says_oneOf next hmark hname hne (says_ofNodes hmembers href.2)

theorem says_ofNodes [PropertyTable] {ns : List Node} {next after : Nat} {ps : List Phrase}
    (h : ofNodes ruleId fragments ns next = .ok (ps, after)) (href : Node.anyReference ns = false) :
    List.Forall₂ Says ps (Node.languagesOf ns) := by
  match ns with
  | [] =>
    obtain ⟨rfl, rfl⟩ := Prod.mk.inj (Except.ok.inj h)
    exact .nil
  | n :: r =>
    obtain ⟨p, mid, qs, hp, hqs, rfl⟩ := exists_of_ofNodes_cons h
    simp only [Node.anyReference, Bool.or_eq_false_iff] at href
    exact List.rel_append (says_ofNode hp href.1) (says_ofNodes hqs href.2)

end

end Phrase

/-! ## Rules -/

namespace Rule

/-- The anchored pattern of a rule matches the texts of the language of its element, and no others,
    if the case of letters counts and no fragment is referred to. -/
theorem isIn_exactPattern_iff [PropertyTable] {fragments : Fragments}
    {scripts scripts' : Registry} {e : Element} {r : Rule}
    (h : compile fragments true scripts e = (scripts', .ok r))
    (href : Node.anyReference e.children = false) (text : Text) :
    r.exactPattern.isIn text = true ↔ text ∈ e.language := by
  have hfrom := isReadFrom_of_ofElement? (compile_eq_ok.mp h).1
  obtain ⟨members, after, hmembers, -, hphrase⟩ := Phrase.exists_of_ofChildren hfrom.phrase
  -- What is written means the language, so the anchored pattern is found in its words only.
  have hmeans : r.phrase.Says e.language := by
    rw [hphrase]
    exact Phrase.says_sequence (Phrase.says_ofNodes hmembers href)
  exact Pattern.isIn_iff_of_read? (Pattern.readsBody_of_reads hmeans) hfrom.exactPattern text

/-- A rule with a choice of words, some of which hold signs, and a number that can come twice. -/
def weeksRule : Element :=
  ⟨"rule", .ofList [("id", "weeks"), ("type", "duration"), ("example", "in (about) 2 weeks")],
    [.element "one-of" .empty
      [.element "item" .empty [.text "next"], .element "item" .empty [.text "in  (about)"]],
    .element "item" (.ofList [("repeat", "1-2")])
      [.text "2", .element "tag" .empty [.text "timex[\"weeks\"] = Sum(value, \"0\");"]],
    .text "weeks"]⟩

/-- The number comes twice in a text of the language, but not three times. -/
theorem isIn_exactPattern_iff_weeksRule : ∃ scripts r,
    compile [] true .empty weeksRule = (scripts, .ok r) ∧
    Node.anyReference weeksRule.children = false ∧
    (∀ text, r.exactPattern.isIn text = true ↔ text ∈ weeksRule.language) ∧
    ("in\t(about)22  weeks" : Text) ∈ weeksRule.language ∧
    ("next 222 weeks" : Text) ∉ weeksRule.language := by
  have hrun : (compile [] true .empty weeksRule).2.toOption.map (fun r =>
      (r.exactPattern.isIn "in\t(about)22  weeks", r.exactPattern.isIn "next 222 weeks")) =
      some (true, false) := by
    decide +kernel
  obtain ⟨r, hr, htried⟩ := Option.map_eq_some_iff.mp hrun
  obtain ⟨htwice, hthrice⟩ := Prod.mk.inj htried
  have hcompile : compile [] true .empty weeksRule =
      ((compile [] true .empty weeksRule).1, .ok r) := by
    rw [← Except.eq_ok_of_toOption hr]
  have href : Node.anyReference weeksRule.children = false := by decide
  have hiff := isIn_exactPattern_iff hcompile href
  refine ⟨_, r, hcompile, href, hiff, (hiff _).mp htwice, ?_⟩
  rw [← hiff, hthrice]
  exact Bool.false_ne_true

end Rule

end TimePhrase
