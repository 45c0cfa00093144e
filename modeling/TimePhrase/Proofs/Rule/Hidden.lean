import TimePhrase.Proofs.Rule.Language
import TimePhrase.Proofs.Rule.Placement
import TimePhrase.Proofs.Rule.Yield

/-!
# Rules that are left out of their values

Where all words and references of a rule stand in nodes that are left out of values, nothing of a
match is left but blanks, as long as each of these nodes is matched once. A group keeps only what it
captured last, so if a node around it comes several times in a row, only the last one is removed.

* `Node.isHidden`, `Node.repeatsHidden`  nodes of which nothing should be seen, and repeated ones
* `allHide_of_ofNodes`  hidden nodes become phrases that hide what they match
* `isBlank_value`  the values of a rule that is hidden and does not repeat what is left out
* `exists_value_not_isBlank`  of two iterations, the first one is seen
-/

namespace TimePhrase

/-! ## Hidden nodes -/

namespace Element

/-- Whether the text of an element is to be left out of values. -/
def isLeftOut (e : Element) : Bool :=
  ((e.attribute? "include").bind fun v => v.trim.toBool?) == some false

/-- Whether an element can come more than once in a row. -/
def isRepeated (e : Element) : Bool :=
  ((e.attribute? "repeat").bind Repeat.ofText?).any Repeat.isOpen

end Element

namespace Node

mutual

/-- Whether all words and references of a node stand at or below elements that are left out. -/
def isHidden : Node → Bool
  | .text content => content.isBlank
  | .element name attributes children =>
    !Phrase.isStructural name || Element.isLeftOut ⟨name, attributes, children⟩ ||
      (name != ("ruleref" : Text) && allHidden children)

/-- Whether this is so for all nodes of a list. -/
def allHidden : List Node → Bool
  | [] => true
  | n :: r => n.isHidden && allHidden r

end

mutual

/-- Whether an element that is left out stands at or below a node. -/
def leavesOut : Node → Bool
  | .text _ => false
  | .element name attributes children =>
    Phrase.isStructural name && (Element.isLeftOut ⟨name, attributes, children⟩ ||
      (name != ("ruleref" : Text) && anyLeavesOut children))

/-- Whether an element that is left out stands at or below one of several nodes. -/
def anyLeavesOut : List Node → Bool
  | [] => false
  | n :: r => n.leavesOut || anyLeavesOut r

end

mutual

/-- Whether an element that is left out can come more than once in a row because an element around
    it can. What stands below one that is left out does not count. -/
def repeatsHidden : Node → Bool
  | .text _ => false
  | .element name attributes children =>
    let e : Element := ⟨name, attributes, children⟩
    Phrase.isStructural name && !e.isLeftOut && name != ("ruleref" : Text) &&
      ((e.isRepeated && anyLeavesOut children) || anyRepeatsHidden children)

/-- Whether this is so for one of several nodes. -/
def anyRepeatsHidden : List Node → Bool
  | [] => false
  | n :: r => n.repeatsHidden || anyRepeatsHidden r

end

end Node

/-! ## From nodes to phrases -/

theorem Text.words_eq_nil {s : Text} (h : s.isBlank = true) : s.words = [] := by
  induction s with
  | nil => rfl
  | cons c r ih =>
    simp only [Text.isBlank, List.all_cons, Bool.and_eq_true] at h
    unfold Text.words
    rw [if_pos h.1]
    exact ih h.2

namespace Mark

theorem excluded_of_ofElement? {ruleId : Text} {e : Element} {m : Mark}
    (h : ofElement? ruleId e = .ok m) : m.excluded = e.isLeftOut := by
  obtain ⟨range, -, h⟩ := Except.bind_eq_ok.mp h
  obtain ⟨excluded, hexcluded, h⟩ := Except.bind_eq_ok.mp h
  obtain ⟨tag, -, h⟩ := Except.bind_eq_ok.mp h
  obtain rfl := Except.pure_eq_ok.mp h
  exact of_excludedOf? hexcluded

theorem excluded_of_isPlain {m : Mark} (h : m.isPlain = true) : m.excluded = false := by
  simp only [isPlain, Bool.and_eq_true, Bool.not_eq_true'] at h
  exact h.1.1.2

end Mark

namespace Phrase

variable {ruleId : Text} {fragments : Fragments} {body : Phrase} {m : Mark} {next : Nat}

theorem allHide_append (ps qs : List Phrase) : allHide (ps ++ qs) = (allHide ps && allHide qs) := by
  induction ps with
  | nil => rfl
  | cons p r ih => rw [List.cons_append, allHide, ih, allHide, Bool.and_assoc]

theorem excludedOf_append (ps qs : List Phrase) :
    excludedOf (ps ++ qs) = excludedOf ps ++ excludedOf qs := List.flatMap_append

theorem excludedOf_contributed (h : m.excluded = false) :
    excludedOf (contributed next m body).toList = body.excluded := by
  unfold contributed
  split
  · split
    · rfl
    · exact List.flatMap_singleton ..
  · rw [Option.toList_some, excludedOf, List.flatMap_singleton, excluded_group, h]
    exact List.append_nil _

/-- The body of an element that is no reference consists of what its children contribute. -/
theorem HasBody.exists_members {e : Element} {first after : Nat}
    (h : HasBody ruleId fragments e first body after)
    (hname : (e.name != ("ruleref" : Text)) = true) :
    ∃ members, ofNodes ruleId fragments e.children first = .ok (members, after) ∧
      (body = .sequence members ∨ body = .choice members) := by
  cases h with
  | reference href _ =>
    rw [href] at hname
    exact absurd hname (by decide)
  | item _ hmembers => exact ⟨_, hmembers, .inl rfl⟩
  | oneOf _ _ hmembers => exact ⟨_, hmembers, .inr rfl⟩

theorem excluded_of_members {members : List Phrase}
    (h : body = .sequence members ∨ body = .choice members) :
    body.excluded = excludedOf members := by
  rcases h with rfl | rfl
  · exact excluded_sequence members
  · exact excluded_choice members

/-- An element contributes a phrase that hides what it matches if the element is left out, or if the
    body hides what it matches and does not have to be kept from being repeated. -/
theorem allHide_contributed (h : m.excluded = true ∨
    body.hides = true ∧ (body.excluded = [] ∨ m.range.any Repeat.isOpen = false)) :
    allHide (contributed next m body).toList = true := by
  unfold contributed
  split
  · rename_i hplain
    have hbody := (h.resolve_left (by simp [Mark.excluded_of_isPlain hplain])).1
    split
    · rfl
    · rw [Option.toList_some, allHide, hbody]
      rfl
  · rw [Option.toList_some, allHide, hides]
    rcases h with h | ⟨hbody, hnone | honce⟩
    · rw [h]
      rfl
    · rw [hbody, hnone]
      simp [allHide]
    · rw [hbody, honce]
      simp [allHide]

mutual

/-- Where no element is left out, no group is excluded. -/
theorem excludedOf_of_ofNode {n : Node} {next after : Nat} {p : Option Phrase}
    (h : ofNode ruleId fragments n next = .ok (p, after)) (hnone : n.leavesOut = false) :
    excludedOf p.toList = [] := by
  match n with
  | .text content =>
    obtain ⟨rfl, rfl⟩ := Prod.mk.inj (Except.ok.inj h)
    unfold ofText?
    split <;> rfl
  | .element name attributes children =>
    rcases exists_of_ofNode h with ⟨-, rfl, -⟩ | ⟨hs, m, body, hmark, hbody, rfl⟩
    · rfl
    · simp only [Node.leavesOut, hs, Bool.true_and, Bool.or_eq_false_iff] at hnone
      rw [excludedOf_contributed ((Mark.excluded_of_ofElement? hmark).trans hnone.1)]
      have hbelow (hname : (name != ("ruleref" : Text)) = true) :
          Node.anyLeavesOut children = false := by
        rw [← hnone.2, hname, Bool.true_and]
      cases hbody with
      | reference _ href =>
        rw [excluded, groups_of_ofReference href]
        rfl
      | item hname hmembers =>
        obtain rfl : name = _ := hname
        rw [excluded_sequence]
        exact excludedOf_of_ofNodes hmembers (hbelow (by decide))
      | oneOf hname _ hmembers =>
        obtain rfl : name = _ := hname
        rw [excluded_choice]
        exact excludedOf_of_ofNodes hmembers (hbelow (by decide))

theorem excludedOf_of_ofNodes {ns : List Node} {next after : Nat} {ps : List Phrase}
    (h : ofNodes ruleId fragments ns next = .ok (ps, after))
    (hnone : Node.anyLeavesOut ns = false) : excludedOf ps = [] := by
  match ns with
  | [] =>
    obtain ⟨rfl, rfl⟩ := Prod.mk.inj (Except.ok.inj h)
    rfl
  | n :: r =>
    obtain ⟨p, mid, qs, hp, hqs, rfl⟩ := exists_of_ofNodes_cons h
    simp only [Node.anyLeavesOut, Bool.or_eq_false_iff] at hnone
    rw [excludedOf_append, excludedOf_of_ofNode hp hnone.1, excludedOf_of_ofNodes hqs hnone.2]
    rfl

end

mutual

/-- A hidden node that does not repeat what is left out becomes a phrase that hides what it
    matches. -/
theorem allHide_of_ofNode {n : Node} {next after : Nat} {p : Option Phrase}
    (h : ofNode ruleId fragments n next = .ok (p, after)) (hhidden : n.isHidden = true)
    (honce : n.repeatsHidden = false) : allHide p.toList = true := by
  match n with
  | .text content =>
    obtain ⟨rfl, rfl⟩ := Prod.mk.inj (Except.ok.inj h)
    have hwords : content.words = [] := Text.words_eq_nil hhidden
    rw [ofText?, hwords]
    rfl
  | .element name attributes children =>
    rcases exists_of_ofNode h with ⟨-, rfl, -⟩ | ⟨hs, m, body, hmark, hbody, rfl⟩
    · rfl
    · have hexcluded := Mark.excluded_of_ofElement? hmark
      by_cases hleft : Element.isLeftOut ⟨name, attributes, children⟩ = true
      · exact allHide_contributed (.inl (hexcluded.trans hleft))
      · simp only [Node.isHidden, hs, hleft, Bool.not_true, Bool.false_or, Bool.and_eq_true]
          at hhidden
        obtain ⟨hname, hchildren⟩ := hhidden
        simp only [Node.repeatsHidden, hs, hleft, hname, Bool.not_false, Bool.true_and,
          Bool.or_eq_false_iff, Bool.and_eq_false_iff] at honce
        obtain ⟨members, hmembers, hbody⟩ := hbody.exists_members hname
        have hhide := allHide_of_ofNodes hmembers hchildren honce.2
        refine allHide_contributed (.inr ⟨?_, ?_⟩)
        · rcases hbody with rfl | rfl <;> exact hhide
        · rw [excluded_of_members hbody, (Mark.of_ofElement? hmark).1]
          rcases honce.1 with honce | hnone
          · exact .inr honce
          · exact .inl (excludedOf_of_ofNodes hmembers hnone)

theorem allHide_of_ofNodes {ns : List Node} {next after : Nat} {ps : List Phrase}
    (h : ofNodes ruleId fragments ns next = .ok (ps, after)) (hhidden : Node.allHidden ns = true)
    (honce : Node.anyRepeatsHidden ns = false) : allHide ps = true := by
  match ns with
  | [] =>
    obtain ⟨rfl, rfl⟩ := Prod.mk.inj (Except.ok.inj h)
    rfl
  | n :: r =>
    obtain ⟨p, mid, qs, hp, hqs, rfl⟩ := exists_of_ofNodes_cons h
    simp only [Node.allHidden, Bool.and_eq_true] at hhidden
    simp only [Node.anyRepeatsHidden, Bool.or_eq_false_iff] at honce
    rw [allHide_append, allHide_of_ofNode hp hhidden.1 honce.1,
      allHide_of_ofNodes hqs hhidden.2 honce.2]
    rfl

end

end Phrase

/-! ## Rules -/

namespace Rule

variable {fragments : Fragments} {scripts scripts' : Registry} {asked : Provider}
  {caseSensitive : Bool} {e : Element} {r : Rule}

/-- The names of the groups that a rule leaves out. -/
def excludedNames (r : Rule) : List Text := r.phrase.excluded.map Part.name

/-- What the groups with these names have captured is excluded. -/
theorem covered_excludedSpans {o : Occurrence} {w : Text}
    (hcaptured : ∀ e ∈ o.stop.captures, e.2.IsStretch o.start w) {n : Text}
    (hn : n ∈ r.excludedNames) {e : Text × Span}
    (he : o.stop.captures.find? (fun e => e.1 == n) = some e) {byte : Nat}
    (hholds : e.2.holds (o.start + byte) = true) :
    Restriction.covered (r.excludedSpans o) byte = true := by
  obtain ⟨part, hpart, rfl⟩ := List.mem_map.mp hn
  have hspan : o.captured? (Part.name part) = some e.2 := by
    rw [Occurrence.captured?, Cursor.captured?, he]
    rfl
  refine Restriction.covered_eq_true.mpr ⟨⟨e.2.start - o.start, e.2.len⟩, ?_, ?_⟩
  · refine List.mem_filterMap.mpr ⟨part, List.mem_reverse.mpr hpart, ?_⟩
    rw [hspan]
    rfl
  · obtain ⟨a, b, c, -, heq⟩ := hcaptured e (List.mem_of_find?_eq_some he)
    rw [Span.holds_iff] at hholds
    rw [heq] at hholds ⊢
    simp only [Span.stop] at hholds ⊢
    omega

/-- Where a pattern has hidden in excluded groups what it matches, the value is blank. -/
theorem isBlank_of_isFound {p : Pattern} {text : Text} {o : Occurrence} {s : Cursor} {m : Match}
    {tables : Tables} {r' : Rule} (ho : Pattern.IsFound p text o s) (hp : p.Hides r.excludedNames)
    (hnames : p.names.Nodup) (hr : r.realize asked = .ok r')
    (h : r'.matchOf tables text o = .ok m) : m.value.isBlank = true := by
  obtain ⟨a, w, hocc, hconceals⟩ := ho.conceals hp hnames
  have hsub := Restriction.value_sublist_outside (aligned_of_isOccurrence r hocc)
  refine List.all_eq_true.mpr fun c hc => ?_
  rw [(of_matchOf hr h).1, matched_of_isOccurrence hocc] at hc
  obtain ⟨x, hx, rfl⟩ := List.mem_map.mp (hsub.subset hc)
  obtain ⟨hplaced, hout⟩ := List.mem_filter.mp hx
  -- In the whole text the character stands behind those in front of the occurrence.
  have hmem : (o.start + x.1, x.2) ∈ Text.placed o.start w := by
    rw [← Nat.add_zero o.start, Text.placed_add]
    exact List.mem_map_of_mem hplaced
  rcases hconceals _ hmem with hblank | ⟨n, hn, e, he, hholds⟩
  · exact hblank
  · rw [covered_excludedSpans hocc.captured hn he hholds] at hout
    exact absurd hout (by decide)

/-- The matches of a pattern that hides what it matches have blank values. -/
theorem isBlank_of_matchesOf {p : Pattern} {text : Text} {tables : Tables}
    {os : List Occurrence} (hos : ∀ o ∈ os, ∃ s, Pattern.IsFound p text o s)
    (hp : p.Hides r.excludedNames) (hnames : p.names.Nodup) {ms : List Match}
    (h : (r.matchesOf asked tables text os).2 = .ok ms) : ∀ m ∈ ms, m.value.isBlank = true := by
  unfold matchesOf at h
  split at h
  · obtain rfl := Except.ok.inj h
    exact nofun
  · split at h
    · exact nomatch h
    · rename_i r' hr'
      intro m hm
      obtain ⟨o, ho, hom⟩ := Except.exists_of_mapM_eq_ok h m hm
      obtain ⟨s, hs⟩ := hos o ho
      exact isBlank_of_isFound hs hp hnames hr' hom

/-- Both patterns of a hidden rule hide what they match. -/
theorem hides_of_compile [PropertyTable]
    (h : compile fragments caseSensitive scripts e = (scripts', .ok r))
    (hclosed : ∀ x ∈ r.phrase.references, Phrase.IsClosed (!caseSensitive) x)
    (hhidden : Node.allHidden e.children = true)
    (honce : Node.anyRepeatsHidden e.children = false) :
    r.pattern.Hides r.excludedNames ∧ r.exactPattern.Hides r.excludedNames := by
  obtain ⟨hread, -⟩ := compile_eq_ok.mp h
  have hfrom := isReadFrom_of_ofElement? hread
  have hphrase : r.phrase.hides = true := by
    obtain ⟨members, after, hmembers, -, hsequence⟩ := Phrase.exists_of_ofChildren hfrom.phrase
    rw [hsequence]
    exact Phrase.allHide_of_ofNodes hmembers hhidden honce
  have hyields : r.phrase.Yields (!caseSensitive) (Pattern.Hides · r.excludedNames) :=
    Phrase.yields_hides hphrase (fun _ hpart => List.mem_map_of_mem hpart) hclosed
  have hhides := Pattern.isHereditary_hides r.excludedNames
  constructor
  · obtain ⟨ps, hps, heq⟩ := Pattern.exists_of_read? hfrom.pattern hyields
    rw [heq]
    exact hhides.choice (List.forall_mem_singleton.mpr (hhides.sequence hps))
  · obtain ⟨q, hq, heq⟩ :=
      Pattern.exists_of_read?_anchored hfrom.exactPattern (hyields.readsBody hhides)
    rw [heq]
    refine hhides.choice (List.forall_mem_singleton.mpr (hhides.sequence ?_))
    exact List.forall_mem_cons.mpr
      ⟨trivial, List.forall_mem_cons.mpr ⟨hq, List.forall_mem_singleton.mpr trivial⟩⟩

/-- If all words and references of a rule stand in nodes that are left out, none of which is
    repeated by a node around it, and if the fragments keep to their parentheses, then nothing but
    blanks is left in the value of a match. -/
theorem isBlank_value [PropertyTable]
    (h : compile fragments caseSensitive scripts e = (scripts', .ok r))
    (hclosed : ∀ x ∈ r.phrase.references, Phrase.IsClosed (!caseSensitive) x)
    (hhidden : Node.allHidden e.children = true)
    (honce : Node.anyRepeatsHidden e.children = false) (asked : Provider) (tables : Tables)
    (text : Text) :
    (∀ ms, (r.matchAll asked tables text).2 = .ok ms → ∀ m ∈ ms, m.value.isBlank = true) ∧
      ∀ m, (r.matchExact asked tables text).2 = .ok (some m) → m.value.isBlank = true := by
  obtain ⟨hpattern, hexact⟩ := hides_of_compile h hclosed hhidden honce
  have hfrom := isReadFrom_of_ofElement? (compile_eq_ok.mp h).1
  constructor
  · intro ms hms
    exact isBlank_of_matchesOf (fun o ho => Pattern.exists_isFound_of_mem_occurrences ho) hpattern
      (Pattern.nodup_names_of_read? hfrom.pattern) hms
  · intro m hm
    obtain ⟨ms, hms, hhead⟩ := Except.map_eq_ok.mp hm
    refine isBlank_of_matchesOf (fun o ho => ?_) hexact
      (Pattern.nodup_names_of_read? hfrom.exactPattern) hms m (List.mem_of_mem_head? hhead)
    exact Pattern.exists_isFound_of_firstIn? (Option.mem_toList.mp ho)

/-- The sounds of a pause. -/
def pauseFragment : Fragment := ⟨⟨"pause", .hidden⟩, "uh|um"⟩

/-- A rule that consists of a pause and a word after it that may be missing or come twice. -/
def pauseRule : Element :=
  ⟨"rule", .ofList [("id", "pause"), ("type", "date"), ("example", "uh well")],
    [.element "item" (.ofList [("include", "false")])
      [.element "ruleref" (.ofList [("uri", "#pause")]) []],
    .element "item" (.ofList [("repeat", "0-1")])
      [.element "item" (.ofList [("include", "false"), ("repeat", "1-2")]) [.text "well"]]]⟩

/-- The word is left out as a whole though it comes twice. A blank that is not trimmed stays. -/
theorem isBlank_value_pauseRule : ∃ scripts r ms,
    compile [pauseFragment] true .empty pauseRule = (scripts, .ok r) ∧
    (∀ x ∈ r.phrase.references, Phrase.IsClosed false x) ∧
    Node.allHidden pauseRule.children = true ∧
    Node.anyRepeatsHidden pauseRule.children = false ∧
    (r.matchAll scripts [] "uh\u3000wellwell, um").2 = .ok ms ∧
    ms.map (·.value) = [("\u3000" : Text), ""] ∧ ∀ m ∈ ms, m.value.isBlank = true := by
  have hrun : (compile [pauseFragment] true .empty pauseRule).2.toOption.bind (fun r =>
      (r.matchAll (compile [pauseFragment] true .empty pauseRule).1 []
        "uh\u3000wellwell, um").2.toOption.map fun ms =>
          (r.phrase.references, ms.map (·.value))) =
      some ([("uh|um" : Text)], [("\u3000" : Text), ""]) := by
    decide +kernel
  obtain ⟨r, hr, hrun⟩ := Option.bind_eq_some_iff.mp hrun
  obtain ⟨ms, hms, hrun⟩ := Option.map_eq_some_iff.mp hrun
  obtain ⟨hreferences, hvalues⟩ := Prod.mk.inj hrun
  have hcompile : compile [pauseFragment] true .empty pauseRule =
      ((compile [pauseFragment] true .empty pauseRule).1, .ok r) := by
    rw [← Except.eq_ok_of_toOption hr]
  have hclosed : ∀ x ∈ r.phrase.references, Phrase.IsClosed false x := by
    rw [hreferences]
    exact List.forall_mem_singleton.mpr (Phrase.isClosed_join_escaped ["uh", "um"] (by decide))
  have hhidden : Node.allHidden pauseRule.children = true := by decide
  have honce : Node.anyRepeatsHidden pauseRule.children = false := by decide
  have hms := Except.eq_ok_of_toOption hms
  have hblank := (isBlank_value hcompile hclosed hhidden honce _ [] _).1 ms hms
  exact ⟨_, r, ms, hcompile, hclosed, hhidden, honce, hms, hvalues, hblank⟩

/-! ## Repeated nodes -/

/-- A rule that consists of two words, both of which are left out. -/
def twiceRule : Element :=
  ⟨"rule", .ofList [("id", "twice"), ("type", "date"), ("example", "aa")],
    [.element "item" (.ofList [("repeat", "2")])
      [.element "item" (.ofList [("include", "false")]) [.text "a"]]]⟩

/-- Of two iterations the first one is seen in the value, because the group of the node that is left
    out has kept only the second one. -/
theorem exists_value_not_isBlank : ∃ scripts r m,
    compile [] true .empty twiceRule = (scripts, .ok r) ∧
    Node.allHidden twiceRule.children = true ∧
    (r.matchExact scripts [] "aa").2 = .ok (some m) ∧
    m.value = "a" ∧ m.value.isBlank = false := by
  have hrun : (tried? [] twiceRule "aa" "aa").map (fun a => a.2.2.2.value) = some "a" := by
    decide +kernel
  obtain ⟨⟨scripts, r, ms, m⟩, htried, hvalue⟩ := Option.map_eq_some_iff.mp hrun
  obtain ⟨hcompile, -, hexact⟩ := of_tried? htried
  have hvalue : m.value = "a" := hvalue
  refine ⟨scripts, r, m, hcompile, by decide, hexact, hvalue, ?_⟩
  rw [hvalue]
  decide

end Rule

end TimePhrase
