import TimePhrase.Proofs.Grammar.Faults
import TimePhrase.Proofs.Resource.NormalizationTable
import TimePhrase.Proofs.Rule.Registration
import TimePhrase.Proofs.Script.TableLookup

/-!
# References to resources

A resource is referred to by its id behind a number sign. Fragments are referred to by rules, and all
fragments of a document are there before the first rule is read; tables are referred to by scripts,
and by those who ask a grammar for a table. All of these pass over the number signs that a reference
begins with, so an id that does not begin with one itself is found.

* `Resources.Extends`, `extends_readBy`  no resource gets lost
* `get?_of_regex`, `get?_of_normalizationRule`  what is declared is there
* `get?_eq_none_of_load`  a fragment that is reported to be missing is missing
* `references_resolved`  what references find
* `exists_reference_not_resolved`  ids that are not found
-/

namespace TimePhrase

open Script

/-! ## Ids in references -/

/-- Only the number sign in front of an id is passed over. -/
theorem dropWhile_sign {id : Text} (h : id.head? ≠ some '#') :
    ('#' :: id).dropWhile (· == '#') = id :=
  tableId_cons h

/-- A reference is trimmed, as the ids of resources are. -/
theorem filledAttribute?_sign {e : Element} {id : Text} (hid : id.Trimmed) (hne : id ≠ [])
    (h : e.attribute? "uri" = some ('#' :: id)) : e.filledAttribute? "uri" = some ('#' :: id) := by
  have hsign : Text.Trimmed ['#'] := Text.tight_of_all (by decide)
  have htrimmed : Text.Trimmed ('#' :: id) := by
    have h := hsign.append (List.cons_ne_nil _ _) hid hne []
    rwa [List.append_nil] at h
  refine Element.filledAttribute?_eq_some.mpr ⟨?_, List.cons_ne_nil _ _⟩
  rw [h, Option.map_some, htrimmed.trim_eq]

namespace Phrase

/-- A reference to a fragment that is there is read as its expression. -/
theorem ofReference_of_get? {ruleId : Text} {fragments : Fragments} {e : Element} {f : Fragment}
    (hid : f.id.Trimmed) (hne : f.id ≠ []) (hsign : f.id.head? ≠ some '#')
    (hf : fragments.get? f.id = some f) (h : e.attribute? "uri" = some ('#' :: f.id)) :
    ofReference ruleId fragments e = .ok (.fragment f.expression) := by
  rw [ofReference, filledAttribute?_sign hid hne h]
  simp only [dropWhile_sign hsign, hf]

/-- So is a node that refers to it, with its mark around. -/
theorem ofNode_of_ofReference {ruleId expression : Text} {fragments : Fragments}
    {attributes : Dictionary} {children : List Node} {mark : Mark}
    (hmark : Mark.ofElement? ruleId ⟨"ruleref", attributes, children⟩ = .ok mark)
    (h : ofReference ruleId fragments ⟨"ruleref", attributes, children⟩ =
      .ok (.fragment expression)) (next : Nat) :
    ofNode ruleId fragments (.element "ruleref" attributes children) next =
      .ok (contributed next mark (.fragment expression),
        if mark.isPlain then next else next + 1) := by
  have hname : isStructural "ruleref" = true := by decide
  rw [ofNode, hname]
  simp only [Bool.not_true, Bool.false_eq_true, if_false, hmark, h, bind, Except.bind, if_true,
    contributed]
  cases mark.isPlain <;> rfl

end Phrase

/-- A fragment has the header of its element. -/
theorem Fragment.header_of_ofElement? {e : Element} {f : Fragment}
    (h : Fragment.ofElement? e = .ok f) : e.header? = .ok f.header := by
  obtain ⟨header, hheader, h⟩ := Except.bind_eq_ok.mp h
  split at h
  · exact nomatch h
  · rw [hheader, ← Except.ok.inj h]

/-! ## Resources -/

namespace Resources

/-- Resources with others behind them. -/
structure Extends (r' r : Resources) : Prop where
  fragments : r.fragments <+: r'.fragments
  tables : r.tables <+: r'.tables

theorem Extends.refl (r : Resources) : r.Extends r := ⟨List.prefix_rfl, List.prefix_rfl⟩

theorem Extends.trans {r r' r'' : Resources} (h' : r''.Extends r') (h : r'.Extends r) :
    r''.Extends r :=
  ⟨h.fragments.trans h'.fragments, h.tables.trans h'.tables⟩

variable {r r' : Resources} {caseSensitive : Bool} {e : Element}

/-- A resource stays under its id. -/
theorem Extends.fragment {id : Text} {f : Fragment} (h : r'.Extends r)
    (hf : r.fragments.get? id = some f) : r'.fragments.get? id = some f := by
  obtain ⟨fs, hfs⟩ := h.fragments
  rw [Fragments.get?] at hf ⊢
  rw [← hfs, List.find?_append, hf, Option.some_or]

theorem Extends.table {id : Text} {t : NormalizationTable} (h : r'.Extends r)
    (ht : r.tables.get? id = some t) : r'.tables.get? id = some t := by
  obtain ⟨ts, hts⟩ := h.tables
  rw [Tables.get?] at ht ⊢
  rw [← hts, List.find?_append, ht, Option.some_or]

theorem exists_of_addFragment (h : r.addFragment e = .ok r') : ∃ f,
    Fragment.ofElement? e = .ok f ∧ r.fragments.get? f.id = none ∧
      { r with fragments := r.fragments ++ [f] } = r' := by
  rw [addFragment] at h
  split at h
  · exact nomatch h
  · rename_i f hf
    split at h
    · exact nomatch h
    · rename_i hnew
      exact ⟨f, hf, Option.not_isSome_iff_eq_none.mp hnew, Except.ok.inj h⟩

theorem exists_of_addTable (h : r.addTable caseSensitive e = .ok r') : ∃ t,
    NormalizationTable.ofElement? e caseSensitive = .ok t ∧ r.tables.get? t.id = none ∧
      { r with tables := r.tables ++ [t] } = r' := by
  rw [addTable] at h
  split at h
  · exact nomatch h
  · rename_i t ht
    split at h
    · exact nomatch h
    · rename_i hnew
      exact ⟨t, ht, Option.not_isSome_iff_eq_none.mp hnew, Except.ok.inj h⟩

theorem extends_of_add (h : r.add caseSensitive e = .ok r') : r'.Extends r := by
  rw [add] at h
  split_ifs at h
  · obtain ⟨f, -, -, rfl⟩ := exists_of_addFragment h
    exact ⟨List.prefix_append _ _, List.prefix_rfl⟩
  · obtain ⟨t, -, -, rfl⟩ := exists_of_addTable h
    exact ⟨List.prefix_rfl, List.prefix_append _ _⟩
  · obtain rfl := Except.ok.inj h
    exact ⟨List.prefix_rfl, List.prefix_rfl⟩
  · obtain rfl := Except.ok.inj h
    exact .refl r

end Resources

namespace Grammar

open Resources

variable {caseSensitive : Bool}

/-- Reading more elements loses no resource. -/
theorem extends_readBy (r : Resources) (es : List Element) :
    (readBy (resourceStep caseSensitive) r es).Extends r := by
  induction es generalizing r with
  | nil => exact .refl r
  | cons e es ih =>
    refine (ih (resourceStep caseSensitive r e).1).trans ?_
    rw [resourceStep]
    cases hadd : r.add caseSensitive e with
    | ok r' => exact extends_of_add hadd
    | error err => exact .refl r

/-- An element of a document that is read without a fault leaves what it declares. -/
theorem exists_add_of_step {before after : List Element} {e : Element}
    (h : (resourceStep caseSensitive (resourcesOf caseSensitive before) e).2 = none) :
    ∃ r, (resourcesOf caseSensitive before).add caseSensitive e = .ok r ∧
      (resourcesOf caseSensitive (before ++ e :: after)).Extends r := by
  rw [resourceStep] at h
  cases hadd : (resourcesOf caseSensitive before).add caseSensitive e with
  | error err =>
    rw [hadd] at h
    cases h
  | ok r =>
    refine ⟨r, rfl, ?_⟩
    have hstep : (resourceStep caseSensitive (resourcesOf caseSensitive before) e).1 = r := by
      rw [resourceStep, hadd]
    rw [resourcesOf, readBy_append]
    show (readBy _ (resourceStep caseSensitive (resourcesOf caseSensitive before) e).1 after).Extends
      r
    rw [hstep]
    exact extends_readBy r after

/-- The fragment of an element without a fault is there, under its id. -/
theorem get?_of_regex {before : List Element} {e : Element} (after : List Element)
    (hname : e.name = "regex")
    (h : (resourceStep caseSensitive (resourcesOf caseSensitive before) e).2 = none) :
    ∃ f, Fragment.ofElement? e = .ok f ∧
      (resourcesOf caseSensitive (before ++ e :: after)).fragments.get? f.id = some f := by
  obtain ⟨r, hadd, hextends⟩ := exists_add_of_step h
  rw [add, if_pos hname] at hadd
  obtain ⟨f, hf, hnew, rfl⟩ := exists_of_addFragment hadd
  refine ⟨f, hf, hextends.fragment ?_⟩
  rw [Fragments.get?] at hnew ⊢
  rw [List.find?_append, hnew, Option.none_or, List.find?_singleton]
  simp

/-- The table of an element without a fault is there, under its id. -/
theorem get?_of_normalizationRule {before : List Element} {e : Element} (after : List Element)
    (hname : e.name = "normalization_rule")
    (h : (resourceStep caseSensitive (resourcesOf caseSensitive before) e).2 = none) :
    ∃ t, NormalizationTable.ofElement? e caseSensitive = .ok t ∧
      (resourcesOf caseSensitive (before ++ e :: after)).tables.get? t.id = some t := by
  obtain ⟨r, hadd, hextends⟩ := exists_add_of_step h
  have hregex : e.name ≠ ("regex" : Text) := by
    rw [hname]
    decide
  rw [add, if_neg hregex, if_pos hname] at hadd
  obtain ⟨t, ht, hnew, rfl⟩ := exists_of_addTable hadd
  refine ⟨t, ht, hextends.table ?_⟩
  rw [Tables.get?] at hnew ⊢
  rw [List.find?_append, hnew, Option.none_or, List.find?_singleton]
  simp

/-! ## Missing fragments -/

/-- No resource misses a fragment. -/
theorem resourceStep_ne_unknownFragment (r : Resources) (e : Element) (ruleId reference : Text) :
    (resourceStep caseSensitive r e).2 ≠ some (.unknownFragment ruleId reference) := by
  intro h
  have hadd : r.add caseSensitive e = .error (.unknownFragment ruleId reference) := by
    rw [resourceStep] at h
    split at h
    · cases h
    · rename_i err herr
      rw [herr, Option.some.inj h]
  rw [add] at hadd
  split_ifs at hadd
  · rw [addFragment] at hadd
    split at hadd
    · cases hadd
    · split at hadd <;> cases hadd
  · rw [addTable] at hadd
    split at hadd
    · cases hadd
    · split at hadd <;> cases hadd

/-- A rule misses only what is not there. -/
theorem get?_eq_none_of_ruleStep [PropertyTable] {fragments : Fragments} {b : RuleBook}
    {e : Element} {ruleId reference : Text}
    (h : (ruleStep fragments caseSensitive b e).2 = some (.unknownFragment ruleId reference)) :
    fragments.get? reference = none := by
  have hcompile {negative : Bool}
      (h : (b.addRule fragments caseSensitive negative e).2 =
        some (.unknownFragment ruleId reference)) :
      (Rule.compile fragments caseSensitive b.scripts e).2 =
        .error (.unknownFragment ruleId reference) := by
    rw [RuleBook.addRule] at h
    generalize Rule.compile fragments caseSensitive b.scripts e = found at h
    obtain ⟨s, err | rule⟩ := found
    · exact congrArg Except.error (Option.some.inj h)
    · simp only at h
      split_ifs at h
      all_goals simp at h
  have hfault : (Rule.compile fragments caseSensitive b.scripts e).2 =
      .error (.unknownFragment ruleId reference) := by
    rw [ruleStep, RuleBook.add] at h
    split_ifs at h
    · exact hcompile h
    · exact hcompile h
  -- The fault is not in a script, so it is one of the element.
  have helement : Rule.ofElement? fragments caseSensitive e =
      .error (.unknownFragment ruleId reference) := by
    rw [Rule.compile] at hfault
    split at hfault
    · rename_i err herr
      rw [herr, Except.error.inj hfault]
    · split at hfault
      · cases hfault
      · cases hfault
  exact Option.isNone_iff_eq_none.mp (Rule.failsAsElement_ofElement? _ helement)

theorem get?_eq_none_of_load [PropertyTable] {root : Element} {errs : List LoadError}
    {ruleId reference : Text} (hload : load caseSensitive root = .error errs)
    (h : .unknownFragment ruleId reference ∈ errs) :
    (resourcesOf caseSensitive root.elements).fragments.get? reference = none := by
  obtain ⟨-, rfl⟩ := load_eq_error.mp hload
  obtain ⟨x, hx, herr⟩ := List.mem_map.mp h
  rcases List.mem_append.mp hx with hx | hx
  · obtain ⟨before, after, -, hstep⟩ := exists_of_mem_faultsBy hx
    rw [herr] at hstep
    exact absurd hstep (resourceStep_ne_unknownFragment _ x.1 ruleId reference)
  · obtain ⟨before, after, -, hstep⟩ := exists_of_mem_faultsBy hx
    rw [herr] at hstep
    exact get?_eq_none_of_ruleStep hstep

/-! ## Loaded grammars -/

theorem resources_of_load [PropertyTable] {root : Element} {g : Grammar}
    (h : load caseSensitive root = .ok g) :
    g.resources = resourcesOf caseSensitive root.elements ∧
      faults caseSensitive root.elements = [] := by
  rw [load_eq] at h
  split at h
  · rename_i hnone
    rw [← Except.ok.inj h]
    exact ⟨rfl, hnone⟩
  · exact nomatch h

/-- No resource of a loaded grammar has a fault. -/
theorem step_of_faults [PropertyTable] {before after : List Element} {e : Element}
    (h : faults caseSensitive (before ++ e :: after) = []) :
    (resourceStep caseSensitive (resourcesOf caseSensitive before) e).2 = none := by
  have hresources := (List.append_eq_nil_iff.mp h).1
  rw [resourceFaults, faultsBy_append] at hresources
  have hrest := (List.append_eq_nil_iff.mp hresources).2
  rw [faultsBy] at hrest
  rw [resourcesOf]
  simpa using (List.append_eq_nil_iff.mp hrest).1

/-- A reference finds the resource that was declared under its id, if that does not begin with a
    number sign. A fragment is put in wherever in the document it is referred to, and it is never
    reported to be missing. A table is given to those who ask for it, and a script that normalizes a
    text in it does so, whatever the text, and fails only where there is no text. -/
theorem references_resolved [PropertyTable] (caseSensitive : Bool) (root : Element) :
    (∀ before e after, root.elements = before ++ e :: after → e.name = ("regex" : Text) →
      (resourceStep caseSensitive (resourcesOf caseSensitive before) e).2 = none →
      ∃ f, Fragment.ofElement? e = .ok f ∧ (f.id.head? ≠ some '#' →
        (∀ ruleId attributes children mark next, attributes.get? "uri" = some ('#' :: f.id) →
          Mark.ofElement? ruleId ⟨"ruleref", attributes, children⟩ = .ok mark →
          Phrase.ofNode ruleId (resourcesOf caseSensitive root.elements).fragments
              (.element "ruleref" attributes children) next =
            .ok (Phrase.contributed next mark (.fragment f.expression),
              if mark.isPlain then next else next + 1)) ∧
        ∀ errs, load caseSensitive root = .error errs →
          ∀ ruleId, .unknownFragment ruleId f.id ∉ errs)) ∧
    ∀ g, load caseSensitive root = .ok g →
      ∀ e ∈ root.elements, e.name = ("normalization_rule" : Text) →
      ∃ t, NormalizationTable.ofElement? e caseSensitive = .ok t ∧ (t.id.head? ≠ some '#' →
        g.table? ('#' :: t.id) = some t ∧
        ∀ ruleId group key source operand, compileExpr ruleId source = .ok operand →
          ∃ script, TagScript.compile ruleId group
              (assign key (writeCall .normalize [quote ('#' :: t.id), source])) = .ok script ∧
            ∀ captured facts, script.run g.resources.tables captured facts =
              match operand.eval g.resources.tables facts captured with
              | .ok text => (facts.insert key (t.normalize text), none)
              | .error err => (facts, some err)) := by
  constructor
  · intro before e after hroot hname hstep
    obtain ⟨f, hf, hget⟩ := get?_of_regex after hname hstep
    rw [← hroot] at hget
    refine ⟨f, hf, fun hsign => ⟨?_, ?_⟩⟩
    · intro ruleId attributes children mark next huri hmark
      have hheader : e.header? = .ok f.header := Fragment.header_of_ofElement? hf
      have href : Phrase.ofReference ruleId (resourcesOf caseSensitive root.elements).fragments
          ⟨"ruleref", attributes, children⟩ = .ok (.fragment f.expression) :=
        Phrase.ofReference_of_get? (Element.trimmed_of_header? hheader)
          (Element.id_ne_nil_of_header? hheader) hsign hget huri
      exact Phrase.ofNode_of_ofReference hmark href next
    · intro errs hload ruleId hmem
      rw [get?_eq_none_of_load hload hmem] at hget
      exact nomatch hget
  · intro g hload e he hname
    obtain ⟨hresources, hnone⟩ := resources_of_load hload
    obtain ⟨before, after, hroot⟩ := List.append_of_mem he
    rw [hroot] at hresources hnone
    obtain ⟨t, ht, hget⟩ := get?_of_normalizationRule after hname (step_of_faults hnone)
    rw [← hresources] at hget
    refine ⟨t, ht, fun hsign => ⟨?_, ?_⟩⟩
    · rw [table?, dropWhile_sign hsign, hget]
    · intro ruleId group key source operand hoperand
      have hid : tableId ('#' :: t.id) = t.id := tableId_cons hsign
      have hheader := NormalizationTable.header_of_ofElement? ht
      refine TagScript.exists_compile_normalize ?_ hoperand group key ?_
      · rw [hid]
        exact Element.id_ne_nil_of_header? hheader
      · rw [hid]
        exact hget

/-! ### A sample -/

/-- A fragment under an id. -/
def digitElement (id : Text) : Element :=
  ⟨"regex", .ofList [("id", id), ("expression", "[0-9]")], []⟩

/-- A table of one entry under an id. -/
def unitElement (id : Text) : Element :=
  ⟨"normalization_rule", .ofList [("id", id)],
    [.element "item" .empty [.text "d", .element "normalized" .empty [.text "day"]]]⟩

/-- A rule that refers to a fragment, the fragment after it, and a table. -/
def referring (uri fragment table : Text) : Element :=
  ⟨"grammar", .empty,
    [dateRule "rule" "day" "7" [.element "ruleref" (.ofList [("uri", uri)]) []],
      (digitElement fragment).toNode, (unitElement table).toNode]⟩

/-- A fragment with blanks around its id, and a table with quotes and a number sign inside its id.
    The script fails only where a fact is missing that it puts into the text. -/
theorem references_resolved_quoted : ∃ g t script,
    load true (referring "#digit" " digit " "unit \"#\"") = .ok g ∧
    Phrase.ofNode "day" g.resources.fragments
        (.element "ruleref" (.ofList [("uri", "#digit")]) []) 0 =
      .ok (some (.fragment "[0-9]"), 0) ∧
    g.table? "#unit \"#\"" = some t ∧
    TagScript.compile "day" "Part0"
      "timex[\"a\"] = Normalize(\"#unit \\\"#\\\"\", 'd' + timex[b])" = .ok script ∧
    script.run g.resources.tables "" (.ofList [("b", "")]) =
      (.ofList [("a", "day"), ("b", "")], none) ∧
    script.run g.resources.tables "" .empty = (.empty, some (.undefinedKey "b")) := by
  let root := referring "#digit" " digit " "unit \"#\""
  obtain ⟨hfragments, htables⟩ := references_resolved true root
  obtain ⟨g, hload⟩ : ∃ g, load true root = .ok g := exists_load_iff.mpr (by decide +kernel)
  obtain ⟨f, hf, hresolved⟩ := hfragments (root.elements.take 1) (digitElement " digit ")
    (root.elements.drop 2) rfl rfl (by decide +kernel)
  obtain ⟨t, ht, hlookup⟩ := htables g hload (unitElement "unit \"#\"")
    (List.mem_of_getElem? (i := 2) rfl) rfl
  have hfragment : Fragment.ofElement? (digitElement " digit ") =
      .ok ⟨⟨"digit", .exposed⟩, "[0-9]"⟩ := by
    decide +kernel
  have htable : NormalizationTable.ofElement? (unitElement "unit \"#\"") true =
      .ok ⟨⟨"unit \"#\"", .exposed⟩, true, [("d", "day")]⟩ := by
    decide +kernel
  obtain rfl := Except.ok.inj (hfragment.symm.trans hf)
  obtain rfl := Except.ok.inj (htable.symm.trans ht)
  have hoperand : compileExpr "day" "'d' + timex[b]" =
      .ok (.concat (.constant "d") (.lookup "b")) := by
    decide +kernel
  obtain ⟨hget, hscript⟩ := hlookup (by decide)
  obtain ⟨script, hcompile, hrun⟩ := hscript "day" "Part0" "a" "'d' + timex[b]" _ hoperand
  refine ⟨g, _, script, hload, ?_, hget, hcompile, ?_, ?_⟩
  · rw [(resources_of_load hload).1]
    exact (hresolved (by decide)).1 "day" (.ofList [("uri", "#digit")]) []
      ⟨none, false, none, none⟩ 0 (by decide +kernel) (by decide +kernel)
  · rw [hrun]
    rfl
  · rw [hrun]
    rfl

/-- Ids that begin with a number sign are ids as well, but no reference finds what they stand for. -/
theorem exists_reference_not_resolved :
    (∃ f, Fragment.ofElement? (digitElement "#digit") = .ok f ∧ f.id = "#digit" ∧
      load true (referring "##digit" "#digit" "unit") = .error [.unknownFragment "day" "digit"]) ∧
    ∃ g t script, load true ⟨"grammar", .empty, [(unitElement "#unit").toNode]⟩ = .ok g ∧
      NormalizationTable.ofElement? (unitElement "#unit") true = .ok t ∧ t.id = "#unit" ∧
      g.table? "##unit" = none ∧
      TagScript.compile "day" "Part0" "timex[\"a\"] = Normalize(\"##unit\", value)" = .ok script ∧
      (script.run g.resources.tables "" .empty).2 = some (.unknownTable "unit") := by
  constructor
  · have hfaults : (faults true (referring "##digit" "#digit" "unit").elements).map Prod.snd =
        [.unknownFragment "day" "digit"] := by
      decide +kernel
    refine ⟨⟨⟨"#digit", .exposed⟩, "[0-9]"⟩, by decide +kernel, rfl, ?_⟩
    exact load_eq_error.mpr ⟨List.cons_ne_nil _ _, hfaults.symm⟩
  · let script : TagScript := ⟨"day", "Part0", "timex[\"a\"] = Normalize(\"##unit\", value)",
      [⟨"a", .normalize "unit" .captured⟩]⟩
    obtain ⟨g, hload⟩ : ∃ g, load true ⟨"grammar", .empty, [(unitElement "#unit").toNode]⟩ = .ok g :=
      exists_load_iff.mpr (by decide +kernel)
    refine ⟨g, ⟨⟨"#unit", .exposed⟩, true, [("d", "day")]⟩, script, hload, by decide +kernel, rfl, ?_,
      by decide +kernel, ?_⟩
    · rw [table?, (resources_of_load hload).1]
      decide +kernel
    · rw [(resources_of_load hload).1]
      decide +kernel

end Grammar

end TimePhrase
