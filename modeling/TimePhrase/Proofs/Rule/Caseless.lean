import TimePhrase.Proofs.Pattern.Caseless
import TimePhrase.Proofs.Rule.Hidden
import TimePhrase.Proofs.Text.Lowercase
import TimePhrase.Resource.NormalizationTable

/-!
# A word, and a table with its canonical form

Where a rule that does not mind case consists of a single word, its anchored pattern matches the
texts that fold to the same letters as the word. A table that does not mind case goes by lower case
instead. So it finds the canonical form of a text that was matched, unless some letter of the text
or of the word is a form of its own where the other one has another letter.

* `Node.Spells`  nodes whose only content is a word
* `isIn_exactPattern_iff_variant`  the texts that the anchored pattern of such a rule matches
* `normalize_of_isIn`  whether a table has the canonical form of such a text
* `exists_isIn_not_normalized`  the long s, which is matched and not found in the table
-/

namespace TimePhrase

/-! ## Nodes whose only content is a word -/

namespace Node

/-- Whether a node contributes nothing to a phrase. -/
def isSilent : Node → Bool
  | .text content => content.isBlank
  | .element name _ _ => !Phrase.isStructural name

/-- Nodes whose only content is a word. It may stand inside of items and choices, which may carry
    anything but a repeat range. -/
inductive Spells (w : Text) : List Node → Prop
  | text {content : Text} {r : List Node} (hwords : content.words = [w])
      (hr : ∀ n ∈ r, n.isSilent = true) : Spells w (.text content :: r)
  | inside {name : Text} {attributes : Dictionary} {children r : List Node}
      (hname : name = ("item" : Text) ∨ name = ("one-of" : Text))
      (hrange : attributes.get? "repeat" = none) (hchildren : Spells w children)
      (hr : ∀ n ∈ r, n.isSilent = true) : Spells w (.element name attributes children :: r)
  | skip {n : Node} {r : List Node} (hn : n.isSilent = true) (hr : Spells w r) : Spells w (n :: r)

/-- A word is spelled by itself. -/
theorem spells_word {w : Text} (hne : w ≠ []) (hw : ∀ c ∈ w, isBlank c = false) :
    Spells w [.text w] := by
  refine .text ?_ nofun
  induction w with
  | nil => exact absurd rfl hne
  | cons c w ih =>
    obtain ⟨hc, hw⟩ := List.forall_mem_cons.mp hw
    unfold Text.words
    rw [hc, if_neg Bool.false_ne_true]
    cases w with
    | nil => rfl
    | cons d w =>
      have hd := hw d List.mem_cons_self
      simp only [hd, Bool.false_eq_true, if_false, ih (List.cons_ne_nil d w) hw, Text.consFirst]

end Node

namespace Phrase

open Pattern (ReadsAs ReadsBodyAs ReadsAtomAs Means MeansAll variantsOf)

variable {ruleId : Text} {fragments : Fragments} {next after : Nat} {w : Text}

theorem eq_none_of_isSilent {n : Node} {p : Option Phrase} (hn : n.isSilent = true)
    (h : ofNode ruleId fragments n next = .ok (p, after)) : p = none := by
  cases n with
  | text content =>
    obtain ⟨rfl, -⟩ := Prod.mk.inj (Except.ok.inj h)
    rw [ofText?, Text.words_eq_nil hn]
  | element name attributes children =>
    have hname : isStructural name = false := by simpa [Node.isSilent] using hn
    rcases exists_of_ofNode h with ⟨-, rfl, -⟩ | ⟨hs, -⟩
    · rfl
    · rw [hname] at hs
      exact absurd hs Bool.false_ne_true

theorem eq_nil_of_forall_isSilent {ns : List Node} {ps : List Phrase}
    (hns : ∀ n ∈ ns, n.isSilent = true) (h : ofNodes ruleId fragments ns next = .ok (ps, after)) :
    ps = [] := by
  induction ns generalizing next ps with
  | nil =>
    obtain ⟨rfl, -⟩ := Prod.mk.inj (Except.ok.inj h)
    rfl
  | cons n r ih =>
    obtain ⟨hn, hr⟩ := List.forall_mem_cons.mp hns
    obtain ⟨p, mid, qs, hp, hqs, rfl⟩ := exists_of_ofNodes_cons h
    rw [eq_none_of_isSilent hn hp, ih hr hqs]
    rfl

/-! ## What is written for them -/

/-- What is written for a phrase means the variants of a word. -/
def SaysVariants [PropertyTable] (p : Phrase) (w : Text) : Prop :=
  ReadsAs true (MeansAll · (variantsOf w)) p.expression

theorem readsAs_of_atom [PropertyTable] {e : Text}
    (h : ReadsAtomAs true (Means · (variantsOf w)) e) :
    ReadsAs true (MeansAll · (variantsOf w)) e :=
  h.reads fun _ hp => hp.singleton

theorem SaysVariants.parens [PropertyTable] {p : Phrase} (h : p.SaysVariants w) :
    ReadsAs true (MeansAll · (variantsOf w)) (inParens p.expression) :=
  readsAs_of_atom (Pattern.readsAtomAs_parens (Pattern.readsBodyAs_of_readsAs h))

theorem saysVariants_words [PropertyTable] (w : Text) : (words [w]).SaysVariants w :=
  readsAs_of_atom (Pattern.readsAtomAs_parens
    (Pattern.readsBodyAs_of_readsAs (Pattern.readsAs_variantsOf w)))

/-- A group of an element that is not repeated means what its body means. -/
theorem SaysVariants.contributed [PropertyTable] {e : Element} {mark : Mark} {body : Phrase}
    (hmark : Mark.ofElement? ruleId e = .ok mark) (hrange : e.attribute? "repeat" = none)
    (hbody : body.SaysVariants w) (hne : body ≠ .sequence []) :
    ∃ p, (contributed next mark body).toList = [p] ∧ p.SaysVariants w := by
  unfold Phrase.contributed
  split
  · split
    · exact absurd rfl hne
    · exact ⟨body, rfl, hbody⟩
  · refine ⟨.group next mark body, rfl, ?_⟩
    have hnone : mark.range = none := by
      rw [(Mark.of_ofElement? hmark).1, hrange]
      rfl
    rw [SaysVariants, expression_group_none next body hnone]
    exact readsAs_of_atom (Pattern.readsAtomAs_named (readName_name next)
      (Pattern.readsBodyAs_of_readsAs hbody) fun index _ hp => hp.group index _)

/-- Nodes whose only content is a word contribute one phrase, which means the variants of it. -/
theorem saysVariants_of_spells [PropertyTable] {ns : List Node} (hns : Node.Spells w ns)
    {ps : List Phrase} (h : ofNodes ruleId fragments ns next = .ok (ps, after)) :
    ∃ p, ps = [p] ∧ p.SaysVariants w := by
  induction hns generalizing next after ps with
  | @text content r hwords hr =>
    obtain ⟨p, mid, qs, hp, hqs, rfl⟩ := exists_of_ofNodes_cons h
    obtain ⟨rfl, -⟩ := Prod.mk.inj (Except.ok.inj hp)
    rw [eq_nil_of_forall_isSilent hr hqs, ofText?, hwords]
    exact ⟨words [w], rfl, saysVariants_words w⟩
  | @skip n r hn _ ih =>
    obtain ⟨p, mid, qs, hp, hqs, rfl⟩ := exists_of_ofNodes_cons h
    rw [eq_none_of_isSilent hn hp]
    exact ih hqs
  | @inside name attributes children r hname hrange _ hr ih =>
    obtain ⟨p, mid, qs, hp, hqs, rfl⟩ := exists_of_ofNodes_cons h
    rw [eq_nil_of_forall_isSilent hr hqs, List.append_nil]
    rcases exists_of_ofNode hp with ⟨hs, -⟩ | ⟨-, mark, body, hmark, hbody, rfl⟩
    · rcases hname with rfl | rfl <;> exact absurd hs (by decide)
    · cases hbody with
      | reference href _ =>
        have href : name = ("ruleref" : Text) := href
        subst href
        exact absurd hname (by decide)
      | item _ hmembers =>
        obtain ⟨q, rfl, hq⟩ := ih hmembers
        have hsequence : (sequence [q]).SaysVariants w := hq
        exact hsequence.contributed hmark hrange (by simp)
      | oneOf _ _ hmembers =>
        obtain ⟨q, rfl, hq⟩ := ih hmembers
        have hchoice : (choice [q]).SaysVariants w := hq.parens
        exact hchoice.contributed hmark hrange (by simp)

end Phrase

namespace NormalizationTable

/-! ## Tables -/

variable {t : NormalizationTable} {w s canonical : Text}

theorem normalize_of_lowercase_eq (hcase : t.caseSensitive = false) (hw : t.get? w = some canonical)
    (h : s.lowercase = w.lowercase) : t.normalize s = canonical := by
  have hfold (x : Text) : t.fold x = x.lowercase := by
    rw [fold, hcase]
    rfl
  rw [normalize, get?, hfold, h, ← hfold, ← get?, hw]
  rfl

/-- The table with one entry. -/
theorem normalize_of_lowercase_ne {id : Text} (hw : (new id false).insert w canonical = .ok t)
    (h : s.lowercase ≠ w.lowercase) : t.normalize s = s := by
  obtain rfl := Except.ok.inj hw
  show (if s.lowercase = w.lowercase then some canonical else none).getD s = s
  rw [if_neg h]
  rfl

end NormalizationTable

namespace Rule

/-! ## Rules -/

variable {fragments : Fragments} {scripts scripts' : Registry} {e : Element} {r : Rule} {w : Text}

/-- Where a rule consists of a word, its anchored pattern matches the variants of the word. -/
theorem isIn_exactPattern_iff_variant [PropertyTable]
    (h : compile fragments false scripts e = (scripts', .ok r)) (hw : Node.Spells w e.children)
    (t : Text) :
    r.exactPattern.isIn t = true ↔ t.map foldCase = w.map foldCase := by
  have hfrom := isReadFrom_of_ofElement? (compile_eq_ok.mp h).1
  obtain ⟨members, after, hmembers, -, hphrase⟩ := Phrase.exists_of_ofChildren hfrom.phrase
  obtain ⟨p, rfl, hp⟩ := Phrase.saysVariants_of_spells hw hmembers
  have hsays : r.phrase.SaysVariants w := by
    rw [hphrase]
    exact hp
  exact Pattern.isIn_iff_of_read? (Pattern.readsBodyAs_of_readsAs hsays) hfrom.exactPattern t

/-- What the anchored pattern matches folds to the same letters as the word. A table that does not
    mind case has the canonical form of it if both agree letter by letter, each capital sigma read
    as a small one: the letters are the same, or neither is a form of its own. Otherwise a table
    with that entry alone leaves it as it is. -/
theorem normalize_of_isIn [PropertyTable]
    (h : compile fragments false scripts e = (scripts', .ok r)) (hw : Node.Spells w e.children)
    {t : Text} (ht : r.exactPattern.isIn t = true) :
    t.map foldCase = w.map foldCase ∧
    (List.Forall₂ AgreesInLowercase t.withSmallSigmas w.withSmallSigmas →
      ∀ (table : NormalizationTable) (canonical : Text), table.caseSensitive = false →
        table.get? w = some canonical → table.normalize t = canonical) ∧
    (¬ List.Forall₂ AgreesInLowercase t.withSmallSigmas w.withSmallSigmas →
      ∀ (id canonical : Text) (table : NormalizationTable),
        (NormalizationTable.new id false).insert w canonical = .ok table → table.normalize t = t) := by
  have hfold := (isIn_exactPattern_iff_variant h hw t).mp ht
  have hlower := Text.lowercase_eq_iff hfold
  refine ⟨hfold, ?_, ?_⟩
  · intro hagree table canonical hcase hget
    exact NormalizationTable.normalize_of_lowercase_eq hcase hget (hlower.mpr hagree)
  · intro hnot id canonical table hinsert
    exact NormalizationTable.normalize_of_lowercase_ne hinsert (hlower.not.mpr hnot)

/-- A rule for a text in capitals with a sigma at each end. -/
def sigmaRule : Element :=
  ⟨"rule", .ofList [("id", "sigma"), ("type", "date"), ("example", "ΣΑΣ")], [.text "σας"]⟩

/-- Both sigmas of the capitals are read as the small ones that the word has at their places. -/
theorem normalize_of_isIn_sigmaRule : ∃ (scripts : Registry) (r : Rule) (table : NormalizationTable),
    compile [] false .empty sigmaRule = (scripts, .ok r) ∧
    Node.Spells "σας" sigmaRule.children ∧ r.exactPattern.isIn "ΣΑΣ" = true ∧
    table.caseSensitive = false ∧ table.get? "σας" = some "you" ∧
    table.normalize "ΣΑΣ" = "you" := by
  have hrun : (compile [] false .empty sigmaRule).2.toOption.map (fun r =>
      r.exactPattern.isIn "ΣΑΣ") = some true := by
    decide +kernel
  obtain ⟨r, hr, hin⟩ := Option.map_eq_some_iff.mp hrun
  have hcompile : compile [] false .empty sigmaRule =
      ((compile [] false .empty sigmaRule).1, .ok r) := by
    rw [← Except.eq_ok_of_toOption hr]
  have hspells : Node.Spells "σας" sigmaRule.children :=
    Node.spells_word (by decide) (by decide +kernel)
  let table : NormalizationTable := ⟨⟨"words", .exposed⟩, false, [("σας", "you")]⟩
  have hget : table.get? "σας" = some "you" := by decide +kernel
  have hagree : List.Forall₂ AgreesInLowercase (Text.withSmallSigmas "ΣΑΣ")
      (Text.withSmallSigmas "σας") := by
    have htext : Text.withSmallSigmas "ΣΑΣ" = ['σ', 'Α', 'ς'] := by decide +kernel
    have hword : Text.withSmallSigmas "σας" = ['σ', 'α', 'ς'] := by decide +kernel
    have hletter : isOwnForm 'Α' = false ∧ isOwnForm 'α' = false := by decide +kernel
    rw [htext, hword]
    exact .cons (.inl rfl) (.cons (.inr hletter) (.cons (.inl rfl) .nil))
  exact ⟨_, r, table, hcompile, hspells, hin, rfl, hget,
    (normalize_of_isIn hcompile hspells hin).2.1 hagree table "you" rfl hget⟩

/-- A rule for the letter s. -/
def secondRule : Element :=
  ⟨"rule", .ofList [("id", "second"), ("type", "time"), ("example", "s")], [.text "s"]⟩

/-- The long s is matched where the letter s is meant, but a table of units does not find it. -/
theorem exists_isIn_not_normalized : ∃ (scripts : Registry) (r : Rule) (table : NormalizationTable),
    compile [] false .empty secondRule = (scripts, .ok r) ∧
    Node.Spells "s" secondRule.children ∧ r.exactPattern.isIn "ſ" = true ∧
    table.caseSensitive = false ∧ table.get? "s" = some "second" ∧
    table.normalize "ſ" = "ſ" ∧ table.normalize "ſ" ≠ "second" := by
  have hrun : (compile [] false .empty secondRule).2.toOption.map (fun r =>
      r.exactPattern.isIn "ſ") = some true := by
    decide +kernel
  obtain ⟨r, hr, hin⟩ := Option.map_eq_some_iff.mp hrun
  have hcompile : compile [] false .empty secondRule =
      ((compile [] false .empty secondRule).1, .ok r) := by
    rw [← Except.eq_ok_of_toOption hr]
  have hspells : Node.Spells "s" secondRule.children :=
    Node.spells_word (by decide) (by decide +kernel)
  let table : NormalizationTable := ⟨⟨"units", .exposed⟩, false, [("s", "second")]⟩
  have hmissed : table.normalize "ſ" = "ſ" := by decide +kernel
  refine ⟨_, r, table, hcompile, hspells, hin, rfl, by decide +kernel, hmissed, ?_⟩
  rw [hmissed]
  decide

end Rule

end TimePhrase
