import TimePhrase.Proofs.Document.Severed
import TimePhrase.Proofs.Rule.Hidden
import TimePhrase.Proofs.Rule.Scripts

/-!
# Rules with a severed run of text

A run of text that is severed makes a difference to a rule if its words are taken from there and
there are words on both sides: then the two parts are phrases of their own. Anywhere else the same
rule is read. The groups of the rule and their scripts are the same in any case.

* `Phrase.ofNodes_eq_of_severedAt`  where a severed run makes no difference
* `Phrase.severedIn_of_ofNodes`  the difference that it makes
* `Rule.ofElement?_eq_of_severedAt`, `Rule.severedIn_of_ofElement?`  the same for rules
-/

namespace TimePhrase

/-! ## Words -/

namespace Text

variable {s t : Text} {c d : Char}

theorem words_cons_of_isBlank (hc : TimePhrase.isBlank c = true) (s : Text) :
    words (c :: s) = words s := by
  rw [words.eq_def]
  exact if_pos hc

theorem words_last (hc : TimePhrase.isBlank c = false) (hd : TimePhrase.isBlank d = true)
    (s : Text) : words (c :: d :: s) = [c] :: words (d :: s) := by
  rw [words, hc, if_neg Bool.false_ne_true]
  exact if_pos hd

theorem words_inside (hc : TimePhrase.isBlank c = false) (hd : TimePhrase.isBlank d = false)
    (s : Text) : words (c :: d :: s) = consFirst c (words (d :: s)) := by
  rw [words, hc, if_neg Bool.false_ne_true]
  exact if_neg (by rw [hd]; exact Bool.false_ne_true)

theorem words_ne_nil (hc : TimePhrase.isBlank c = false) (s : Text) : words (c :: s) ≠ [] := by
  cases s with
  | nil =>
    rw [words, hc]
    exact List.cons_ne_nil _ _
  | cons d s =>
    cases hd : TimePhrase.isBlank d with
    | true =>
      rw [words_last hc hd]
      exact List.cons_ne_nil _ _
    | false =>
      rw [words_inside hc hd]
      cases words (d :: s) <;> exact List.cons_ne_nil _ _

theorem words_eq_nil_iff : s.words = [] ↔ s.isBlank = true := by
  refine ⟨fun h => ?_, words_eq_nil⟩
  induction s with
  | nil => rfl
  | cons c r ih =>
    cases hc : TimePhrase.isBlank c with
    | true =>
      rw [words_cons_of_isBlank hc] at h
      rw [isBlank, List.all_cons, hc]
      exact ih h
    | false => exact absurd h (words_ne_nil hc r)

/-- Blanks before a text add no words to it. -/
theorem words_append_of_words_left (hs : s.words = []) : (s ++ t).words = t.words := by
  induction s with
  | nil => rfl
  | cons c r ih =>
    rw [words_eq_nil_iff, isBlank, List.all_cons, Bool.and_eq_true] at hs
    rw [List.cons_append, words_cons_of_isBlank hs.1]
    exact ih (words_eq_nil_iff.mpr hs.2)

/-- Nor do blanks after it. -/
theorem words_append_of_words_right (ht : t.words = []) : (s ++ t).words = s.words := by
  induction s with
  | nil => exact ht
  | cons c r ih =>
    rw [List.cons_append]
    cases hc : TimePhrase.isBlank c with
    | true => rw [words_cons_of_isBlank hc, words_cons_of_isBlank hc, ih]
    | false =>
      cases r with
      | nil =>
        cases t with
        | nil => rfl
        | cons d t =>
          cases hd : TimePhrase.isBlank d with
          | true =>
            rw [List.nil_append, words_last hc hd, ht, words, hc]
            rfl
          | false => exact absurd ht (words_ne_nil hd t)
      | cons d r =>
        rw [List.cons_append] at ih ⊢
        cases hd : TimePhrase.isBlank d with
        | true => rw [words_last hc hd, words_last hc hd, ih]
        | false => rw [words_inside hc hd, words_inside hc hd, ih]

theorem words_append_ne_nil (hs : s.words ≠ []) : (s ++ t).words ≠ [] := by
  intro h
  rw [words_eq_nil_iff, isBlank_append, Bool.and_eq_true] at h
  exact hs (words_eq_nil h.1)

end Text

/-! ## Marks -/

namespace Element.SameButRun

variable {e e' : Element}

theorem filledAttribute?_eq (h : e.SameButRun e') (name : Text) :
    e'.filledAttribute? name = e.filledAttribute? name := by
  rw [filledAttribute?, filledAttribute?, h.attribute?_eq]

theorem flag?_eq (h : e.SameButRun e') (id attr : Text) : e'.flag? id attr = e.flag? id attr := by
  rw [flag?, flag?, h.attribute?_eq]

theorem header?_eq (h : e.SameButRun e') : e'.header? = e.header? := by
  rw [header?, header?, h.filledAttribute?_eq, h.attribute?_eq, h.name]

theorem tagOf?_eq (h : e.SameButRun e') (ruleId : Text) :
    Mark.tagOf? ruleId e' = Mark.tagOf? ruleId e := by
  have htags := SameButRun.filter (p := fun c => c.name == ("tag" : Text))
    (fun he => by rw [he.name]) h.elements
  unfold Mark.tagOf?
  generalize e.elements.filter (fun c => c.name == ("tag" : Text)) = tags at htags ⊢
  generalize e'.elements.filter (fun c => c.name == ("tag" : Text)) = tags' at htags ⊢
  match htags with
  | .nil => rfl
  | .cons htag .nil => simp only [htag.text_eq]
  | .cons _ (.cons _ _) => rfl

/-- The mark of a node does not depend on how its text is cut. -/
theorem mark_eq (h : e.SameButRun e') (ruleId : Text) :
    Mark.ofElement? ruleId e' = Mark.ofElement? ruleId e := by
  unfold Mark.ofElement? Mark.rangeOf? Mark.excludedOf?
  rw [h.tagOf?_eq, h.attribute?_eq, h.attribute?_eq, h.flag?_eq, h.filledAttribute?_eq]

end Element.SameButRun

/-! ## Phrases -/

namespace Phrase

open Node (SeveredAt)

variable {ruleId : Text} {fragments : Fragments} {path : List Text} {a b : Text}
  {ns ns' : List Node} {ps ps' : List Phrase} {next after after' : Nat}

/-- The names of elements whose own text is part of a phrase. -/
def isWorded (name : Text) : Bool := name = "item" ∨ name = "one-of"

theorem ofText?_eq_none {s : Text} (h : s.words = []) : ofText? s = none := by
  rw [ofText?, h]

theorem ofText?_eq_some {s : Text} (h : s.words ≠ []) : ofText? s = some (.words s.words) := by
  unfold ofText?
  split
  · rename_i hnil
    exact absurd hnil h
  · rfl

theorem ofText?_congr {s t : Text} (h : s.words = t.words) : ofText? s = ofText? t := by
  rw [ofText?, ofText?, h]

/-- A text comes before what the nodes after it contribute. -/
theorem ofNodes_text (t : Text) (r : List Node) (next : Nat) :
    ofNodes ruleId fragments (.text t :: r) next =
      (ofNodes ruleId fragments r next).map fun p => ((ofText? t).toList ++ p.1, p.2) := by
  simp only [ofNodes, ofNode]
  show (ofNodes ruleId fragments r next >>= fun p => pure ((ofText? t).toList ++ p.1, p.2)) = _
  cases ofNodes ruleId fragments r next <;> rfl

theorem ofReference_eq {e e' : Element} (h : e.SameButRun e') :
    ofReference ruleId fragments e' = ofReference ruleId fragments e := by
  rw [ofReference, ofReference, h.filledAttribute?_eq, h.name]

/-- Where there are no words on one of the two sides, or the text is not part of a phrase, the nodes
    are read in the same way whether the run is severed or not. -/
theorem ofNodes_eq_of_severedAt (h : SeveredAt path a b ns ns')
    (hno : a.words = [] ∨ b.words = [] ∨ ¬ ∀ n ∈ path, isWorded n = true) (next : Nat) :
    ofNodes ruleId fragments ns' next = ofNodes ruleId fragments ns next := by
  induction h generalizing next with
  | here a b r =>
    have htexts : (ofText? (a ++ b)).toList = (ofText? a).toList ++ (ofText? b).toList := by
      rcases hno with ha | hb | hpath
      · rw [ofText?_eq_none ha, ofText?_congr (Text.words_append_of_words_left ha)]
        rfl
      · rw [ofText?_eq_none hb, ofText?_congr (Text.words_append_of_words_right hb)]
        exact (List.append_nil _).symm
      · exact absurd (List.forall_mem_nil _) hpath
    rw [ofNodes_text, ofNodes_text, ofNodes_text, htexts]
    cases ofNodes ruleId fragments r next with
    | error _ => rfl
    | ok p =>
      simp only [Except.map, List.append_assoc]
  | past n _ ih =>
    simp only [ofNodes, ih hno]
  | @inside path a b children children' name attributes r h ih =>
    have hsame : (⟨name, attributes, children⟩ : Element).SameButRun ⟨name, attributes, children'⟩ :=
      ⟨rfl, rfl, .inr ⟨path, a, b, h⟩⟩
    have hchildren (first : Nat) (hname : isWorded name = true) :
        ofNodes ruleId fragments children' first = ofNodes ruleId fragments children first := by
      refine ih ?_ first
      simpa only [List.forall_mem_cons, hname, true_and] using hno
    have hnode : ofNode ruleId fragments (.element name attributes children') next =
        ofNode ruleId fragments (.element name attributes children) next := by
      simp only [ofNode, hsame.mark_eq, ofReference_eq hsame]
      by_cases hname : isWorded name = true
      · simp only [hchildren _ hname]
      · by_cases href : name = ("ruleref" : Text)
        · simp only [href, if_true]
        · have hstructural : isStructural name = false := by
            simp only [isWorded, decide_eq_true_eq, not_or] at hname
            simp only [isStructural, decide_eq_false_iff_not, not_or]
            exact ⟨hname.1, hname.2, href⟩
          simp only [hstructural, Bool.not_false, if_true]
    simp only [ofNodes, hnode]

/-- Phrases that are the same in both lists, but that the words of `a` and of `b` are phrases of their
    own in the first list and the words of both texts together are one in the second list. -/
inductive SeveredIn (a b : Text) : List Phrase → List Phrase → Prop
  | here (r : List Phrase) :
      SeveredIn a b (.words a.words :: .words b.words :: r) (.words (a ++ b).words :: r)
  | past {r r' : List Phrase} (p : Phrase) (h : SeveredIn a b r r') :
      SeveredIn a b (p :: r) (p :: r')
  | sequence {ps ps' : List Phrase} (r : List Phrase) (h : SeveredIn a b ps ps') :
      SeveredIn a b (.sequence ps :: r) (.sequence ps' :: r)
  | choice {ps ps' : List Phrase} (r : List Phrase) (h : SeveredIn a b ps ps') :
      SeveredIn a b (.choice ps :: r) (.choice ps' :: r)
  | group {body body' : Phrase} (part : Nat) (mark : Mark) (r : List Phrase)
      (h : SeveredIn a b [body] [body']) :
      SeveredIn a b (.group part mark body :: r) (.group part mark body' :: r)

theorem contributed_eq_some {body : Phrase} (hbody : body ≠ .sequence []) (next : Nat)
    (mark : Mark) :
    contributed next mark body = some (if mark.isPlain then body else .group next mark body) := by
  unfold contributed
  split
  · split
    · exact absurd rfl hbody
    · rfl
  · rfl

/-- The body of an element whose text is part of a phrase, from what is inside it. -/
def gathered (name : Text) (ps : List Phrase) : Phrase :=
  if name = "item" then .sequence ps else .choice ps

theorem gathered_ne (hps : ps ≠ []) (name : Text) : gathered name ps ≠ .sequence [] := by
  unfold gathered
  split
  · exact fun h => hps (Phrase.sequence.inj h)
  · exact nofun

/-- How an element whose text is part of a phrase is read. -/
theorem exists_of_ofNode_of_isWorded {name : Text} {attributes : Dictionary} {p : Option Phrase}
    (hname : isWorded name = true)
    (h : ofNode ruleId fragments (.element name attributes ns) next = .ok (p, after)) :
    ∃ mark qs, Mark.ofElement? ruleId ⟨name, attributes, ns⟩ = .ok mark ∧
      ofNodes ruleId fragments ns (if mark.isPlain then next else next + 1) = .ok (qs, after) ∧
      p = contributed next mark (gathered name qs) := by
  have hnames : name = ("item" : Text) ∨ name = ("one-of" : Text) := of_decide_eq_true hname
  rcases exists_of_ofNode h with ⟨hnot, -⟩ | ⟨-, mark, body, hmark, hbody, rfl⟩
  · have hstructural : isStructural name = true :=
      isStructural_iff.mpr (hnames.imp_right .inl)
    exact nomatch hstructural.symm.trans hnot
  · cases hbody with
    | reference href _ =>
      obtain rfl : name = "ruleref" := href
      exact absurd hnames (by decide)
    | item hitem hqs =>
      obtain rfl : name = "item" := hitem
      exact ⟨mark, _, hmark, hqs, rfl⟩
    | oneOf hone _ hqs =>
      obtain rfl : name = "one-of" := hone
      exact ⟨mark, _, hmark, hqs, rfl⟩

namespace SeveredIn

theorem ne_nil (h : SeveredIn a b ps ps') : ps ≠ [] ∧ ps' ≠ [] := by
  cases h <;> exact ⟨List.cons_ne_nil _ _, List.cons_ne_nil _ _⟩

theorem append_left (qs : List Phrase) (h : SeveredIn a b ps ps') :
    SeveredIn a b (qs ++ ps) (qs ++ ps') := by
  induction qs with
  | nil => exact h
  | cons q qs ih => exact .past q ih

theorem append_right (qs : List Phrase) (h : SeveredIn a b ps ps') :
    SeveredIn a b (ps ++ qs) (ps' ++ qs) := by
  induction h with
  | here r => exact .here (r ++ qs)
  | past p _ ih => exact .past p ih
  | sequence r h _ => exact .sequence (r ++ qs) h
  | choice r h _ => exact .choice (r ++ qs) h
  | group part mark r h _ => exact .group part mark (r ++ qs) h

/-- The groups are the same. -/
theorem groupsOf_eq (h : SeveredIn a b ps ps') : groupsOf ps' = groupsOf ps := by
  induction h with
  | here r => rfl
  | past p _ ih => rw [groupsOf, groupsOf, ih]
  | sequence r _ ih => rw [groupsOf, groupsOf, groups, groups, ih]
  | choice r _ ih => rw [groupsOf, groupsOf, groups, groups, ih]
  | group part mark r _ ih =>
    simp only [groupsOf, List.append_nil] at ih
    rw [groupsOf, groupsOf, groups, groups, ih]

theorem gathered (h : SeveredIn a b ps ps') (name : Text) :
    SeveredIn a b [gathered name ps] [gathered name ps'] := by
  unfold Phrase.gathered
  split
  · exact .sequence [] h
  · exact .choice [] h

/-- An element with severed words in it. -/
theorem contributed (h : SeveredIn a b ps ps') (name : Text) (next : Nat) (mark : Mark) :
    SeveredIn a b (contributed next mark (Phrase.gathered name ps)).toList
      (contributed next mark (Phrase.gathered name ps')).toList := by
  rw [contributed_eq_some (gathered_ne h.ne_nil.1 name),
    contributed_eq_some (gathered_ne h.ne_nil.2 name)]
  cases mark.isPlain with
  | true => exact h.gathered name
  | false => exact .group next mark [] (h.gathered name)

end SeveredIn

/-- Where there are words on both sides, they are phrases of their own if the run is severed. The
    groups take the same numbers. -/
theorem severedIn_of_ofNodes (h : SeveredAt path a b ns ns') (ha : a.words ≠ []) (hb : b.words ≠ [])
    (hpath : ∀ n ∈ path, isWorded n = true)
    (hps : ofNodes ruleId fragments ns next = .ok (ps, after))
    (hps' : ofNodes ruleId fragments ns' next = .ok (ps', after')) :
    after' = after ∧ SeveredIn a b ps ps' := by
  induction h generalizing next after after' ps ps' with
  | here a b r =>
    rw [ofNodes_text, ofText?_eq_some ha, ofNodes_text, ofText?_eq_some hb] at hps
    rw [ofNodes_text, ofText?_eq_some (Text.words_append_ne_nil ha)] at hps'
    cases hr : ofNodes ruleId fragments r next with
    | error _ =>
      rw [hr] at hps
      exact nomatch hps
    | ok p =>
      rw [hr] at hps hps'
      obtain ⟨rfl, rfl⟩ := Prod.mk.inj (Except.ok.inj hps)
      obtain ⟨rfl, rfl⟩ := Prod.mk.inj (Except.ok.inj hps')
      exact ⟨rfl, .here p.1⟩
  | past n _ ih =>
    obtain ⟨p, mid, qs, hp, hqs, rfl⟩ := exists_of_ofNodes_cons hps
    obtain ⟨p', mid', qs', hp', hqs', rfl⟩ := exists_of_ofNodes_cons hps'
    rw [hp] at hp'
    obtain ⟨rfl, rfl⟩ := Prod.mk.inj (Except.ok.inj hp')
    obtain ⟨rfl, hsevered⟩ := ih ha hb hpath hqs hqs'
    exact ⟨rfl, hsevered.append_left _⟩
  | @inside path a b children children' name attributes r h ih =>
    obtain ⟨p, mid, qs, hp, hqs, rfl⟩ := exists_of_ofNodes_cons hps
    obtain ⟨p', mid', qs', hp', hqs', rfl⟩ := exists_of_ofNodes_cons hps'
    obtain ⟨hname, hpath⟩ := List.forall_mem_cons.mp hpath
    obtain ⟨mark, ms, hmark, hms, rfl⟩ := exists_of_ofNode_of_isWorded hname hp
    obtain ⟨mark', ms', hmark', hms', rfl⟩ := exists_of_ofNode_of_isWorded hname hp'
    have hsame : (⟨name, attributes, children⟩ : Element).SameButRun ⟨name, attributes, children'⟩ :=
      ⟨rfl, rfl, .inr ⟨path, a, b, h⟩⟩
    rw [hsame.mark_eq, hmark] at hmark'
    obtain rfl := Except.ok.inj hmark'
    obtain ⟨rfl, hsevered⟩ := ih ha hb hpath hms hms'
    rw [hqs] at hqs'
    obtain ⟨rfl, rfl⟩ := Prod.mk.inj (Except.ok.inj hqs')
    exact ⟨rfl, (hsevered.contributed name next mark).append_right qs⟩

end Phrase

/-! ## Rules -/

namespace Rule

open Node (SeveredAt)

variable {fragments : Fragments} {caseSensitive : Bool} {path : List Text} {a b : Text}
  {e e' : Element} {r r' : Rule}

/-- Rules that are the same, but that the words of `a` and of `b` are phrases of their own in the
    first one, and so that their patterns may be different. -/
structure SeveredIn (a b : Text) (r r' : Rule) : Prop where
  header : r'.header = r.header
  kind : r'.kind = r.kind
  sample : r'.sample = r.sample
  phrase : Phrase.SeveredIn a b [r.phrase] [r'.phrase]
  groups : r'.phrase.groups = r.phrase.groups
  actions : r'.actions = r.actions

theorem ofElement?_congr [PropertyTable] (h : e.SameButRun e') (hphrase : ∀ ruleId,
    Phrase.ofChildren ruleId fragments e'.children = Phrase.ofChildren ruleId fragments e.children) :
    ofElement? fragments caseSensitive e' = ofElement? fragments caseSensitive e := by
  unfold ofElement? headerOf kindOf requiredAttribute
  simp only [h.header?_eq, h.filledAttribute?_eq, h.name, hphrase]

/-- Where there are no words on one of the two sides, or the text is not part of the phrase, the same
    rule is read. -/
theorem ofElement?_eq_of_severedAt [PropertyTable] (h : e.SameButRun e')
    (hsevered : SeveredAt path a b e.children e'.children)
    (hno : a.words = [] ∨ b.words = [] ∨ ¬ ∀ n ∈ path, Phrase.isWorded n = true) :
    ofElement? fragments caseSensitive e' = ofElement? fragments caseSensitive e := by
  refine ofElement?_congr h fun ruleId => ?_
  rw [Phrase.ofChildren, Phrase.ofChildren, Phrase.ofNodes_eq_of_severedAt hsevered hno]

/-- Otherwise the words on both sides are phrases of their own. -/
theorem severedIn_of_ofElement? [PropertyTable] (h : e.SameButRun e')
    (hsevered : SeveredAt path a b e.children e'.children) (ha : a.words ≠ []) (hb : b.words ≠ [])
    (hpath : ∀ n ∈ path, Phrase.isWorded n = true)
    (hr : ofElement? fragments caseSensitive e = .ok r)
    (hr' : ofElement? fragments caseSensitive e' = .ok r') : r.SeveredIn a b r' := by
  obtain ⟨header, kind, sample, phrase, pattern, exactPattern, hheader, hkind, hsample, hphrase, -,
    -, -, -, rfl⟩ := exists_of_ofElement? hr
  obtain ⟨header', kind', sample', phrase', pattern', exactPattern', hheader', hkind', hsample',
    hphrase', -, -, -, -, rfl⟩ := exists_of_ofElement? hr'
  have hheaders : headerOf e' = headerOf e := by
    rw [headerOf, headerOf, h.header?_eq]
  obtain rfl := Except.ok.inj (hheader'.symm.trans (hheaders.trans hheader))
  have hkinds : kindOf e' header'.id = kindOf e header'.id := by
    rw [kindOf, kindOf, requiredAttribute, requiredAttribute, h.filledAttribute?_eq, h.name]
  obtain rfl := Except.ok.inj (hkind'.symm.trans (hkinds.trans hkind))
  have hsamples : requiredAttribute e' header'.id "example" =
      requiredAttribute e header'.id "example" := by
    rw [requiredAttribute, requiredAttribute, h.filledAttribute?_eq, h.name]
  obtain rfl := Except.ok.inj (hsample'.symm.trans (hsamples.trans hsample))
  obtain ⟨members, after, hmembers, -, rfl⟩ := Phrase.exists_of_ofChildren hphrase
  obtain ⟨members', after', hmembers', -, rfl⟩ := Phrase.exists_of_ofChildren hphrase'
  obtain ⟨-, hs⟩ := Phrase.severedIn_of_ofNodes hsevered ha hb hpath hmembers hmembers'
  exact ⟨rfl, rfl, rfl, .sequence [] hs, hs.groupsOf_eq, rfl⟩

end Rule

end TimePhrase
