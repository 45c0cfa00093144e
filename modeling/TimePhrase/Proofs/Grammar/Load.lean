import TimePhrase.Grammar.Basic
import TimePhrase.Proofs.Rule.Scripts

/-!
# What a loaded grammar holds

A grammar is loaded if no element is faulty. Then its rules are those read from the rule elements,
one for each, in document order, no two of them share an id, and each finds its own scripts in the
registry. The other way round, these conditions are all that loading the rules needs.

* `of_readRules`  what has been read when no fault was reported
* `exists_readRules`  when no fault is reported
* `isSound_of_load`, `reads_of_load`  the rules of a loaded grammar and their scripts
-/

namespace TimePhrase

namespace Element

/-- Whether the element declares a rule of one of the two sorts. -/
def declares (negative : Bool) (e : Element) : Bool :=
  e.name == if negative then ("negative_rule" : Text) else ("rule" : Text)

/-- Whether the element declares a rule of either sort. -/
def declaresRule (e : Element) : Bool := e.declares false || e.declares true

theorem declares_iff {negative : Bool} {e : Element} : e.declares negative = true ↔
    e.name = if negative then ("negative_rule" : Text) else ("rule" : Text) := by
  rw [declares, beq_iff_eq]

/-- No element declares rules of both sorts. -/
theorem not_declares_both {e : Element} (h : e.declares false = true) :
    ¬ e.declares true = true := by
  have hdiff : ("rule" : Text) ≠ ("negative_rule" : Text) := by decide
  rw [declares_iff, if_neg Bool.false_ne_true] at h
  rw [declares_iff, if_pos rfl, h]
  exact hdiff

end Element

namespace RuleBook

/-! ## One more rule -/

/-- The book with one more rule of one of the two sorts. -/
def withRule (b : RuleBook) (negative : Bool) (scripts : Registry) (r : Rule) : RuleBook :=
  if negative then { b with scripts := scripts, negativeRules := b.negativeRules ++ [r] }
  else { b with scripts := scripts, rules := b.rules ++ [r] }

@[simp] theorem scripts_withRule (b : RuleBook) (negative : Bool) (scripts : Registry) (r : Rule) :
    (b.withRule negative scripts r).scripts = scripts := by
  cases negative <;> rfl

theorem all_withRule (b : RuleBook) (negative : Bool) (scripts : Registry) (r : Rule) :
    (b.withRule negative scripts r).all.Perm (r :: b.all) := by
  cases negative with
  | false =>
    have hmove : (b.rules ++ [r] ++ b.negativeRules).Perm (r :: (b.rules ++ b.negativeRules)) := by
      rw [List.append_assoc]
      exact List.perm_middle
    exact hmove
  | true =>
    have hmove : (b.rules ++ (b.negativeRules ++ [r])).Perm (r :: (b.rules ++ b.negativeRules)) := by
      rw [← List.append_assoc]
      exact List.perm_append_singleton r _
    exact hmove

theorem get?_eq_none {b : RuleBook} {id : Text} : b.get? id = none ↔ id ∉ b.all.map Rule.id := by
  rw [get?, List.find?_eq_none]
  simp only [beq_iff_eq, List.mem_map, not_exists, not_and]

/-- An element that declares a rule is taken over if it is one and its id is new. -/
theorem add_of_declares [PropertyTable] {b b' : RuleBook} {fragments : Fragments}
    {caseSensitive negative : Bool} {e : Element} (he : e.declares negative = true) :
    b.add fragments caseSensitive e = (b', none) ↔
      ∃ scripts r, Rule.compile fragments caseSensitive b.scripts e = (scripts, .ok r) ∧
        b.get? r.id = none ∧ b' = b.withRule negative scripts r := by
  have hadd : b.add fragments caseSensitive e = b.addRule fragments caseSensitive negative e := by
    rw [Element.declares_iff] at he
    have hdiff : ("negative_rule" : Text) ≠ ("rule" : Text) := by decide
    cases negative with
    | false =>
      rw [if_neg Bool.false_ne_true] at he
      rw [add, if_pos he]
    | true =>
      rw [if_pos rfl] at he
      rw [add, if_neg (by rw [he]; exact hdiff), if_pos he]
  rw [hadd, addRule]
  rcases Rule.compile fragments caseSensitive b.scripts e with ⟨scripts, err | r⟩
  · simp
  · simp only [Prod.mk.injEq, Except.ok.injEq]
    cases hget : b.get? r.id with
    | some r' =>
      simp only [Option.isSome_some, if_true, Prod.mk.injEq, reduceCtorEq, and_false, false_iff]
      rintro ⟨_, _, ⟨rfl, rfl⟩, hnone, -⟩
      rw [hget] at hnone
      exact nomatch hnone
    | none =>
      simp only [Option.isSome_none, Bool.false_eq_true, if_false]
      have hbook : (if negative = true then
          ({ b with scripts := scripts, negativeRules := b.negativeRules ++ [r] }, none)
          else ({ b with scripts := scripts, rules := b.rules ++ [r] },
            (none : Option LoadError))) = (b.withRule negative scripts r, none) := by
        cases negative <;> rfl
      rw [hbook, Prod.mk.injEq, eq_self_iff_true, and_true]
      constructor
      · rintro rfl
        exact ⟨scripts, r, ⟨rfl, rfl⟩, hget, rfl⟩
      · rintro ⟨_, _, ⟨rfl, rfl⟩, -, rfl⟩
        rfl

theorem add_of_not_declaresRule [PropertyTable] {b : RuleBook} {fragments : Fragments}
    {caseSensitive : Bool} {e : Element} (he : e.declaresRule = false) :
    b.add fragments caseSensitive e = (b, none) := by
  rw [Element.declaresRule, Bool.or_eq_false_iff] at he
  have hrule : e.name ≠ ("rule" : Text) := ne_of_beq_false he.1
  have hnegative : e.name ≠ ("negative_rule" : Text) := ne_of_beq_false he.2
  rw [add, if_neg hrule, if_neg hnegative]

/-! ## Sound books -/

/-- No two rules share an id, and every rule finds the scripts of its own tags, for which it has not
    looked yet. -/
structure IsSound (b : RuleBook) : Prop where
  nodup : (b.all.map Rule.id).Nodup
  keeps : ∀ r ∈ b.all, Rule.Keeps b.scripts r
  unasked : ∀ r ∈ b.all, r.actions = none

theorem isSound_empty : IsSound .empty where
  nodup := List.nodup_nil
  keeps _ hr := absurd hr List.not_mem_nil
  unasked _ hr := absurd hr List.not_mem_nil

/-- The rules of a sound book find the scripts of their own tags. -/
theorem IsSound.isSettled {b : RuleBook} (hb : b.IsSound) {r : Rule} (hr : r ∈ b.all) :
    r.IsSettled b.scripts where
  keeps := hb.keeps r hr
  actions actions hactions := by
    rw [hb.unasked r hr] at hactions
    exact absurd hactions (Option.not_mem_none actions)

/-- A compiled rule with a new id leaves the book sound. -/
theorem IsSound.withRule [PropertyTable] {b : RuleBook} (hb : b.IsSound) {fragments : Fragments}
    {caseSensitive : Bool} {e : Element} {scripts : Registry} {r : Rule}
    (hr : Rule.compile fragments caseSensitive b.scripts e = (scripts, .ok r))
    (hid : b.get? r.id = none) (negative : Bool) : (b.withRule negative scripts r).IsSound := by
  obtain ⟨hread, hregister⟩ := Rule.compile_eq_ok.mp hr
  have hfrom := Rule.isReadFrom_of_ofElement? hread
  have hall := b.all_withRule negative scripts r
  rw [get?_eq_none] at hid
  constructor
  · rw [(hall.map Rule.id).nodup_iff, List.map_cons, List.nodup_cons]
    exact ⟨hid, hb.nodup⟩
  · rw [scripts_withRule]
    intro q hq
    rcases List.mem_cons.mp (hall.mem_iff.mp hq) with rfl | hq
    · exact Rule.keeps_of_registerScripts hregister (Phrase.nodup_tags hfrom.phrase)
    · -- The scripts of an earlier rule have another id.
      intro t ht
      obtain ⟨s, hs, hget⟩ := hb.keeps q hq t ht
      refine ⟨s, hs, ?_⟩
      rw [Rule.get?_of_registerScripts hregister, hget]
      intro u _ heq
      rw [heq] at hid
      exact absurd (List.mem_map_of_mem hq) hid
  · intro q hq
    rcases List.mem_cons.mp (hall.mem_iff.mp hq) with rfl | hq
    · exact hfrom.actions
    · exact hb.unasked q hq

end RuleBook

namespace Grammar

/-! ## All rules -/

/-- The rules that are read from elements, one for each. -/
abbrev Reads [PropertyTable] (fragments : Fragments) (caseSensitive : Bool) (es : List Element)
    (rs : List Rule) :
    Prop :=
  List.Forall₂ (fun e r => Rule.ofElement? fragments caseSensitive e = .ok r) es rs

variable {fragments : Fragments} {caseSensitive : Bool} {b b' : RuleBook} {es : List Element}

theorem readRules_cons [PropertyTable] {e : Element} :
    readRules fragments caseSensitive b (e :: es) = (b', []) ↔
      ∃ b₁, b.add fragments caseSensitive e = (b₁, none) ∧
        readRules fragments caseSensitive b₁ es = (b', []) := by
  simp only [readRules]
  rcases b.add fragments caseSensitive e with ⟨b₁, err⟩
  cases err with
  | none => simp [Prod.ext_iff]
  | some err => simp

/-- The rules read from elements when no fault has been reported. -/
theorem of_readRules [PropertyTable] (h : readRules fragments caseSensitive b es = (b', []))
    (hb : b.IsSound) :
    b'.IsSound ∧ ∃ rs ns, Reads fragments caseSensitive (es.filter (·.declares false)) rs ∧
      Reads fragments caseSensitive (es.filter (·.declares true)) ns ∧
      b'.rules = b.rules ++ rs ∧ b'.negativeRules = b.negativeRules ++ ns := by
  induction es generalizing b with
  | nil =>
    obtain rfl := (Prod.mk.inj h).1
    exact ⟨hb, [], [], List.Forall₂.nil, List.Forall₂.nil, by simp, by simp⟩
  | cons e es ih =>
    obtain ⟨b₁, hadd, h⟩ := readRules_cons.mp h
    by_cases hpos : e.declares false = true
    · obtain ⟨scripts, r, hr, hid, rfl⟩ := (RuleBook.add_of_declares hpos).mp hadd
      obtain ⟨hsound, rs, ns, hrs, hns, hrules, hnegatives⟩ := ih h (hb.withRule hr hid false)
      refine ⟨hsound, r :: rs, ns, ?_, ?_, ?_, hnegatives⟩
      · rw [List.filter_cons_of_pos hpos]
        exact List.Forall₂.cons (Rule.compile_eq_ok.mp hr).1 hrs
      · rw [List.filter_cons_of_neg (Element.not_declares_both hpos)]
        exact hns
      · rw [hrules]
        exact List.append_cons b.rules r rs ▸ rfl
    · by_cases hneg : e.declares true = true
      · obtain ⟨scripts, r, hr, hid, rfl⟩ := (RuleBook.add_of_declares hneg).mp hadd
        obtain ⟨hsound, rs, ns, hrs, hns, hrules, hnegatives⟩ := ih h (hb.withRule hr hid true)
        refine ⟨hsound, rs, r :: ns, ?_, ?_, hrules, ?_⟩
        · rw [List.filter_cons_of_neg hpos]
          exact hrs
        · rw [List.filter_cons_of_pos hneg]
          exact List.Forall₂.cons (Rule.compile_eq_ok.mp hr).1 hns
        · rw [hnegatives]
          exact List.append_cons b.negativeRules r ns ▸ rfl
      · -- The element declares no rule.
        have hnone : e.declaresRule = false := by
          simp [Element.declaresRule, hpos, hneg]
        rw [RuleBook.add_of_not_declaresRule hnone] at hadd
        obtain rfl := (Prod.mk.inj hadd).1
        rw [List.filter_cons_of_neg hpos, List.filter_cons_of_neg hneg]
        exact ih h hb

/-- Rules that can be read, with scripts that compile and ids of their own, are read without a
    fault. -/
theorem exists_readRules [PropertyTable] {rs ns : List Rule}
    (hrs : Reads fragments caseSensitive (es.filter (·.declares false)) rs)
    (hns : Reads fragments caseSensitive (es.filter (·.declares true)) ns)
    (hnodup : ((b.all ++ (rs ++ ns)).map Rule.id).Nodup)
    (hscripts : ∀ r ∈ rs ++ ns, ∀ t ∈ r.phrase.tags, ∃ s,
      TagScript.compile r.id (Part.name t.1) t.2 = .ok s) :
    ∃ b', readRules fragments caseSensitive b es = (b', []) := by
  induction es generalizing b rs ns with
  | nil => exact ⟨b, rfl⟩
  | cons e es ih =>
    -- A rule at the front can be added, and then the others can be read.
    have step {negative : Bool} {r : Rule} {rs' ns' : List Rule} (he : e.declares negative = true)
        (hr : Rule.ofElement? fragments caseSensitive e = .ok r)
        (hrs' : Reads fragments caseSensitive (es.filter (·.declares false)) rs')
        (hns' : Reads fragments caseSensitive (es.filter (·.declares true)) ns')
        (hperm : (rs ++ ns).Perm (r :: (rs' ++ ns'))) :
        ∃ b', readRules fragments caseSensitive b (e :: es) = (b', []) := by
      have hmem : r ∈ rs ++ ns := hperm.mem_iff.mpr List.mem_cons_self
      obtain ⟨scripts, hregister⟩ := Rule.exists_registerScripts (hscripts r hmem) b.scripts
      have hcompile := Rule.compile_eq_ok.mpr ⟨hr, hregister⟩
      -- The ids are those of the book with the rule and of the others.
      have hmoved : (b.all ++ (rs ++ ns)).Perm (r :: b.all ++ (rs' ++ ns')) :=
        (hperm.append_left b.all).trans List.perm_middle
      have hids := (hmoved.map Rule.id).nodup_iff.mp hnodup
      have hid : b.get? r.id = none := by
        rw [RuleBook.get?_eq_none]
        rw [List.cons_append, List.map_cons, List.nodup_cons, List.map_append, List.mem_append,
          not_or] at hids
        exact hids.1.1
      have hbook := (RuleBook.add_of_declares he).mpr ⟨scripts, r, hcompile, hid, rfl⟩
      have hall := ((b.all_withRule negative scripts r).append_right (rs' ++ ns')).map Rule.id
      obtain ⟨b', hb'⟩ := ih hrs' hns' (hall.nodup_iff.mpr hids) fun q hq =>
        hscripts q (hperm.mem_iff.mpr (List.mem_cons_of_mem r hq))
      exact ⟨b', readRules_cons.mpr ⟨_, hbook, hb'⟩⟩
    by_cases hpos : e.declares false = true
    · rw [List.filter_cons_of_pos hpos] at hrs
      rw [List.filter_cons_of_neg (Element.not_declares_both hpos)] at hns
      obtain ⟨r, rs', hr, hrs', rfl⟩ := List.forall₂_cons_left_iff.mp hrs
      exact step hpos hr hrs' hns (List.Perm.refl _)
    · rw [List.filter_cons_of_neg hpos] at hrs
      by_cases hneg : e.declares true = true
      · rw [List.filter_cons_of_pos hneg] at hns
        obtain ⟨r, ns', hr, hns', rfl⟩ := List.forall₂_cons_left_iff.mp hns
        exact step hneg hr hrs hns' List.perm_middle
      · rw [List.filter_cons_of_neg hneg] at hns
        have hnone : e.declaresRule = false := by
          simp [Element.declaresRule, hpos, hneg]
        obtain ⟨b', hb'⟩ := ih hrs hns hnodup hscripts
        exact ⟨b', readRules_cons.mpr ⟨b, RuleBook.add_of_not_declaresRule hnone, hb'⟩⟩

/-! ## Whole grammars -/

/-- A grammar is loaded if neither its resources nor its rules are faulty. -/
theorem load_eq_ok [PropertyTable] {root : Element} {g : Grammar} :
    load caseSensitive root = .ok g ↔
      g.caseSensitive = caseSensitive ∧
      readResources caseSensitive .empty root.elements = (g.resources, []) ∧
      readRules g.resources.fragments caseSensitive .empty root.elements = (g.book, []) := by
  unfold load
  rcases readResources caseSensitive .empty root.elements with ⟨resources, faults⟩
  rcases hrules : readRules resources.fragments caseSensitive .empty root.elements with
    ⟨book, ruleFaults⟩
  simp only [hrules]
  split
  · rename_i hnil
    obtain ⟨rfl, rfl⟩ := List.append_eq_nil_iff.mp hnil
    rw [Except.ok.injEq]
    constructor
    · rintro rfl
      exact ⟨rfl, rfl, hrules⟩
    · rintro ⟨rfl, hres, hbook⟩
      obtain rfl := (Prod.mk.inj hres).1
      rw [hrules] at hbook
      obtain rfl := (Prod.mk.inj hbook).1
      rfl
  · rename_i hne
    simp only [reduceCtorEq, false_iff]
    rintro ⟨-, hres, hbook⟩
    obtain ⟨rfl, rfl⟩ := Prod.mk.inj hres
    rw [hrules] at hbook
    obtain ⟨-, rfl⟩ := Prod.mk.inj hbook
    exact hne rfl

/-- In a loaded grammar every rule finds the scripts of its own tags. -/
theorem isSound_of_load [PropertyTable] {root : Element} {g : Grammar}
    (h : load caseSensitive root = .ok g) :
    g.book.IsSound := by
  obtain ⟨-, -, hrules⟩ := load_eq_ok.mp h
  exact (of_readRules hrules RuleBook.isSound_empty).1

/-- The rules of a loaded grammar are read from the elements that declare them. -/
theorem reads_of_load [PropertyTable] {root : Element} {g : Grammar}
    (h : load caseSensitive root = .ok g) :
    Reads g.resources.fragments caseSensitive (root.elements.filter (·.declares false))
      g.book.rules ∧
    Reads g.resources.fragments caseSensitive (root.elements.filter (·.declares true))
      g.book.negativeRules := by
  obtain ⟨-, -, hread⟩ := load_eq_ok.mp h
  obtain ⟨-, rs, ns, hrs, hns, hrules, hnegatives⟩ := of_readRules hread RuleBook.isSound_empty
  rw [hrules, hnegatives]
  exact ⟨hrs, hns⟩

end Grammar

end TimePhrase
