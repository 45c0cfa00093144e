import TimePhrase.Proofs.Rule.Hidden
import TimePhrase.Proofs.Rule.Openings
import TimePhrase.Proofs.Rule.Paths

/-!
# The groups of a rule

The groups of a rule are its marked elements, numbered in document order. They open in the pattern
text in that order, and what they carry is listed in the order in which they close.

* `Element.mark`  what a marked element carries
* `Phrase.Tracks`  groups that have been numbered as their elements open and listed as they close
* `tracks_of_ofNodes`  reading nodes keeps track of their groups
* `Rule.Bookkeeping`, `bookkeeping_of_compile`  the books of a compiled rule
-/

namespace TimePhrase

/-! ## What an element carries -/

namespace Element

/-- The source in the tag of an element. -/
def tagText? (e : Element) : Option Text := (e.firstElement? "tag").map fun tag => tag.text.trim

/-- What an element carries if it is marked. -/
def mark (e : Element) : Mark where
  range := (e.attribute? "repeat").bind Repeat.ofText?
  excluded := e.isLeftOut
  position := e.filledAttribute? "pos"
  tag := e.tagText?

end Element

namespace Mark

variable {ruleId : Text} {e : Element} {m : Mark}

theorem eq_of_tagOf? {tag : Option Text} (h : tagOf? ruleId e = .ok tag) : tag = e.tagText? := by
  rw [Element.tagText?, Element.firstElement?, ← List.head?_filter]
  unfold tagOf? at h
  split at h
  · rename_i hnone
    rw [hnone]
    exact (Except.ok.inj h).symm
  · rename_i t htag
    rw [htag]
    exact (Except.ok.inj h).symm
  · exact nomatch h

/-- The mark that is read is what the element carries. -/
theorem eq_mark_of_ofElement? (h : ofElement? ruleId e = .ok m) : m = e.mark := by
  obtain ⟨range, hrange, h⟩ := Except.bind_eq_ok.mp h
  obtain ⟨excluded, hexcluded, h⟩ := Except.bind_eq_ok.mp h
  obtain ⟨tag, htag, h⟩ := Except.bind_eq_ok.mp h
  obtain rfl := Except.pure_eq_ok.mp h
  rw [(of_rangeOf? hrange).1, of_excludedOf? hexcluded, eq_of_tagOf? htag]
  rfl

end Mark

namespace Phrase

variable {ruleId : Text} {fragments : Fragments}

theorem openedOf_contributed (next : Nat) (mark : Mark) (body : Phrase) :
    openedOf (contributed next mark body).toList =
      if mark.isPlain then body.opened else (next, mark, body) :: body.opened := by
  unfold contributed
  split
  · split
    · rfl
    · exact List.append_nil _
  · exact List.append_nil _

theorem groupsOf_contributed (next : Nat) (mark : Mark) (body : Phrase) :
    groupsOf (contributed next mark body).toList =
      if mark.isPlain then body.groups else body.groups ++ [(next, mark)] := by
  unfold contributed
  split
  · split
    · rfl
    · exact List.append_nil _
  · exact List.append_nil _

/-! ## Keeping track -/

/-- A group that is made of the element at a path: it carries what the element carries, and its body
    has been read from the element, with numbers above its own. -/
def IsMadeOf (ruleId : Text) (fragments : Fragments) (at? : Path → Option Element) (p : Path)
    (g : Nat × Mark × Phrase) : Prop :=
  ∃ e after, at? p = some e ∧ g.2.1 = e.mark ∧ HasBody ruleId fragments e (g.1 + 1) g.2.2 after

/-- A group that has the number of a path in a list of paths, counted from `next`. -/
def IsNumberedAs (at? : Path → Option Element) (next : Nat) (opening : List Path) (p : Path)
    (g : Nat × Mark) : Prop :=
  ∃ e i, at? p = some e ∧ g.2 = e.mark ∧ opening[i]? = some p ∧ g.1 = next + i

/-- Groups that are numbered from `next` on as their elements open, and listed as they close. -/
structure Tracks (ruleId : Text) (fragments : Fragments) (at? : Path → Option Element) (next : Nat)
    (opening closing : List Path) (opened : List (Nat × Mark × Phrase))
    (groups : List (Nat × Mark)) : Prop where
  numbers : opened.map (·.1) = List.range' next opening.length
  opened : List.Forall₂ (IsMadeOf ruleId fragments at?) opening opened
  groups : List.Forall₂ (IsNumberedAs at? next opening) closing groups

namespace Tracks

variable {at? at?' : Path → Option Element} {next : Nat} {os os' cs cs' : List Path}
  {opened opened' : List (Nat × Mark × Phrase)} {gs gs' : List (Nat × Mark)}

theorem nil (next : Nat) : Tracks ruleId fragments at? next [] [] [] [] := ⟨rfl, .nil, .nil⟩

theorem append (h : Tracks ruleId fragments at? next os cs opened gs)
    (h' : Tracks ruleId fragments at? (next + os.length) os' cs' opened' gs') :
    Tracks ruleId fragments at? next (os ++ os') (cs ++ cs') (opened ++ opened') (gs ++ gs') where
  numbers := by
    rw [List.map_append, h.numbers, h'.numbers, List.length_append]
    exact List.range'_append_1
  opened := List.rel_append h.opened h'.opened
  groups := by
    refine List.rel_append (h.groups.imp ?_) (h'.groups.imp ?_)
    · rintro p g ⟨e, i, he, hmark, hi, hnum⟩
      refine ⟨e, i, he, hmark, ?_, hnum⟩
      rw [List.getElem?_append_left (List.getElem?_eq_some_iff.mp hi).1]
      exact hi
    · rintro p g ⟨e, i, he, hmark, hi, hnum⟩
      refine ⟨e, os.length + i, he, hmark, ?_, by omega⟩
      rw [List.getElem?_append_right (by omega), Nat.add_sub_cancel_left]
      exact hi

/-- The same groups, with paths to their elements from somewhere else. -/
theorem map (f : Path → Path) (h : Tracks ruleId fragments at? next os cs opened gs)
    (hat : ∀ p e, at? p = some e → at?' (f p) = some e) :
    Tracks ruleId fragments at?' next (os.map f) (cs.map f) opened gs where
  numbers := by
    rw [List.length_map]
    exact h.numbers
  opened := by
    rw [List.forall₂_map_left_iff]
    refine h.opened.imp ?_
    rintro p g ⟨e, after, he, hmark, hbody⟩
    exact ⟨e, after, hat p e he, hmark, hbody⟩
  groups := by
    rw [List.forall₂_map_left_iff]
    refine h.groups.imp ?_
    rintro p g ⟨e, i, he, hmark, hi, hnum⟩
    refine ⟨e, i, hat p e he, hmark, ?_, hnum⟩
    rw [List.getElem?_map, hi]
    rfl

theorem lift (h : Tracks ruleId fragments at? next os cs opened gs)
    (hat : ∀ p e, at? p = some e → at?' p = some e) :
    Tracks ruleId fragments at?' next os cs opened gs := by
  have hmap : Tracks ruleId fragments at?' next (os.map id) (cs.map id) opened gs := h.map id hat
  rwa [List.map_id, List.map_id] at hmap

/-- A group around the others opens before them and closes after them. -/
theorem group {e : Element} {body : Phrase} {after : Nat} (he : at? [] = some e)
    (hbody : HasBody ruleId fragments e (next + 1) body after)
    (h : Tracks ruleId fragments at? (next + 1) os cs opened gs) :
    Tracks ruleId fragments at? next ([] :: os) (cs ++ [[]]) ((next, e.mark, body) :: opened)
      (gs ++ [(next, e.mark)]) where
  numbers := by
    rw [List.map_cons, h.numbers, List.length_cons, List.range'_succ]
  opened := .cons ⟨e, after, he, rfl, hbody⟩ h.opened
  groups := by
    refine List.rel_append (h.groups.imp ?_) (.cons ⟨e, 0, he, rfl, rfl, rfl⟩ .nil)
    rintro p g ⟨e, i, he, hmark, hi, hnum⟩
    exact ⟨e, i + 1, he, hmark, hi, by omega⟩

end Tracks

theorem opened_of_ofReference {e : Element} {body : Phrase}
    (h : ofReference ruleId fragments e = .ok body) : body.opened = [] := by
  obtain ⟨f, -, rfl⟩ := exists_of_ofReference h
  rfl

open Node (marked? marks marksOf marksInside)

/-- The body of an element keeps track of its groups if its children do. -/
theorem tracks_of_hasBody {e : Element} {body : Phrase} {first after : Nat}
    (h : HasBody ruleId fragments e first body after)
    (ih : ∀ {members : List Phrase}, ofNodes ruleId fragments e.children first = .ok (members, after) →
      after = first + (marksOf true e.children).length ∧
        Tracks ruleId fragments (marked? e.children) first (marksOf true e.children)
          (marksOf false e.children) (openedOf members) (groupsOf members)) :
    after = first + (marksInside true e).length ∧
      Tracks ruleId fragments (fun q => marked? [e.toNode] (0 :: q)) first (marksInside true e)
        (marksInside false e) body.opened body.groups := by
  -- Items and choices lead to the elements inside of them.
  have hlift (hname : e.name = ("item" : Text) ∨ e.name = ("one-of" : Text)) (q : Path) (c : Element)
      (hc : marked? e.children q = some c) : marked? [e.toNode] (0 :: q) = some c := by
    have hq : q ≠ [] := by
      rintro rfl
      exact nomatch hc
    exact (Node.marked?_inside hq).trans ((if_pos hname).trans hc)
  have hinside (opening : Bool) (hname : e.name = ("item" : Text) ∨ e.name = ("one-of" : Text)) :
      marksInside opening e = marksOf opening e.children := if_pos hname
  cases h with
  | reference hname hbody =>
    have hnone (opening : Bool) : marksInside opening e = [] := by
      refine if_neg ?_
      rw [hname]
      decide
    rw [hnone, hnone, opened_of_ofReference hbody, groups_of_ofReference hbody]
    exact ⟨rfl, .nil first⟩
  | item hname hmembers =>
    obtain ⟨hafter, htrack⟩ := ih hmembers
    rw [hinside true (.inl hname), hinside false (.inl hname)]
    exact ⟨hafter, htrack.lift (hlift (.inl hname))⟩
  | oneOf hname _ hmembers =>
    obtain ⟨hafter, htrack⟩ := ih hmembers
    rw [hinside true (.inr hname), hinside false (.inr hname)]
    exact ⟨hafter, htrack.lift (hlift (.inr hname))⟩

mutual

/-- Reading a node keeps track of its groups. -/
theorem tracks_of_ofNode {n : Node} {next after : Nat} {p : Option Phrase}
    (h : ofNode ruleId fragments n next = .ok (p, after)) :
    after = next + (n.marks true).length ∧
      Tracks ruleId fragments (fun q => marked? [n] (0 :: q)) next (n.marks true) (n.marks false)
        (openedOf p.toList) (groupsOf p.toList) := by
  match n with
  | .text content =>
    obtain ⟨rfl, rfl⟩ := Prod.mk.inj (Except.ok.inj h)
    unfold ofText?
    split <;> exact ⟨rfl, .nil next⟩
  | .element name attributes children =>
    rcases exists_of_ofNode h with ⟨hname, rfl, rfl⟩ | ⟨hname, mark, body, hmark, hbody, rfl⟩
    · have hnone (opening : Bool) : marks opening (.element name attributes children) = [] :=
        Node.marks_of_not_structural (e := ⟨name, attributes, children⟩) hname
      rw [hnone, hnone]
      exact ⟨rfl, .nil after⟩
    · obtain ⟨hafter, htrack⟩ := tracks_of_hasBody hbody tracks_of_ofNodes
      have hplain := (Mark.of_ofElement? hmark).2
      rw [openedOf_contributed, groupsOf_contributed]
      cases hmarked : Element.isMarked ⟨name, attributes, children⟩ with
      | false =>
        have hmarks (opening : Bool) : marks opening (.element name attributes children) =
            marksInside opening ⟨name, attributes, children⟩ :=
          Node.marks_of_not_marked hmarked
        rw [hplain, hmarked] at hafter htrack ⊢
        rw [hmarks, hmarks]
        exact ⟨hafter, htrack⟩
      | true =>
        have hmarks (opening : Bool) : marks opening (.element name attributes children) =
            if opening then [] :: marksInside opening ⟨name, attributes, children⟩
            else marksInside opening ⟨name, attributes, children⟩ ++ [[]] :=
          Node.marks_of_marked hname hmarked
        rw [hplain, hmarked] at hafter htrack hbody ⊢
        rw [hmarks, hmarks]
        obtain rfl := Mark.eq_mark_of_ofElement? hmark
        refine ⟨?_, Tracks.group ?_ hbody htrack⟩
        · simp only [if_true, List.length_cons]
          simp at hafter
          omega
        · rw [Node.marked?_self, hname, hmarked]
          rfl

/-- So does reading the nodes of a list. -/
theorem tracks_of_ofNodes {ns : List Node} {next after : Nat} {ps : List Phrase}
    (h : ofNodes ruleId fragments ns next = .ok (ps, after)) :
    after = next + (marksOf true ns).length ∧
      Tracks ruleId fragments (marked? ns) next (marksOf true ns) (marksOf false ns)
        (openedOf ps) (groupsOf ps) := by
  match ns with
  | [] =>
    obtain ⟨rfl, rfl⟩ := Prod.mk.inj (Except.ok.inj h)
    exact ⟨rfl, .nil next⟩
  | n :: r =>
    obtain ⟨p, mid, qs, hp, hqs, rfl⟩ := exists_of_ofNodes_cons h
    obtain ⟨rfl, htrack⟩ := tracks_of_ofNode hp
    obtain ⟨rfl, hrest⟩ := tracks_of_ofNodes hqs
    rw [openedOf_append, groupsOf_append]
    refine ⟨?_, ?_⟩
    · simp only [marksOf, List.length_append, List.length_map]
      omega
    · have hfirst := htrack.map (0 :: ·) fun q e (he : marked? (n :: r) (0 :: q) = some e) => he
      have hshift (q : Path) (e : Element) (he : marked? r q = some e) :
          marked? (n :: r) q.shift = some e :=
        (Node.marked?_shift n r q).trans he
      have hothers := hrest.map Path.shift hshift
      have hcount : ((marks true n).map (0 :: ·)).length = (marks true n).length := List.length_map _
      rw [← hcount] at hothers
      exact hfirst.append hothers

end

/-- Listed with the numbers of their elements, the groups are what the elements carry. -/
theorem groups_eq_of_isNumberedAs {at? : Path → Option Element} {opening closing : List Path}
    {groups : List (Nat × Mark)} (hnodup : opening.Nodup)
    (h : List.Forall₂ (IsNumberedAs at? 0 opening) closing groups) :
    groups = closing.filterMap fun p => (at? p).map fun e => (opening.idxOf p, e.mark) := by
  induction h with
  | nil => rfl
  | @cons p g closing groups hg _ ih =>
    obtain ⟨e, i, he, hmark, hi, hnum⟩ := hg
    obtain ⟨hlt, hget⟩ := List.getElem?_eq_some_iff.mp hi
    have hidx : opening.idxOf p = i := by
      rw [← hget]
      exact hnodup.idxOf_getElem i hlt
    have hhead : (opening.idxOf p, e.mark) = g := by
      rw [hidx, ← hmark]
      exact Prod.ext (by omega) rfl
    simp only [List.filterMap_cons, he, Option.map_some, hhead, ← ih]

/-- What is said of the groups is said of the elements, in the order in which they close. -/
theorem filterMap_groups {α : Type} {at? : Path → Option Element} {opening closing : List Path}
    {groups : List (Nat × Mark)}
    (h : groups = closing.filterMap fun p => (at? p).map fun e => (opening.idxOf p, e.mark))
    (f : Nat × Mark → Option α) :
    groups.filterMap f = closing.filterMap fun p =>
      (at? p).bind fun e => f (opening.idxOf p, e.mark) := by
  rw [h, List.filterMap_filterMap]
  apply List.filterMap_congr
  intro p _
  cases at? p <;> rfl

theorem excluded_eq_filterMap (p : Phrase) :
    p.excluded = p.groups.filterMap fun g => if g.2.excluded then some g.1 else none := by
  rw [excluded, ← List.filterMap_eq_map, List.filterMap_filter]
  rfl

end Phrase

namespace Rule

open Node (marked? marksOf)

/-! ## The books of a rule -/

/-- What a rule has kept of the marked elements in the element it is compiled from, whose paths are
    listed as they open and as they close. -/
structure Bookkeeping (fragments : Fragments) (e : Element) (r : Rule)
    (opening closing : List Path) : Prop where
  /-- The paths lead to the marked elements. -/
  marked : ∀ p, p ∈ opening ↔ (marked? e.children p).isSome = true
  /-- They open in document order, an element before those inside it. -/
  opensInOrder : opening.Pairwise (· < ·)
  /-- They close in an order in which an element comes after those inside it. -/
  closesInOrder : closing.Pairwise Path.ClosesBefore
  closes : closing.Perm opening
  /-- The groups open in the pattern text in the order of their numbers. -/
  openings : Pattern.openings r.expression = (List.range opening.length).map Part.name
  /-- The elements are numbered from zero on, as they open. -/
  numbers : r.phrase.opened.map (·.1) = List.range opening.length
  /-- Each group carries what its element carries and has been read from it. -/
  made : List.Forall₂ (Phrase.IsMadeOf r.id fragments (marked? e.children)) opening r.phrase.opened
  count : r.phrase.groups.length = opening.length
  /-- The groups that are left out are those of the elements that are left out. -/
  excluded : r.phrase.excluded = closing.filterMap fun p =>
    (marked? e.children p).bind fun c => if c.isLeftOut then some (opening.idxOf p) else none
  /-- The sources of scripts stand in the tags of the elements. -/
  tags : r.phrase.tags = closing.filterMap fun p =>
    (marked? e.children p).bind fun c => c.tagText?.map (opening.idxOf p, ·)
  /-- The parts of speech are those that the elements ask for. -/
  positions : r.phrase.positions = closing.filterMap fun p =>
    (marked? e.children p).bind fun c => (c.filledAttribute? "pos").map (opening.idxOf p, ·)
  nodup_excluded : r.phrase.excluded.Nodup
  nodup_tags : (r.phrase.tags.map Prod.fst).Nodup
  nodup_positions : (r.phrase.positions.map Prod.fst).Nodup

/-- The books of a rule are exact, whatever its words and attributes hold, if no fragment opens a
    group of its own. -/
theorem bookkeeping_of_compile [PropertyTable] {fragments : Fragments} {caseSensitive : Bool}
    {scripts scripts' : Registry} {e : Element} {r : Rule}
    (h : compile fragments caseSensitive scripts e = (scripts', .ok r))
    (hfragments : ∀ f ∈ fragments, ¬ ("(?P<" : Text) <:+: f.expression) :
    ∃ opening closing, Bookkeeping fragments e r opening closing := by
  have hphrase := (isReadFrom_of_ofElement? (compile_eq_ok.mp h).1).phrase
  obtain ⟨members, after, hmembers, -, hsequence⟩ := Phrase.exists_of_ofChildren hphrase
  obtain ⟨-, htrack⟩ := Phrase.tracks_of_ofNodes hmembers
  have hopened : r.phrase.opened = Phrase.openedOf members := congrArg Phrase.opened hsequence
  have hgroups : r.phrase.groups = Phrase.groupsOf members := congrArg Phrase.groups hsequence
  rw [← hopened, ← hgroups] at htrack
  have hnumbers : r.phrase.opened.map (·.1) = List.range (marksOf true e.children).length := by
    rw [htrack.numbers, List.range_eq_range']
  have heq := Phrase.groups_eq_of_isNumberedAs (Node.nodup_marksOf_opening e.children) htrack.groups
  have hnodup := Phrase.nodup_groups hphrase
  refine ⟨marksOf true e.children, marksOf false e.children, ?_⟩
  exact {
    marked := Node.mem_marksOf true e.children
    opensInOrder := Node.pairwise_marksOf_opening e.children
    closesInOrder := Node.pairwise_marksOf_closing e.children
    closes := Node.marksOf_closing_perm e.children
    openings := by
      have hnames : (r.phrase.opened.map fun g => Part.name g.1) =
          (r.phrase.opened.map (·.1)).map Part.name := by
        rw [List.map_map]
        rfl
      rw [expression, Phrase.openings_expression hphrase hfragments, hnames, hnumbers]
    numbers := hnumbers
    made := htrack.opened
    count := by
      rw [← htrack.groups.length_eq]
      exact (Node.marksOf_closing_perm e.children).length_eq
    excluded := (Phrase.excluded_eq_filterMap r.phrase).trans (Phrase.filterMap_groups heq _)
    tags := Phrase.filterMap_groups heq _
    positions := Phrase.filterMap_groups heq _
    nodup_excluded := hnodup.sublist (List.filter_sublist.map _)
    nodup_tags := Phrase.nodup_tags hphrase
    nodup_positions := hnodup.sublist (Phrase.map_fst_filterMap_sublist Mark.position _) }

/-- The beginnings of some days. -/
def dayFragment : Fragment := ⟨⟨"day", .hidden⟩, "mon|tues"⟩

/-- A rule with groups inside of groups, a word that looks like a group and an element that does not
    contribute. -/
def booksRule : Element :=
  ⟨"rule", .ofList [("id", "books"), ("type", "date"), ("example", "next (?P<Part0> monday")],
    [.element "item" (.ofList [("repeat", "1-2")])
      [.text "next", .element "tag" .empty [.text " timex[\"a\"] = value "],
      .element "item" (.ofList [("include", "FALSE")]) [.text "(?P<Part0>"]],
    .element "note" .empty [.element "item" (.ofList [("pos", "verb")]) [.text "on"]],
    .element "one-of" (.ofList [("pos", " noun ")])
      [.element "ruleref" (.ofList [("uri", "#day"), ("include", "false")])
        [.element "tag" .empty [.text "timex[\"b\"] = value"]]],
    .text "day"]⟩

/-- The words open no group, and neither does what stands in the other element. -/
theorem bookkeeping_of_compile_booksRule : ∃ scripts r,
    compile [dayFragment] true .empty booksRule = (scripts, .ok r) ∧
    (∀ f ∈ [dayFragment], ¬ ("(?P<" : Text) <:+: f.expression) ∧
    (∃ opening closing, Bookkeeping [dayFragment] booksRule r opening closing) ∧
    Pattern.openings r.expression = ["Part0", "Part1", "Part2", "Part3"] ∧
    r.phrase.excluded = [1, 3] ∧
    r.phrase.tags = [(0, ("timex[\"a\"] = value" : Text)), (3, "timex[\"b\"] = value")] ∧
    r.phrase.positions = [(2, ("noun" : Text))] := by
  have hrun : (compile [dayFragment] true .empty booksRule).2.toOption.map (fun r =>
      ((Pattern.openings r.expression, r.phrase.excluded), r.phrase.tags, r.phrase.positions)) =
      some (([("Part0" : Text), "Part1", "Part2", "Part3"], [1, 3]),
        [(0, ("timex[\"a\"] = value" : Text)), (3, "timex[\"b\"] = value")],
        [(2, ("noun" : Text))]) := by
    decide +kernel
  obtain ⟨r, hr, hrun⟩ := Option.map_eq_some_iff.mp hrun
  obtain ⟨hparts, hlists⟩ := Prod.mk.inj hrun
  obtain ⟨hopenings, hexcluded⟩ := Prod.mk.inj hparts
  obtain ⟨htags, hpositions⟩ := Prod.mk.inj hlists
  have hcompile : compile [dayFragment] true .empty booksRule =
      ((compile [dayFragment] true .empty booksRule).1, .ok r) := by
    rw [← Except.eq_ok_of_toOption hr]
  have hfragments : ∀ f ∈ [dayFragment], ¬ ("(?P<" : Text) <:+: f.expression := by decide
  exact ⟨_, r, hcompile, hfragments, bookkeeping_of_compile hcompile hfragments, hopenings,
    hexcluded, htags, hpositions⟩

end Rule

end TimePhrase
