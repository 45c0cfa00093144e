import TimePhrase.Proofs.Rule.Language

/-!
# Paths to the marked elements of a rule

An element inside a rule has a path, which tells the position of the element among its siblings, with
that of its parent before it, and so on. The marked elements are those that become groups. They can
be listed by their paths as they open, an element before those inside it, or as they close, an
element after those inside it.

* `Node.reach?`  the element at a path, as far as items and choices lead
* `Node.marks`  the paths of marked elements, as they open or as they close
* `mem_marksOf`  these are the paths at which there is a marked element
* `pairwise_marksOf_opening`, `pairwise_marksOf_closing`  the order in which they come
-/

namespace TimePhrase

/-- The way from a list of nodes to an element: positions among siblings, the outermost one first. -/
abbrev Path := List Nat

namespace Path

/-- Whether the element at one path closes before the one at another: it lies inside of it, or both
    lie in different siblings of which its own is the earlier one. -/
def ClosesBefore : Path → Path → Prop
  | [], _ => False
  | _ :: _, [] => True
  | i :: p, j :: q => i < j ∨ i = j ∧ ClosesBefore p q

/-- The path with one more sibling before all it leads through. -/
def shift (p : Path) : Path := p.modifyHead (· + 1)

theorem not_closesBefore_self (p : Path) : ¬ ClosesBefore p p := by
  induction p with
  | nil => exact id
  | cons i p ih =>
    intro h
    rcases h with h | ⟨-, h⟩
    · omega
    · exact ih h

theorem shift_lt_shift {p q : Path} (h : p < q) : shift p < shift q := by
  cases h with
  | nil => exact List.Lex.nil
  | cons h => exact List.Lex.cons h
  | rel h => exact List.Lex.rel (Nat.add_lt_add_right h 1)

theorem shift_closesBefore_shift {p q : Path} (h : ClosesBefore p q) :
    ClosesBefore (shift p) (shift q) := by
  cases p with
  | nil => exact absurd h id
  | cons i p =>
    cases q with
    | nil => exact trivial
    | cons j q => exact h.imp (Nat.add_lt_add_right · 1) (And.imp_left (congrArg (· + 1)))

end Path

namespace Node

/-! ## Elements at paths -/

/-- The element at a path. All elements on the way to it are items or choices. -/
def reach? (ns : List Node) : Path → Option Element
  | [] => none
  | i :: p =>
    match ns[i]?.bind Node.element? with
    | none => none
    | some e =>
      if p.isEmpty then some e
      else if e.name = ("item" : Text) ∨ e.name = ("one-of" : Text) then reach? e.children p
      else none

/-- The marked element at a path, if there is one. -/
def marked? (ns : List Node) (p : Path) : Option Element :=
  (reach? ns p).filter fun e => Phrase.isStructural e.name && e.isMarked

theorem marked?_nil (ns : List Node) : marked? ns [] = none := rfl

theorem marked?_no_nodes (p : Path) : marked? [] p = none := by
  cases p <;> rfl

theorem marked?_shift (n : Node) (r : List Node) (p : Path) :
    marked? (n :: r) p.shift = marked? r p := by
  cases p <;> rfl

theorem marked?_text (s : Text) (p : Path) : marked? [.text s] (0 :: p) = none := rfl

section Element

variable {name : Text} {attributes : Dictionary} {children : List Node}

theorem marked?_self : marked? [.element name attributes children] [0] =
    if Phrase.isStructural name && Element.isMarked ⟨name, attributes, children⟩ then
      some ⟨name, attributes, children⟩ else none := by
  rfl

/-- Only items and choices lead to the elements inside of them. -/
theorem marked?_inside {p : Path} (hp : p ≠ []) :
    marked? [.element name attributes children] (0 :: p) =
      if name = ("item" : Text) ∨ name = ("one-of" : Text) then marked? children p else none := by
  cases p with
  | nil => exact absurd rfl hp
  | cons i p =>
    rw [marked?, reach?]
    simp only [List.getElem?_cons_zero, Option.bind_some, element?, List.isEmpty_cons,
      Bool.false_eq_true, if_false]
    split <;> rfl

end Element

/-! ## Lists of paths -/

mutual

/-- The paths of the marked elements at or below a node, as they open or as they close. The path of
    the node itself is empty. -/
def marks (opening : Bool) : Node → List Path
  | .text _ => []
  | .element name attributes children =>
    let own : List Path :=
      if Phrase.isStructural name && Element.isMarked ⟨name, attributes, children⟩ then [[]] else []
    let inner :=
      if name = ("item" : Text) ∨ name = ("one-of" : Text) then marksOf opening children else []
    if opening then own ++ inner else inner ++ own

/-- The paths of the marked elements at or below the nodes of a list. -/
def marksOf (opening : Bool) : List Node → List Path
  | [] => []
  | n :: r => (n.marks opening).map (0 :: ·) ++ (marksOf opening r).map Path.shift

end

/-- The paths of the marked elements inside an element: only items and choices lead to them. -/
def marksInside (opening : Bool) (e : Element) : List Path :=
  if e.name = ("item" : Text) ∨ e.name = ("one-of" : Text) then marksOf opening e.children else []

theorem marks_of_marked {opening : Bool} {e : Element} (hname : Phrase.isStructural e.name = true)
    (h : e.isMarked = true) : e.toNode.marks opening =
      if opening then [] :: marksInside opening e else marksInside opening e ++ [[]] := by
  rw [Element.toNode, marks, hname, h]
  rfl

theorem marks_of_not_marked {opening : Bool} {e : Element} (h : e.isMarked = false) :
    e.toNode.marks opening = marksInside opening e := by
  rw [Element.toNode, marks, h, Bool.and_false]
  cases opening with
  | true => rfl
  | false => exact List.append_nil _

/-- There are no marked elements at or below one that contributes nothing. -/
theorem marks_of_not_structural {opening : Bool} {e : Element}
    (hname : Phrase.isStructural e.name = false) : e.toNode.marks opening = [] := by
  have hinside : ¬ (e.name = ("item" : Text) ∨ e.name = ("one-of" : Text)) := by
    intro h
    rcases h with h | h <;> rw [h] at hname <;> exact absurd hname (by decide)
  rw [Element.toNode, marks, hname, Bool.false_and, if_neg hinside]
  cases opening <;> rfl

theorem mem_own {b : Bool} {p : Path} :
    p ∈ (if b then [[]] else [] : List Path) ↔ p = [] ∧ b = true := by
  cases b <;> simp

theorem mem_inside {c : Prop} [Decidable c] {l : List Path} {p : Path} :
    p ∈ (if c then l else []) ↔ c ∧ p ∈ l := by
  by_cases hc : c
  · rw [if_pos hc]
    exact ⟨fun hp => ⟨hc, hp⟩, And.right⟩
  · rw [if_neg hc]
    exact ⟨fun hp => absurd hp List.not_mem_nil, fun hp => absurd hp.1 hc⟩

theorem mem_marks_element {opening : Bool} {name : Text} {attributes : Dictionary}
    {children : List Node} {p : Path} :
    p ∈ (Node.element name attributes children).marks opening ↔
      (p = [] ∧ (Phrase.isStructural name &&
        Element.isMarked ⟨name, attributes, children⟩) = true) ∨
      ((name = ("item" : Text) ∨ name = ("one-of" : Text)) ∧ p ∈ marksOf opening children) := by
  cases opening with
  | true => rw [marks, if_pos rfl, List.mem_append, mem_own, mem_inside]
  | false => rw [marks, if_neg Bool.false_ne_true, List.mem_append, mem_own, mem_inside, or_comm]

theorem mem_marksOf_cons {opening : Bool} {n : Node} {r : List Node} {p : Path} :
    p ∈ marksOf opening (n :: r) ↔
      (∃ q ∈ n.marks opening, 0 :: q = p) ∨ ∃ q ∈ marksOf opening r, q.shift = p := by
  rw [marksOf, List.mem_append, List.mem_map, List.mem_map]

mutual

/-- A path is in the list of a node exactly if it leads to a marked element. -/
theorem mem_marks (opening : Bool) (n : Node) (p : Path) :
    p ∈ n.marks opening ↔ (marked? [n] (0 :: p)).isSome = true := by
  match n with
  | .text s => simp [marks, marked?_text]
  | .element name attributes children =>
    rw [mem_marks_element, mem_marksOf opening children p]
    cases p with
    | nil =>
      rw [marked?_self, marked?_nil]
      cases Phrase.isStructural name && Element.isMarked ⟨name, attributes, children⟩ <;> simp
    | cons i p =>
      rw [marked?_inside (List.cons_ne_nil i p)]
      by_cases hinside : name = ("item" : Text) ∨ name = ("one-of" : Text)
      · rw [if_pos hinside]
        simp only [List.cons_ne_nil, false_and, false_or, hinside, true_and]
      · rw [if_neg hinside]
        simp only [List.cons_ne_nil, false_and, false_or, hinside, Option.isSome_none,
          Bool.false_eq_true]

/-- So it is for the list of several nodes. -/
theorem mem_marksOf (opening : Bool) (ns : List Node) (p : Path) :
    p ∈ marksOf opening ns ↔ (marked? ns p).isSome = true := by
  match ns with
  | [] => simp [marksOf, marked?_no_nodes]
  | n :: r =>
    rw [mem_marksOf_cons]
    constructor
    · rintro (⟨q, hq, rfl⟩ | ⟨q, hq, rfl⟩)
      · exact (mem_marks opening n q).mp hq
      · rw [marked?_shift]
        exact (mem_marksOf opening r q).mp hq
    · intro h
      match p with
      | [] => exact nomatch h
      | 0 :: q => exact .inl ⟨q, (mem_marks opening n q).mpr h, rfl⟩
      | (i + 1) :: q => exact .inr ⟨i :: q, (mem_marksOf opening r (i :: q)).mpr h, rfl⟩

end

theorem ne_nil_of_mem_marksOf {opening : Bool} {ns : List Node} {p : Path}
    (h : p ∈ marksOf opening ns) : p ≠ [] := by
  rintro rfl
  exact nomatch (mem_marksOf opening ns []).mp h

/-! ## The order of the paths -/

/-- Paths through the first of several nodes come before those through the others, in any order that
    goes by the first position in which they differ. -/
theorem pairwise_marksOf_cons {R : Path → Path → Prop} {opening : Bool} {n : Node} {r : List Node}
    (hlt : ∀ {i j : Nat} {p q : Path}, i < j → R (i :: p) (j :: q))
    (heq : ∀ {i : Nat} {p q : Path}, R p q → R (i :: p) (i :: q))
    (hshift : ∀ {p q : Path}, R p q → R p.shift q.shift)
    (hn : (n.marks opening).Pairwise R) (hr : (marksOf opening r).Pairwise R) :
    (marksOf opening (n :: r)).Pairwise R := by
  rw [marksOf, List.pairwise_append]
  refine ⟨hn.map _ fun _ _ => heq, hr.map _ fun _ _ => hshift, ?_⟩
  intro p hp q hq
  obtain ⟨p', -, rfl⟩ := List.mem_map.mp hp
  obtain ⟨q', hq', rfl⟩ := List.mem_map.mp hq
  match q', ne_nil_of_mem_marksOf hq' with
  | j :: q', _ => exact hlt (Nat.zero_lt_succ j)

mutual

/-- An element opens before those inside it. -/
theorem pairwise_marks_opening (n : Node) : (n.marks true).Pairwise (· < ·) := by
  match n with
  | .text _ => exact List.Pairwise.nil
  | .element name attributes children =>
    rw [marks, if_pos rfl, List.pairwise_append]
    refine ⟨?_, ?_, ?_⟩
    · split <;> simp
    · split
      · exact pairwise_marksOf_opening children
      · exact List.Pairwise.nil
    · intro p hp q hq
      obtain ⟨rfl, -⟩ := mem_own.mp hp
      have hq : q ≠ [] := ne_nil_of_mem_marksOf (mem_inside.mp hq).2
      match q, hq with
      | j :: q, _ => exact List.Lex.nil

/-- The elements of a list open in document order. -/
theorem pairwise_marksOf_opening (ns : List Node) : (marksOf true ns).Pairwise (· < ·) := by
  match ns with
  | [] => exact List.Pairwise.nil
  | n :: r =>
    exact pairwise_marksOf_cons List.Lex.rel List.Lex.cons Path.shift_lt_shift
      (pairwise_marks_opening n) (pairwise_marksOf_opening r)

end

mutual

/-- An element closes after those inside it. -/
theorem pairwise_marks_closing (n : Node) : (n.marks false).Pairwise Path.ClosesBefore := by
  match n with
  | .text _ => exact List.Pairwise.nil
  | .element name attributes children =>
    rw [marks, if_neg Bool.false_ne_true, List.pairwise_append]
    refine ⟨?_, ?_, ?_⟩
    · split
      · exact pairwise_marksOf_closing children
      · exact List.Pairwise.nil
    · split <;> simp
    · intro p hp q hq
      obtain ⟨rfl, -⟩ := mem_own.mp hq
      have hp : p ≠ [] := ne_nil_of_mem_marksOf (mem_inside.mp hp).2
      match p, hp with
      | j :: p, _ => exact trivial

/-- The elements of a list close one after the other. -/
theorem pairwise_marksOf_closing (ns : List Node) :
    (marksOf false ns).Pairwise Path.ClosesBefore := by
  match ns with
  | [] => exact List.Pairwise.nil
  | n :: r =>
    exact pairwise_marksOf_cons .inl (fun h => .inr ⟨rfl, h⟩) Path.shift_closesBefore_shift
      (pairwise_marks_closing n) (pairwise_marksOf_closing r)

end

theorem nodup_marksOf_opening (ns : List Node) : (marksOf true ns).Nodup := by
  apply (pairwise_marksOf_opening ns).imp
  intro p q h heq
  subst heq
  exact List.lt_irrefl p h

theorem nodup_marksOf_closing (ns : List Node) : (marksOf false ns).Nodup := by
  apply (pairwise_marksOf_closing ns).imp
  intro p q h heq
  subst heq
  exact p.not_closesBefore_self h

/-- The same elements close that have opened. -/
theorem marksOf_closing_perm (ns : List Node) : (marksOf false ns).Perm (marksOf true ns) :=
  (List.perm_ext_iff_of_nodup (nodup_marksOf_closing ns) (nodup_marksOf_opening ns)).mpr
    fun p => (mem_marksOf false ns p).trans (mem_marksOf true ns p).symm

end Node

end TimePhrase
