import Mathlib.Data.List.Forall2
import TimePhrase.Document.Element

/-!
# Severed runs of text

Two trees that are the same, but that one run of text is severed into two nodes in the first of them.
The text of an element, whether all of it or its own, does not tell them apart.

* `Node.SeveredAt`  trees with a run that is severed and that is whole
* `Element.SameButRun`  elements that are the same up to such a run
* `SeveredAt.allTextOf_eq`, `SameButRun.ownText_eq`  their text
-/

namespace TimePhrase

namespace Node

/-- Nodes that are the same in both lists, but that inside of the elements with the names of a path a
    run of text is severed into `a` and `b` in the first list and whole in the second one. -/
inductive SeveredAt : List Text → Text → Text → List Node → List Node → Prop
  | here (a b : Text) (r : List Node) : SeveredAt [] a b (.text a :: .text b :: r) (.text (a ++ b) :: r)
  | past {path : List Text} {a b : Text} {r r' : List Node} (n : Node)
      (h : SeveredAt path a b r r') : SeveredAt path a b (n :: r) (n :: r')
  | inside {path : List Text} {a b : Text} {children children' : List Node} (name : Text)
      (attributes : Dictionary) (r : List Node) (h : SeveredAt path a b children children') :
      SeveredAt (name :: path) a b (.element name attributes children :: r)
        (.element name attributes children' :: r)

namespace SeveredAt

variable {path : List Text} {a b : Text} {ns ns' : List Node}

theorem append_left (ms : List Node) (h : SeveredAt path a b ns ns') :
    SeveredAt path a b (ms ++ ns) (ms ++ ns') := by
  induction ms with
  | nil => exact h
  | cons m ms ih => exact .past m ih

/-- The text is the same. -/
theorem allTextOf_eq (h : SeveredAt path a b ns ns') : allTextOf ns' = allTextOf ns := by
  induction h with
  | here a b r => simp only [allTextOf, allText, List.append_assoc]
  | past n _ ih => rw [allTextOf, allTextOf, ih]
  | inside name attributes r _ ih => rw [allTextOf, allTextOf, allText, allText, ih]

/-- So is what stands directly in the list. -/
theorem flatten_text_eq (h : SeveredAt path a b ns ns') :
    (ns'.filterMap text?).flatten = (ns.filterMap text?).flatten := by
  induction h with
  | here a b r => simp [text?]
  | past n _ ih =>
    rw [List.filterMap_cons, List.filterMap_cons]
    cases n.text? with
    | none => exact ih
    | some t => exact congrArg (t ++ ·) ih
  | inside name attributes r _ _ => rfl

end SeveredAt

/-- A run that is severed directly in a list is in none of the elements of the list. -/
theorem SeveredAt.elements_eq {a b : Text} {ns ns' : List Node} (h : SeveredAt [] a b ns ns') :
    ns'.filterMap element? = ns.filterMap element? := by
  generalize hpath : ([] : List Text) = path at h
  induction h with
  | here a b r => rfl
  | past n _ ih => rw [List.filterMap_cons, List.filterMap_cons, ih hpath]
  | inside name attributes r _ _ => exact nomatch hpath

/-- Any other one is in one of them, and the others are the same. -/
theorem SeveredAt.exists_elements {name : Text} {path : List Text} {a b : Text} {ns ns' : List Node}
    (h : SeveredAt (name :: path) a b ns ns') : ∃ es e e' fs,
      ns.filterMap element? = es ++ e :: fs ∧ ns'.filterMap element? = es ++ e' :: fs ∧
        e.name = name ∧ e'.name = name ∧ e'.attributes = e.attributes ∧
        SeveredAt path a b e.children e'.children := by
  generalize hpath : name :: path = names at h
  induction h with
  | here a b r => exact nomatch hpath
  | past n _ ih =>
    obtain ⟨es, e, e', fs, hes, hes', hsevered⟩ := ih hpath
    rw [List.filterMap_cons, List.filterMap_cons, hes, hes']
    cases n.element? with
    | none => exact ⟨es, e, e', fs, rfl, rfl, hsevered⟩
    | some c => exact ⟨c :: es, e, e', fs, rfl, rfl, hsevered⟩
  | inside name' attributes r h _ =>
    obtain ⟨rfl, rfl⟩ := List.cons.inj hpath
    exact ⟨[], _, _, _, rfl, rfl, rfl, rfl, rfl, h⟩

/-- Nodes that are the same in both lists, but that at most one run of text is severed in the first
    one and whole in the second one. -/
def SameButRun (ns ns' : List Node) : Prop := ns' = ns ∨ ∃ path a b, SeveredAt path a b ns ns'

namespace SameButRun

variable {ns ns' : List Node}

theorem append_left (ms : List Node) (h : SameButRun ns ns') : SameButRun (ms ++ ns) (ms ++ ns') := by
  rcases h with rfl | ⟨path, a, b, h⟩
  · exact .inl rfl
  · exact .inr ⟨path, a, b, h.append_left ms⟩

theorem cons (n : Node) (h : SameButRun ns ns') : SameButRun (n :: ns) (n :: ns') :=
  h.append_left [n]

/-- More text before a run that is severed or not. -/
theorem text_append {c c' : Text} (t : Text) (h : SameButRun (.text c :: ns) (.text c' :: ns')) :
    SameButRun (.text (t ++ c) :: ns) (.text (t ++ c') :: ns') := by
  rcases h with heq | ⟨path, a, b, h⟩
  · obtain ⟨hc, rfl⟩ := List.cons.inj heq
    rw [Node.text.inj hc]
    exact .inl rfl
  · cases h with
    | here _ b _ =>
      rw [← List.append_assoc]
      exact .inr ⟨[], t ++ c, b, .here (t ++ c) b ns'⟩
    | past n h => exact .inr ⟨path, a, b, .past _ h⟩

theorem element {name : Text} {attributes : Dictionary} (r : List Node) (h : SameButRun ns ns') :
    SameButRun (.element name attributes ns :: r) (.element name attributes ns' :: r) := by
  rcases h with rfl | ⟨path, a, b, h⟩
  · exact .inl rfl
  · exact .inr ⟨name :: path, a, b, .inside name attributes r h⟩

end SameButRun

end Node

namespace Element

/-- Elements that are the same, but that at most one run of text is severed inside of the first one
    and whole inside of the second one. -/
structure SameButRun (e e' : Element) : Prop where
  name : e'.name = e.name
  attributes : e'.attributes = e.attributes
  children : Node.SameButRun e.children e'.children

namespace SameButRun

variable {e e' : Element}

theorem refl (e : Element) : e.SameButRun e := ⟨rfl, rfl, .inl rfl⟩

theorem text_eq (h : e.SameButRun e') : e'.text = e.text := by
  rcases h.children with heq | ⟨path, a, b, hsevered⟩
  · rw [text, text, heq]
  · exact hsevered.allTextOf_eq

theorem ownText_eq (h : e.SameButRun e') : e'.ownText = e.ownText := by
  rcases h.children with heq | ⟨path, a, b, hsevered⟩
  · rw [ownText, ownText, heq]
  · exact hsevered.flatten_text_eq

theorem attribute?_eq (h : e.SameButRun e') (name : Text) : e'.attribute? name = e.attribute? name := by
  rw [attribute?, attribute?, h.attributes]

end SameButRun

/-- The elements among nodes with a severed run are the same up to that run. -/
theorem forall₂_of_severedAt {path : List Text} {a b : Text} {ns ns' : List Node}
    (h : Node.SeveredAt path a b ns ns') :
    List.Forall₂ SameButRun (ns.filterMap Node.element?) (ns'.filterMap Node.element?) := by
  induction h with
  | here a b r => exact List.forall₂_same.mpr fun e _ => .refl e
  | past n _ ih =>
    rw [List.filterMap_cons, List.filterMap_cons]
    cases n.element? with
    | none => exact ih
    | some e => exact .cons (.refl e) ih
  | @inside path a b children children' name attributes r h _ =>
    exact .cons ⟨rfl, rfl, .inr ⟨path, a, b, h⟩⟩ (List.forall₂_same.mpr fun e _ => .refl e)

theorem SameButRun.elements {e e' : Element} (h : e.SameButRun e') :
    List.Forall₂ SameButRun e.elements e'.elements := by
  rcases h.children with heq | ⟨path, a, b, hsevered⟩
  · rw [Element.elements, Element.elements, heq]
    exact List.forall₂_same.mpr fun e _ => .refl e
  · exact forall₂_of_severedAt hsevered

/-- What asks for names only picks the same elements. -/
theorem SameButRun.filter {es es' : List Element} {p : Element → Bool}
    (hp : ∀ {e e'}, SameButRun e e' → p e' = p e) (h : List.Forall₂ SameButRun es es') :
    List.Forall₂ SameButRun (es.filter p) (es'.filter p) := by
  induction h with
  | nil => exact .nil
  | @cons e e' es es' he _ ih =>
    rw [List.filter_cons, List.filter_cons, hp he]
    cases p e with
    | true => exact .cons he ih
    | false => exact ih

theorem SameButRun.find? {es es' : List Element} {p : Element → Bool}
    (hp : ∀ {e e'}, SameButRun e e' → p e' = p e) (h : List.Forall₂ SameButRun es es') :
    (es.find? p = none ∧ es'.find? p = none) ∨
      ∃ e e', es.find? p = some e ∧ es'.find? p = some e' ∧ e.SameButRun e' := by
  induction h with
  | nil => exact .inl ⟨rfl, rfl⟩
  | @cons e e' es es' he _ ih =>
    rw [List.find?_cons, List.find?_cons, hp he]
    cases p e with
    | true => exact .inr ⟨e, e', rfl, rfl, he⟩
    | false => exact ih

end Element

end TimePhrase
