import TimePhrase.Text.Dictionary

/-!
# Element trees

A grammar document as a tree: elements with a name, attributes and children, where a child is an
element or a run of text.
-/

namespace TimePhrase

/-- What can stand inside an element. -/
inductive Node where
  | text (content : Text)
  | element (name : Text) (attributes : Dictionary) (children : List Node)
deriving Inhabited

/-- An element with what stands in it, in document order. -/
structure Element where
  name : Text
  attributes : Dictionary
  children : List Node
deriving Inhabited

namespace Node

/-- The node as an element, if it is one. -/
def element? : Node → Option Element
  | .text _ => none
  | .element name attributes children => some ⟨name, attributes, children⟩

/-- The node's own text, if it is a run of text. -/
def text? : Node → Option Text
  | .text content => some content
  | .element .. => none

mutual

/-- All text at or below a node, in document order. -/
def allText : Node → Text
  | .text content => content
  | .element _ _ children => allTextOf children

/-- All text at or below the nodes of a list, in order. -/
def allTextOf : List Node → Text
  | [] => []
  | n :: r => n.allText ++ allTextOf r

end

end Node

namespace Element

/-- The element as a node. -/
def toNode (e : Element) : Node := .element e.name e.attributes e.children

/-- The value of an attribute. -/
def attribute? (e : Element) (name : Text) : Option Text := e.attributes.get? name

/-- The child elements, in document order. -/
def elements (e : Element) : List Element := e.children.filterMap Node.element?

/-- The first child element of a name. -/
def firstElement? (e : Element) (name : Text) : Option Element :=
  e.elements.find? fun c => c.name == name

/-- All text in the element, at any depth. -/
def text (e : Element) : Text := Node.allTextOf e.children

/-- The text that stands directly in the element. -/
def ownText (e : Element) : Text := (e.children.filterMap Node.text?).flatten

end Element

end TimePhrase
