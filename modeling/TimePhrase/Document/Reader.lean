import TimePhrase.Document.CharacterData
import TimePhrase.Document.Element

/-!
# Reading documents

A document is one element, with comments and instructions before and after it. Namespaces are
checked and then dropped: elements and attributes keep their local names. Document type
declarations are refused. A text that is no document is refused as a whole.

* `Document.read?`  the root element of a document
* `nodesOf`  the children of an element: a comment or an instruction ends a run of text
-/

namespace TimePhrase.Document

/-! ## Comments and instructions -/

/-- Reads a comment, after its opening, and returns the rest. Inside there may be no two hyphens in
    a row, nor one at the end. -/
def skipComment (s : Text) : Option Text :=
  match s.breakOn? "-->" with
  | none => none
  | some (body, rest) =>
    if body.all isAllowed && (body.breakOn? "--").isNone && body.getLast? != some '-' then some rest
    else none

/-- Reads an instruction, after its opening, and returns the rest. The document's own declaration
    may not come as an instruction. -/
def skipInstruction (s : Text) : Option Text :=
  if (s.after? "xml ").isSome then none
  else
    match readName s with
    | none => none
    | some (_, s) =>
      match s.breakOn? "?>" with
      | none => none
      | some (body, rest) => if body.all isAllowed then some rest else none

/-- The rest of a text after the comments and instructions that it begins with. `fuel` bounds their
    number. -/
def skipMisc : Nat → Text → Option Text
  | 0, s => some (skipSpace s)
  | fuel + 1, s =>
    let s := skipSpace s
    match s.after? "<!--" with
    | some r => (skipComment r).bind (skipMisc fuel)
    | none =>
      match s.after? "<?" with
      | some r => (skipInstruction r).bind (skipMisc fuel)
      | none => some s

/-! ## Tags -/

/-- Reads a name, an equals sign and what is written between quotes. -/
def readAssignment (s : Text) : Option ((Name × Text) × Text) :=
  match Name.read? s with
  | none => none
  | some (name, s) =>
    match skipSpace s with
    | '=' :: s =>
      match skipSpace s with
      | q :: s =>
        if q = '"' ∨ q = '\'' then
          let written := s.takeWhile fun c => c != q && c != '<'
          match s.drop written.length with
          | c :: rest =>
            if c = q ∧ written.all isAllowed then some ((name, written), rest) else none
          | [] => none
        else none
      | [] => none
    | _ => none

/-- Reads an attribute with its value. -/
def readAttribute (s : Text) : Option ((Name × Text) × Text) :=
  match readAssignment s with
  | none => none
  | some ((name, written), rest) => (value? written).map fun value => ((name, value), rest)

/-- How a start tag ends. -/
inductive TagEnd where
  | opened
  | closed
deriving DecidableEq

/-- Reads the attributes of a start tag, each after white space, and the end of the tag. `fuel`
    bounds their number. -/
def readAttributes : Nat → Text → Option (List (Name × Text) × TagEnd × Text)
  | 0, _ => none
  | fuel + 1, s =>
    match skipSpace s with
    | '/' :: '>' :: rest => some ([], .closed, rest)
    | '>' :: rest => some ([], .opened, rest)
    | t =>
      if s.head?.any isSpace then
        match readAttribute t with
        | none => none
        | some (a, r) =>
          match readAttributes fuel r with
          | none => none
          | some (others, ending, rest) => some (a :: others, ending, rest)
      else none

/-! ## Namespaces -/

/-- The namespaces that prefixes stand for, the innermost declaration first. -/
abbrev Scopes := List (Text × Text)

/-- What the reserved namespaces begin with. -/
def reservedRoot : Text :=
  "http:".toList ++ ['/', '/'] ++ List.intercalate ['.'] ["www", "w3", "org"]

/-- The namespace reserved for the prefix `xml`. -/
def xmlNamespace : Text := reservedRoot ++ "/XML/1998/namespace"

/-- The namespace reserved for namespace declarations. -/
def declarationNamespace : Text := reservedRoot ++ "/2000/xmlns/"

/-- The declarations among the attributes of a tag, for prefixes only. A default namespace has no
    bearing on local names. A prefix can be declared once in a tag, and the reserved namespaces go
    with their own prefixes only. -/
def declarations : Scopes → List (Name × Text) → Option Scopes
  | declared, [] => some declared
  | declared, (name, value) :: r =>
    if name.space = "xmlns" then
      let reserved : Bool := value = xmlNamespace
      if value = declarationNamespace ∨ reserved ≠ (name.localPart = "xml" : Bool)
          ∨ (entryValue? name.localPart declared).isSome then none
      -- The prefix `xml` needs no entry: it stands for its namespace everywhere.
      else declarations (if reserved then declared else (name.localPart, value) :: declared) r
    else if name.localPart = "xmlns" then
      if value = xmlNamespace ∨ value = declarationNamespace then none else declarations declared r
    else declarations declared r

/-- Whether an attribute is a declaration. -/
def isDeclaration (name : Name) : Bool := name.space = "xmlns" ∨ name.localPart = "xmlns"

/-- What an attribute's name belongs to. -/
inductive Space where
  /-- No namespace, as there is no prefix. -/
  | none
  /-- The namespace of the prefix `xml`, which needs no declaration. -/
  | reserved
  | declared (uri : Text)
deriving DecidableEq

/-- The namespace of an attribute with a prefix, which may be empty. -/
def spaceOf? (scopes : Scopes) (space : Text) : Option Space :=
  if space.isEmpty then some .none
  else if space = "xml" then some .reserved
  else (entryValue? space scopes).map .declared

/-- The attributes of a tag by local name, in the order of the tag, later ones over earlier ones.
    Every prefix has to be declared, and no two attributes may have the same namespace and the same
    local name. `seen` holds those before. -/
def attributesIn (scopes : Scopes) :
    List (Space × Text) → Dictionary → List (Name × Text) → Option Dictionary
  | _, found, [] => some found
  | seen, found, (name, value) :: r =>
    if isDeclaration name then attributesIn scopes seen found r
    else
      match spaceOf? scopes name.space with
      | none => none
      | some space =>
        if seen.contains (space, name.localPart) then none
        else
          attributesIn scopes ((space, name.localPart) :: seen)
            (found.insert name.localPart value) r

/-- A start tag, with the namespaces that hold inside its element. -/
structure StartTag where
  name : Name
  attributes : Dictionary
  scopes : Scopes
  ending : TagEnd

/-- Reads a start tag, after its opening. -/
def readStartTag (scopes : Scopes) (s : Text) : Option (StartTag × Text) :=
  match Name.read? s with
  | none => none
  | some (name, r) =>
    match readAttributes (r.length + 1) r with
    | none => none
    | some (written, ending, rest) =>
      match declarations [] written with
      | none => none
      | some declared =>
        -- The declarations of a tag hold for its own names as well.
        let scopes := declared ++ scopes
        match attributesIn scopes [] .empty written with
        | none => none
        | some attributes =>
          if name.space = "xmlns"
              ∨ (!name.space.isEmpty ∧ (entryValue? name.space scopes).isNone) then none
          else some (⟨name, attributes, scopes, ending⟩, rest)

/-- Reads an end tag, after its opening, and returns the rest. -/
def readEndTag (name : Name) (s : Text) : Option Text :=
  match Name.read? s with
  | none => none
  | some (n, s) =>
    match skipSpace s with
    | '>' :: rest => if n = name then some rest else none
    | _ => none

/-! ## Content -/

/-- What content is made of. -/
inductive Item where
  | text (content : Text)
  /-- A comment or an instruction. -/
  | aside
  | element (e : Element)

/-- The children that items make: text items in a row are one run of text, and asides are
    dropped. -/
def nodesOf : List Item → List Node
  | [] => []
  | .aside :: r => nodesOf r
  | .element e :: r => e.toNode :: nodesOf r
  | .text content :: r =>
    match r with
    -- The run goes on, with the text of a literal section or after one.
    | .text _ :: _ =>
      match nodesOf r with
      | .text more :: ns => .text (content ++ more) :: ns
      | ns => .text content :: ns
    | _ => .text content :: nodesOf r

/-- An element from its start tag and what was read after it: its content up to the end tag, and the
    rest. -/
def closeElement (tag : StartTag) (content : Option (List Item × Text)) : Option (Element × Text) :=
  match content with
  | some (items, '<' :: '/' :: r) =>
    (readEndTag tag.name r).map fun rest =>
      (⟨tag.name.localPart, tag.attributes, nodesOf items⟩, rest)
  | _ => none

/-- Reads the content of an element up to an end tag, which is left, or the end of the text. `fuel`
    bounds the number of items, those inside included. -/
def readItems : Nat → Scopes → Text → Option (List Item × Text)
  | 0, _, _ => none
  | fuel + 1, scopes, s =>
    let andMore (item : Item) (r : Text) : Option (List Item × Text) :=
      (readItems fuel scopes r).map fun p => (item :: p.1, p.2)
    match s with
    | [] => some ([], [])
    | '<' :: '/' :: _ => some ([], s)
    | '<' :: '!' :: r =>
      match Text.after? r "--" with
      | some r => (skipComment r).bind (andMore .aside)
      | none =>
        match (Text.after? r "[CDATA[").bind (Text.breakOn? · "]]>") with
        | some (body, rest) => (sectionText? body).bind fun t => andMore (.text t) rest
        | none => none
    | '<' :: '?' :: r => (skipInstruction r).bind (andMore .aside)
    | '<' :: r =>
      match readStartTag scopes r with
      | none => none
      | some (tag, r) =>
        let element :=
          if tag.ending = .closed then some (⟨tag.name.localPart, tag.attributes, []⟩, r)
          else closeElement tag (readItems fuel tag.scopes r)
        element.bind fun p => andMore (.element p.1) p.2
    | s =>
      (text? (s.takeWhile (· != '<'))).bind fun t => andMore (.text t) (s.dropWhile (· != '<'))

/-! ## Whole documents -/

/-- Reads the declaration at the beginning of a document, after its opening, and returns the rest.
    The version has to be there. Nothing between the quotes stands for anything else. -/
def skipDeclaration (s : Text) : Option Text :=
  let attributeIf (word s : Text) : Option (Option Text) :=
    if (s.after? word).isSome then (readAssignment s).map fun p => some p.2 else some none
  let spaced (s : Text) : Option Text :=
    if s.isEmpty ∨ s.head?.any isSpace ∨ (s.after? "?>").isSome then some (skipSpace s) else none
  do
    let s ← ← attributeIf "version" (skipSpace s)
    let s ← spaced s
    let s ← match ← attributeIf "encoding" s with
      | some s => spaced s
      | none => some s
    let s := (← attributeIf "standalone" s).getD s
    (skipSpace s).after? "?>"

/-- The rest of a document after a byte order mark, its declaration and what comes before the root
    element. -/
def skipProlog (s : Text) : Option Text :=
  let s := match s with
    | '\ufeff' :: r => r
    | s => s
  let s := match Text.after? s "<?xml " with
    | some r => skipDeclaration r
    | none => some s
  s.bind fun s => skipMisc s.length s

/-- Reads an element and returns the rest. -/
def readElement (s : Text) : Option (Element × Text) :=
  match s with
  | '<' :: r =>
    match readStartTag [] r with
    | none => none
    | some (tag, r) =>
      if tag.ending = .closed then some (⟨tag.name.localPart, tag.attributes, []⟩, r)
      else closeElement tag (readItems (r.length + 1) tag.scopes r)
  | _ => none

/-- Reads a document and returns its root element. -/
def read? (s : Text) : Option Element :=
  match (skipProlog s).bind readElement with
  | some (e, rest) => if skipMisc rest.length rest = some [] then some e else none
  | none => none

end TimePhrase.Document
