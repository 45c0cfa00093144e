import TimePhrase.Resource.Header
import TimePhrase.Text.Lowercase

/-!
# Normalization tables

A table sends surface texts to canonical texts. A table that does not mind case keeps its surfaces,
and looks texts up, in lower case.
-/

namespace TimePhrase

/-- Pairs of a surface, as it is looked up, and its canonical text, in the order of insertion. -/
structure NormalizationTable where
  header : Header
  caseSensitive : Bool
  entries : List (Text × Text)
deriving DecidableEq, Inhabited

namespace NormalizationTable

/-- A table without entries. -/
def new (id : Text) (caseSensitive : Bool) : NormalizationTable :=
  ⟨⟨id, .exposed⟩, caseSensitive, []⟩

/-- The table's id. -/
def id (t : NormalizationTable) : Text := t.header.id

/-- Number of entries. -/
def size (t : NormalizationTable) : Nat := t.entries.length

/-- The form in which a text is looked up. -/
def fold (t : NormalizationTable) (s : Text) : Text := if t.caseSensitive then s else s.lowercase

/-- The canonical text of an entry. -/
def get? (t : NormalizationTable) (s : Text) : Option Text := entryValue? (t.fold s) t.entries

/-- The canonical text of an entry; any other text stays as it is. -/
def normalize (t : NormalizationTable) (s : Text) : Text := (t.get? s).getD s

/-- Adds an entry, unless the surface has one already. -/
def insert (t : NormalizationTable) (surface canonical : Text) :
    Except ResourceError NormalizationTable :=
  if (t.get? surface).isSome then .error (.duplicateEntry t.id surface)
  else .ok { t with entries := t.entries ++ [(t.fold surface, canonical)] }

/-- Surface and canonical text of an item. The surface of an item with a canonical form inside is
    the text around it, and any other item is its own canonical form. -/
def itemEntry (item : Element) : Text × Text :=
  match item.firstElement? "normalized" with
  | some canonical => (item.ownText.trim, canonical.text.trim)
  | none => (item.text.trim, item.text.trim)

/-- Adds the entry of an item. An item with a blank surface has none. -/
def insertItem (t : NormalizationTable) (item : Element) :
    Except ResourceError NormalizationTable :=
  let entry := itemEntry item
  if entry.1.isEmpty then .ok t else t.insert entry.1 entry.2

/-- Reads a table. Case matters as `caseSensitive` says, unless the table declares it itself. -/
def ofElement? (e : Element) (caseSensitive : Bool) : Except ResourceError NormalizationTable := do
  let header ← e.header?
  let flag ← e.flag? header.id "case_sensitive"
  (e.elements.filter fun c => c.name == ("item" : Text)).foldlM insertItem
    ⟨header, flag.getD caseSensitive, []⟩

end NormalizationTable

/-- The tables of a grammar, in the order of their declarations. -/
abbrev Tables := List NormalizationTable

/-- The table of an id. -/
def Tables.get? (ts : Tables) (id : Text) : Option NormalizationTable :=
  ts.find? fun t => t.id == id

end TimePhrase
