import TimePhrase.Pattern.CharSet

/-!
# Properties of characters

A pattern can ask for the characters with a property, such as a category, a script or an age. The
tables of all properties are far larger than all else there is to know about characters, and they
change with each version of the standard. So they are a parameter: a pattern is read with a table,
and what holds of reading holds for every table.

* `PropertyTable`  the classes of characters that are named by a property
-/

namespace TimePhrase

/-- The classes of characters that are named by a property. -/
class PropertyTable where
  /-- The class with a name. The name is what a pattern has between its braces: a property, a value
      of one, or both with a sign between them. -/
  find? (name : Text) : Option CharSet

/-- The name of a property without what does not count in it: case, the signs between words, the
    word "is" in front, and all characters from 128 on. -/
def propertyKey (name : Text) : Text :=
  let name := if (name.take 2).map Char.toLower = "is" then name.drop 2 else name
  (name.filter fun c => c.toNat < 128 && c != ' ' && c != '_' && c != '-').map Char.toLower

/-- The properties that the other classes of patterns are made of. Patterns are read with this table
    where no other one is given. -/
instance : PropertyTable where
  find? name :=
    let key := propertyKey name
    if key = "any" then some .any
    else if key = "ascii" then some .ascii
    else if key = "nd" ∨ key = "decimalnumber" then some .digits
    else if key = "whitespace" ∨ key = "space" then some .blanks
    else none

end TimePhrase
