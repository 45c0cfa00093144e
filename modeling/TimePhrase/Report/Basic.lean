import TimePhrase.Text.Integer
import TimePhrase.Text.Quoted

/-!
# Reports

What is printed for other programs to read: texts, numbers, lists and records in JSON. Every member
of a list or record stands on a line of its own, and each level is set in by two spaces.

* `Report.render`  the printed form
-/

namespace TimePhrase

/-- A value to be printed. -/
inductive Report where
  | text (content : Text)
  | number (n : Nat)
  | list (items : List Report)
  | record (fields : List (Text × Report))
deriving Inhabited

namespace Report

/-- One character as it stands inside a string. Only quotes, backslashes and controls are
    escaped. -/
def encodeChar (c : Char) : Text :=
  match c with
  | '"' => "\\\""
  | '\\' => "\\\\"
  | '\x08' => "\\b"
  | '\x0c' => "\\f"
  | '\n' => "\\n"
  | '\r' => "\\r"
  | '\t' => "\\t"
  | c =>
    if c.toNat < 0x20 then
      let digits := Text.hexDigits c.toNat
      "\\u" ++ List.replicate (4 - digits.length) '0' ++ digits
    else [c]

/-- A text as a string. -/
def encode (t : Text) : Text := "\"" ++ t.flatMap encodeChar ++ "\""

/-- A new line at some depth. -/
def newLine (depth : Nat) : Text := '\n' :: List.replicate (2 * depth) ' '

/-- Members between brackets, at the depth of the brackets. There is no line for no members. -/
def bracketed (opening closing : Text) (depth : Nat) (members : List Text) : Text :=
  if members.isEmpty then opening ++ closing
  else
    opening ++ Text.join "," (members.map (newLine (depth + 1) ++ ·)) ++ newLine depth ++ closing

mutual

/-- The printed form at some depth. -/
def renderAt (depth : Nat) : Report → Text
  | .text t => encode t
  | .number n => Text.ofNat n
  | .list items => bracketed "[" "]" depth (renderItems (depth + 1) items)
  | .record fields => bracketed "\x7b" "\x7d" depth (renderFields (depth + 1) fields)

/-- The printed forms of the items of a list. -/
def renderItems (depth : Nat) : List Report → List Text
  | [] => []
  | r :: rs => renderAt depth r :: renderItems depth rs

/-- The printed forms of the fields of a record. -/
def renderFields (depth : Nat) : List (Text × Report) → List Text
  | [] => []
  | f :: fs => renderField depth f :: renderFields depth fs

/-- The printed form of a field. -/
def renderField (depth : Nat) : Text × Report → Text
  | (name, r) => encode name ++ ": " ++ renderAt depth r

end

/-- The printed form. -/
def render (r : Report) : Text := renderAt 0 r

end Report

end TimePhrase
