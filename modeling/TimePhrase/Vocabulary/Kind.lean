import TimePhrase.Text.Blank

/-!
# Kinds of temporal expressions

A rule recognises one kind of expression. A caller asks for any set of kinds, which is written as a
list of names or given as a sum of the kinds' bits.
-/

namespace TimePhrase

/-- What a temporal expression denotes. -/
inductive Kind where
  | date
  | time
  | duration
  | set
deriving DecidableEq, Repr, Inhabited

namespace Kind

/-- All kinds, in the order of their bits. -/
def all : List Kind := [.date, .time, .duration, .set]

/-- The name in grammars and reports. -/
def name : Kind → Text
  | .date => "date"
  | .time => "time"
  | .duration => "duration"
  | .set => "set"

/-- The name as a flag, in capitals. -/
def flagName (k : Kind) : Text := k.name.map Char.toUpper

/-- The value of the kind's bit. -/
def bit : Kind → Nat
  | .date => 1
  | .time => 2
  | .duration => 4
  | .set => 8

/-- Reads a name, in any case and between blanks. -/
def ofName? (s : Text) : Option Kind := all.find? fun k => k.name.sameAsciiLetters s.trim

/-- Reads a flag name, which has to be exact. -/
def ofFlagName? (s : Text) : Option Kind := all.find? fun k => k.flagName == s

end Kind

/-- A set of kinds. -/
structure KindSet where
  date : Bool
  time : Bool
  duration : Bool
  set : Bool
deriving DecidableEq, Repr, Inhabited

namespace KindSet

/-- No kind. -/
def empty : KindSet := ⟨false, false, false, false⟩

/-- Every kind. -/
def all : KindSet := ⟨true, true, true, true⟩

/-- Whether a kind is in the set. -/
def has (s : KindSet) : Kind → Bool
  | .date => s.date
  | .time => s.time
  | .duration => s.duration
  | .set => s.set

/-- The set with one more kind. -/
def add (s : KindSet) : Kind → KindSet
  | .date => { s with date := true }
  | .time => { s with time := true }
  | .duration => { s with duration := true }
  | .set => { s with set := true }

/-- The set of one kind. -/
def single (k : Kind) : KindSet := empty.add k

/-- The kinds of the set. -/
def toList (s : KindSet) : List Kind := Kind.all.filter s.has

/-- The sum of the bits. -/
def bits (s : KindSet) : Nat := (s.toList.map Kind.bit).foldr (· + ·) 0

/-- The set with the given sum of bits. -/
def ofBits? (n : Nat) : Option KindSet :=
  if n < 16 then some ⟨n.testBit 0, n.testBit 1, n.testBit 2, n.testBit 3⟩ else none

/-- The name of the only kind, or a word for any other set. -/
def name (s : KindSet) : Text :=
  match s.toList with
  | [k] => k.name
  | _ => "mixed"

/-- Reads `all`, or names between commas. Blank names are passed over, so that nothing but commas
    stands for the empty set. -/
def ofList? (s : Text) : Option KindSet :=
  if s.trim.sameAsciiLetters "all" then some all
  else
    ((s.splitAtChar ',').filter fun n => !n.isBlank).foldlM
      (fun set n => (Kind.ofName? n).map set.add) empty

end KindSet

end TimePhrase
