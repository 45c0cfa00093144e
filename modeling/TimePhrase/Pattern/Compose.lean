import TimePhrase.Pattern.Basic

/-!
# Putting patterns together

Sequences, choices and repetitions in their simplest form. Literals next to each other are one
literal, a choice between characters is a set, and what all alternatives of a choice begin with is
taken out of it.

* `Pattern.sequence`, `Pattern.choice`, `Pattern.repeated`
-/

namespace TimePhrase.Pattern

/-- The characters of a set, as a literal where there is only one. -/
def ofSet (s : CharSet) : Pattern :=
  match s.only? with
  | some c => .literal [c]
  | none => .char s

/-! ## Repetitions -/

/-- A repetition without idle iterations: more than one of the empty text is one, and none or
    exactly one of anything needs no repetition. -/
def repeated (body : Pattern) (least : Nat) (most : Option Nat) (greedy : Bool) : Pattern :=
  let least' := if body.onlyEmpty then min least 1 else least
  let most' := if body.onlyEmpty then some (min (most.getD 1) 1) else most
  if least' = 0 ∧ most' = some 0 then .empty
  else if least' = 1 ∧ most' = some 1 then body
  else .repetition body least' most' greedy

/-! ## Sequences -/

/-- The members of a pattern taken as a sequence, with further ones after them. -/
def membersBefore : Pattern → List Pattern → List Pattern
  | .empty, l => l
  | .concat p q, l => p.membersBefore (q :: l)
  | p, l => p :: l

/-- The members of a pattern taken as a sequence. -/
def members (p : Pattern) : List Pattern := p.membersBefore []

/-- One after the other. -/
def ofMembers : List Pattern → Pattern
  | [] => .empty
  | p :: r => r.foldl .concat p

/-- One more member in front. Two literals become one. -/
def consMember (p : Pattern) (l : List Pattern) : List Pattern :=
  match p, l with
  | .literal s, .literal t :: r => .literal (s ++ t) :: r
  | p, l => p :: l

/-- The patterns of a list one after the other. -/
def sequence (l : List Pattern) : Pattern := ofMembers ((l.flatMap members).foldr consMember [])

/-! ## Choices -/

/-- The alternatives of a pattern taken as a choice. -/
def alternatives : Pattern → List Pattern
  | .either p q => p :: q.alternatives
  | p => [p]

/-- The first that matches. -/
def ofAlternatives : List Pattern → Pattern
  | [] => .char .none
  | [p] => p
  | p :: r => .either p (ofAlternatives r)

/-- The set that stands for a literal of one character. -/
def letter? : Pattern → Option CharSet
  | .literal [c] => some (.single c)
  | _ => none

/-- The set that a pattern consists of. -/
def charSet? : Pattern → Option CharSet
  | .char s => some s
  | _ => none

/-- The set of all characters that the alternatives accept, if each of them is a single letter, or
    each of them a set. -/
def commonSet? (l : List Pattern) : Option CharSet :=
  match l.mapM letter? with
  | some sets => some (.unions sets)
  | none => (l.mapM charSet?).map .unions

/-- What two lists have in common at their beginnings. -/
def commonPrefix : List Pattern → List Pattern → List Pattern
  | p :: l, q :: r => if p = q then p :: commonPrefix l r else []
  | _, _ => []

/-- The members of a sequence of two or more. -/
def members? : Pattern → Option (List Pattern)
  | .concat p q => some (p.membersBefore [q])
  | _ => none

/-- The members that all alternatives begin with, if each of them is a sequence. -/
def sharedMembers (l : List Pattern) : List Pattern :=
  match l.mapM members? with
  | some (first :: others) => others.foldl commonPrefix first
  | _ => []

/-- The first pattern of a list that matches. `fuel` bounds how often shared members are taken
    out. -/
def chooseFrom : Nat → List Pattern → Pattern
  | 0, l => ofAlternatives l
  | fuel + 1, l =>
    match l.flatMap alternatives with
    | [] => .char .none
    | [p] => p
    | l =>
      match commonSet? l with
      | some s => ofSet s
      | none =>
        match sharedMembers l with
        | [] => ofAlternatives l
        | shared =>
          let rests := l.map fun p => ofMembers (p.members.drop shared.length)
          sequence (shared ++ [chooseFrom fuel rests])

/-- The first pattern of a list that matches. -/
def choice (l : List Pattern) : Pattern := chooseFrom ((l.map weight).foldr (· + ·) 1) l

end TimePhrase.Pattern
