import TimePhrase.Pattern.Escape

/-!
# Bracketed classes

Sets of characters written between brackets: characters, ranges, classes with names, brackets
inside brackets, and operators between sets.

* `Pattern.readBracket`
-/

namespace TimePhrase.Pattern

/-- A set with the depth of its written form: brackets, operators and lists of members that stand
    one inside another. -/
structure Bracket where
  set : CharSet
  depth : Nat

/-! ## Operators -/

/-- The operators between the operands of a class. -/
inductive SetOp where
  | inter
  | difference
  | symmDiff

/-- Applies an operator. -/
def SetOp.apply : SetOp → CharSet → CharSet → CharSet
  | .inter => .inter
  | .difference => .difference
  | .symmDiff => .symmDiff

/-- The members of an operand read so far. -/
structure Members where
  set : CharSet
  count : Nat
  /-- The depth of the deepest member. -/
  depth : Nat

namespace Members

/-- No members. -/
def none : Members := ⟨.none, 0, 0⟩

/-- One more member. -/
def add (m : Members) (b : Bracket) : Members :=
  ⟨m.set.union b.set, m.count + 1, max m.depth b.depth⟩

/-- The operand. Two members or more are a list. -/
def toBracket (m : Members) : Bracket := ⟨m.set, if m.count < 2 then m.depth else m.depth + 1⟩

end Members

/-- The operands of a class read so far: those before the last operator, and those after it. -/
structure Operands where
  before : Option (SetOp × Bracket)
  after : Members

namespace Operands

/-- No operator so far. -/
def ofMembers (m : Members) : Operands := ⟨.none, m⟩

/-- One more member. -/
def add (o : Operands) (b : Bracket) : Operands := { o with after := o.after.add b }

/-- What all operands come to. -/
def value (flags : Flags) (o : Operands) : Bracket :=
  let right := o.after.toBracket
  match o.before with
  | .none => right
  | some (op, left) =>
    ⟨op.apply (flags.fold left.set) (flags.fold right.set), max left.depth right.depth + 1⟩

/-- One more operator. -/
def operator (flags : Flags) (o : Operands) (op : SetOp) : Operands :=
  ⟨some (op, o.value flags), .none⟩

end Operands

/-! ## Members -/

variable [PropertyTable]

/-- Reads one member of a class: a character, which can begin a range, or a class of its own. -/
def readMember (flags : Flags) : Text → Option ((Char ⊕ CharSet) × Text)
  | [] => none
  | '\\' :: r =>
    match readEscape flags r with
    | some (.literal c, r) => some (.inl c, r)
    | some (.set s, r) => some (.inr s, r)
    | _ => none
  | c :: r => some (.inl c, r)

/-- Reads a member and, after a minus sign that is neither doubled nor last, the end of a range. -/
def readRange (flags : Flags) (s : Text) : Option (CharSet × Text) :=
  match readMember flags s with
  | none => none
  | some (first, r) =>
    let alone : CharSet := match first with
      | .inl c => .single c
      | .inr set => set
    match flags.skip r with
    | '-' :: r =>
      -- The minus sign is the last member, or an operator follows.
      if flags.peek r = some ']' ∨ flags.peek r = some '-' then
        (flags.allow? alone).map fun set => (set, '-' :: r)
      else
        match first, readMember flags (flags.skip r) with
        | .inl lo, some (.inl hi, r) =>
          if lo ≤ hi then (flags.allow? (.range lo hi)).map fun set => (set, r) else none
        | _, _ => none
    | r => (flags.allow? alone).map fun set => (set, r)

/-- Reads the name of a class up to its closing bracket. -/
def readClassName (negative : Bool) (s : Text) : Option ((Bool × CharSet) × Text) :=
  match Text.splitOnce ':' s with
  | some (name, ']' :: rest) => (CharSet.named? name).map fun set => ((negative, set), rest)
  | _ => none

/-- Reads a class with a name, after its opening bracket: whether it is negated, and its set. -/
def readNamed : Text → Option ((Bool × CharSet) × Text)
  | ':' :: '^' :: r => readClassName true r
  | ':' :: r => readClassName false r
  | _ => none

/-- Reads minus signs, which stand for themselves at the beginning of a class. `fuel` bounds their
    number. -/
def readMinuses (flags : Flags) : Nat → Members → Text → Members × Text
  | fuel + 1, m, '-' :: r => readMinuses flags fuel (m.add ⟨.single '-', 0⟩) (flags.skip r)
  | _, m, s => (m, s)

/-- Reads the members at the beginning of a class that would have another meaning further on. -/
def readFirstMembers (flags : Flags) (s : Text) : Members × Text :=
  match readMinuses flags s.length .none s with
  | (⟨set, 0, depth⟩, ']' :: r) =>
    -- A closing bracket stands for itself here, too, if there is no minus sign.
    (Members.add ⟨set, 0, depth⟩ ⟨.single ']', 0⟩, flags.skip r)
  | (members, s) => (members, s)

/-- What stands at the beginning of a class, after its opening bracket: whether it is negated, its
    first members, and the rest. -/
def readClassStart (flags : Flags) (s : Text) : Bool × Members × Text :=
  match flags.skip s with
  | '^' :: r => (true, readFirstMembers flags (flags.skip r))
  | s => (false, readFirstMembers flags s)

/-- Reads the members of a class up to its closing bracket. `fuel` bounds the number of steps. -/
def readMembers (flags : Flags) : Nat → Bool → Operands → Text → Option (Bracket × Text)
  | 0, _, _, _ => none
  | fuel + 1, negative, operands, s =>
    match flags.skip s with
    | [] => none
    | ']' :: r =>
      let b := operands.value flags
      (flags.negate? negative b.set).map fun set => (⟨set, b.depth + 1⟩, r)
    | '[' :: r =>
      match readNamed r with
      | some ((isNegated, named), r) =>
        match flags.negate? isNegated named with
        | some set => readMembers flags fuel negative (operands.add ⟨set, 0⟩) r
        | none => none
      | none =>
        let (innerNegative, first, r) := readClassStart flags r
        match readMembers flags fuel innerNegative (.ofMembers first) r with
        | some (b, r) => readMembers flags fuel negative (operands.add b) r
        | none => none
    | '&' :: '&' :: r => readMembers flags fuel negative (operands.operator flags .inter) r
    | '-' :: '-' :: r => readMembers flags fuel negative (operands.operator flags .difference) r
    | '~' :: '~' :: r => readMembers flags fuel negative (operands.operator flags .symmDiff) r
    | s =>
      match readRange flags s with
      | some (set, r) => readMembers flags fuel negative (operands.add ⟨set, 0⟩) r
      | none => none

/-- Reads a bracketed class, after its opening bracket. -/
def readBracket (flags : Flags) (s : Text) : Option (Bracket × Text) :=
  let (negative, first, r) := readClassStart flags s
  readMembers flags (s.length + 1) negative (.ofMembers first) r

end TimePhrase.Pattern
