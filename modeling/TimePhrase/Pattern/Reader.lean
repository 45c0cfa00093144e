import TimePhrase.Pattern.Automaton.Size
import TimePhrase.Pattern.Bracket
import TimePhrase.Pattern.Compose
import TimePhrase.Text.Integer
import TimePhrase.Text.Numeral

/-!
# Reading patterns

The written form of patterns: literals, classes, groups, alternatives, repetitions, assertions and
flags. A text that is no pattern is refused as a whole; what is wrong with it is not told. Which
characters have a property is looked up in the table that the pattern is read with.

* `Pattern.read?`  reads a whole text
-/

namespace TimePhrase.Pattern

/-- A pattern with the depth of its written form: groups, repetitions, sequences, choices and
    bracketed classes that stand one inside another. -/
structure Written where
  pattern : Pattern
  depth : Nat

namespace Written

/-- The deepest nesting that is accepted. -/
def depthLimit : Nat := 250

/-- The depth of parts that stand side by side. A single part stands for itself. -/
def depthOf : List Written → Nat
  | [] => 0
  | [w] => w.depth
  | ws => (ws.map depth).foldl max 0 + 1

/-- One after the other. -/
def sequence (ws : List Written) : Written := ⟨Pattern.sequence (ws.map pattern), depthOf ws⟩

/-- The first that matches. -/
def choice (ws : List Written) : Written := ⟨Pattern.choice (ws.map pattern), depthOf ws⟩

/-- Whether the pattern keeps within the limits. -/
def withinLimits (w : Written) : Bool := w.depth ≤ depthLimit && w.pattern.fits

end Written

/-! ## Atoms -/

/-- The characters that a character stands for. -/
def Flags.variants (f : Flags) (c : Char) : List Char :=
  if f.caseless then
    if f.unicode then caseVariants c
    else if c.toNat < 128 then (caseVariants c).filter fun d => d.toNat < 128
    else [c]
  else [c]

/-- A character that stands for itself. -/
def letter (flags : Flags) (c : Char) : Pattern :=
  match flags.variants c with
  | [_] => .literal [c]
  | variants => .char (.ofText variants)

/-- Reads an atom that is neither a group nor a sign with another meaning. -/
def readAtom [PropertyTable] (flags : Flags) : Text → Option (Written × Text)
  | [] => none
  | '\\' :: r =>
    match readEscape flags r with
    | some (.literal c, r) => some (⟨letter flags c, 0⟩, r)
    | some (.set s, r) => some (⟨.ofSet s, 0⟩, r)
    | some (.assertion a, r) => some (⟨.assertion a, 0⟩, r)
    | none => none
  | '[' :: r => (readBracket flags r).map fun (b, r) => (⟨.ofSet b.set, b.depth⟩, r)
  | '.' :: r =>
    let lineEnds : Text := if flags.returns then ['\n', '\r'] else ['\n']
    let set : CharSet := if flags.dotAll then .any else .anyBut lineEnds
    (flags.allow? set).map fun set => (⟨.char set, 0⟩, r)
  | '^' :: r =>
    let start : Assertion := if flags.multiLine then .lineStart flags.returns else .textStart
    some (⟨.assertion start, 0⟩, r)
  | '$' :: r =>
    let stop : Assertion := if flags.multiLine then .lineEnd flags.returns else .textEnd
    some (⟨.assertion stop, 0⟩, r)
  | c :: r => some (⟨letter flags c, 0⟩, r)

/-! ## Repetitions -/

/-- Reads a number of 32 bits, with blanks around it. -/
def readCount (flags : Flags) (s : Text) : Option (Nat × Text) :=
  let (digits, rest) := takeSpacedWhile flags Char.isDigit s.length (s.dropWhile isBlank)
  match Text.toNat? digits with
  | some n => if n ≤ 4294967295 then some (n, flags.skip (rest.dropWhile isBlank)) else none
  | none => none

/-- Reads the bounds of a counted repetition, after the opening brace. -/
def readBounds (flags : Flags) (s : Text) : Option ((Nat × Option Nat) × Text) :=
  match readCount flags (flags.skip s) with
  | none => none
  | some (least, '\x7d' :: r) => some ((least, some least), r)
  | some (least, ',' :: r) =>
    match flags.skip r with
    | '\x7d' :: r => some ((least, none), r)
    | r =>
      match readCount flags r with
      | some (most, '\x7d' :: r) => if least ≤ most then some ((least, some most), r) else none
      | _ => none
  | some _ => none

/-- The bounds of the repetition sign that a text begins with. The inner option is empty where
    there is no sign; the outer one where there is a faulty one. -/
def readSign (flags : Flags) : Text → Option (Option ((Nat × Option Nat) × Text))
  | '*' :: r => some (some ((0, none), r))
  | '+' :: r => some (some ((1, none), r))
  | '?' :: r => some (some ((0, some 1), r))
  | '\x7b' :: r => (readBounds flags r).map fun (bounds, r) => some (bounds, flags.skip r)
  | _ => some none

/-- Reads the repetition signs after an atom. A question mark after a sign turns it around. `fuel`
    bounds the number of signs. -/
def readRepetitions (flags : Flags) : Nat → Written → Text → Option (Written × Text)
  | 0, w, s => some (w, s)
  | fuel + 1, w, s =>
    match readSign flags (flags.skip s) with
    | none => none
    | some none => some (w, s)
    | some (some ((least, most), r)) =>
      -- Signs can follow each other: the next one repeats the repetition.
      let (turned, r) := match r with
        | '?' :: r => (true, r)
        | r => (false, r)
      let p := w.pattern.repeated least most (turned == flags.lazyFirst)
      readRepetitions flags fuel ⟨p, w.depth + 1⟩ r

/-! ## Groups -/

/-- What the opening parenthesis of a group can be followed by. -/
inductive Opening where
  /-- A body that is numbered as a group, with its name. -/
  | numbered (name : Option Text)
  /-- A body with its settings. -/
  | plain (flags : Flags)
  /-- Settings for the rest of the group around it, and the closing parenthesis. -/
  | settings (flags : Flags)

/-- Whether a character can stand in the name of a group. -/
def isNameChar (first : Bool) (c : Char) : Bool :=
  c == '_' || if first then isLetter c else c == '.' || c == '[' || c == ']' || isAlphanumeric c

/-- Reads a name up to its closing angle bracket. -/
def readName (s : Text) : Option (Text × Text) :=
  match Text.splitOnce '>' s with
  | some (c :: name, rest) =>
    if isNameChar true c && name.all (isNameChar false) then some (c :: name, rest) else none
  | _ => none

/-- Reads flag letters up to a colon or a closing parenthesis. `seen` holds the letters so far, the
    minus sign included, none of which may come twice; a minus sign may not be the last one. -/
def readFlags (flags : Flags) (seen : List Char) : Text → Option (Opening × Text)
  | [] => none
  | ':' :: r => if seen.head? = some '-' then none else some (.plain flags, r)
  | ')' :: r =>
    if seen.isEmpty ∨ seen.head? = some '-' then none else some (.settings flags, r)
  | c :: r =>
    if seen.contains c then none
    else if c = '-' then readFlags flags (c :: seen) r
    else
      match flags.set? c (!seen.contains '-') with
      | some flags => readFlags flags (c :: seen) r
      | none => none

/-- Reads what follows an opening parenthesis. -/
def readOpening (flags : Flags) (s : Text) : Option (Opening × Text) :=
  match flags.skip s with
  | '?' :: 'P' :: '<' :: r => (readName r).map fun (name, r) => (.numbered (some name), r)
  | '?' :: '<' :: r => (readName r).map fun (name, r) => (.numbered (some name), r)
  | '?' :: r => readFlags flags [] r
  | r => some (.numbered none, r)

/-- The numbered groups so far: how many, and their names, none of which may come twice. -/
structure Groups where
  count : Nat
  names : List Text

namespace Groups

/-- No groups. -/
def none : Groups := ⟨0, []⟩

/-- One more group. -/
def add? (g : Groups) (name : Option Text) : Option Groups :=
  if name.any g.names.contains then .none else some ⟨g.count + 1, name.toList ++ g.names⟩

end Groups

/-! ## Bodies -/

/-- What has been read of a body: the alternatives before the last one, and the members of that,
    the latest first. -/
structure Body where
  alternatives : List Written
  members : List Written

namespace Body

/-- Nothing read. -/
def none : Body := ⟨[], []⟩

/-- One more member. -/
def add (b : Body) (w : Written) : Body := { b with members := w :: b.members }

/-- The members so far are an alternative. -/
def close (b : Body) : Body := ⟨Written.sequence b.members.reverse :: b.alternatives, []⟩

/-- All alternatives. -/
def value (b : Body) : Written := Written.choice b.close.alternatives.reverse

end Body

/-- Reads a body up to the closing parenthesis of its group or the end of the text. `fuel` bounds
    the number of steps. -/
def readBody [PropertyTable] : Nat → Flags → Groups → Body → Text → Option (Written × Groups × Text)
  | 0, _, _, _, _ => none
  | fuel + 1, flags, groups, body, s =>
    match flags.skip s with
    | [] => some (body.value, groups, [])
    | ')' :: r => some (body.value, groups, ')' :: r)
    | '|' :: r => readBody fuel flags groups body.close r
    -- There is nothing to repeat: every sign that follows an atom is read together with it.
    | '*' :: _ | '+' :: _ | '?' :: _ | '\x7b' :: _ => none
    | '(' :: r =>
      match readOpening flags r with
      | none => none
      -- The settings hold for what is left of this body, alternatives included.
      | some (.settings flags, r) => readBody fuel flags groups (body.add ⟨.empty, 0⟩) r
      | some (.plain inner, r) =>
        match readBody fuel inner groups .none r with
        | some (w, groups, ')' :: r) =>
          match readRepetitions flags fuel ⟨w.pattern, w.depth + 1⟩ r with
          | some (w, r) => readBody fuel flags groups (body.add w) r
          | none => none
        | _ => none
      | some (.numbered name, r) =>
        match groups.add? name with
        | none => none
        | some inside =>
          match readBody fuel flags inside .none r with
          | some (w, groups, ')' :: r) =>
            let whole : Written := ⟨.group inside.count name w.pattern, w.depth + 1⟩
            match readRepetitions flags fuel whole r with
            | some (w, r) => readBody fuel flags groups (body.add w) r
            | none => none
          | _ => none
    | s =>
      match readAtom flags s with
      | none => none
      | some (atom, r) =>
        match readRepetitions flags fuel atom r with
        | some (w, r) => readBody fuel flags groups (body.add w) r
        | none => none

/-- Reads a whole text as a pattern that keeps within the limits. -/
def read? [PropertyTable] (caseless : Bool) (s : Text) : Option Pattern :=
  match readBody (s.length + 1) (.initial caseless) .none .none s with
  | some (w, _, []) => if w.withinLimits then some w.pattern else none
  | _ => none

end TimePhrase.Pattern
