import TimePhrase.Engine

/-!
# Requests

The arguments of a command line as a request. A command word comes first, with at most the option
for case before it; options and operands follow in any order, and after a double hyphen everything
is an operand. An option may be given once.

* `Request.ofArguments`  the request, or why there is none
-/

namespace TimePhrase.CommandLine

/-! ## Requests -/

/-- How matches are looked for and shown. -/
inductive Mode where
  /-- Matches without overlaps, as far as no negative rule suppresses them. -/
  | extract
  /-- The match of the whole text. -/
  | exact
  /-- Every match of every rule, in the raw form. -/
  | raw
deriving DecidableEq, Repr

/-- What is to be done with a grammar. -/
inductive Task where
  | check
  | search (text : Text) (mode : Mode) (kinds : KindSet)
deriving DecidableEq, Repr

/-- A task for the grammar in the file at a path. -/
structure Request where
  path : Text
  caseSensitive : Bool
  task : Task
deriving DecidableEq, Repr

/-- What is wrong with arguments. -/
inductive Misuse where
  | noCommand
  | unknownCommand (word : Text)
  | unexpected (word : Text)
  | repeated (option : Text)
  | noValue (option : Text)
  | unknownKinds (list : Text)
  | conflict
  | missingOperand
deriving DecidableEq, Repr

namespace Misuse

/-- The report of a misuse. -/
def message : Misuse → Text
  | .noCommand => "a command is required: check or match"
  | .unknownCommand word => "unknown command '" ++ word ++ "'"
  | .unexpected word => "unexpected argument '" ++ word ++ "'"
  | .repeated option => "option '--" ++ option ++ "' is given more than once"
  | .noValue option => "option '--" ++ option ++ "' needs a value"
  | .unknownKinds list => KindSet.unknownMessage list
  | .conflict => "options '--exact' and '--raw' exclude each other"
  | .missingOperand => "an operand is missing"

end Misuse

/-- Why there is no request. -/
inductive Stop where
  | helpAsked
  | versionAsked
  | misuse (cause : Misuse)
deriving DecidableEq, Repr

/-! ## Words -/

/-- An argument by its form. -/
inductive Word where
  | doubleHyphen
  /-- A name after two hyphens, with the value after an equals sign. -/
  | long (name : Text) (value : Option Text)
  /-- Letters after one hyphen. -/
  | short (letters : Text)
  | operand
deriving DecidableEq, Repr

namespace Word

/-- The form of an argument. A lone hyphen is an operand. -/
def ofText : Text → Word
  | ['-'] => .operand
  | ['-', '-'] => .doubleHyphen
  | '-' :: '-' :: r =>
    match Text.splitOnce '=' r with
    | some (name, value) => .long name (some value)
    | none => .long r none
  | '-' :: r => .short r
  | _ => .operand

/-- Whether an argument asks for help. -/
def asksHelp : Word → Bool
  | .long name value => name = "help" ∧ value = none
  | .short letters => letters.head? = some 'h'
  | _ => false

/-- Whether an argument asks for the version. -/
def asksVersion : Word → Bool
  | .long name value => name = "version" ∧ value = none
  | .short letters => letters.head? = some 'V'
  | _ => false

end Word

/-! ## Options and operands -/

/-- The commands. -/
inductive Command where
  | check
  | search
deriving DecidableEq, Repr

namespace Command

/-- Reads a command word. -/
def ofText? (word : Text) : Option Command :=
  if word = "check" then some .check else if word = "match" then some .search else none

/-- The number of operands that the command takes. -/
def arity : Command → Nat
  | .check => 1
  | .search => 2

end Command

/-- What has been given to a command so far. -/
structure Given where
  caseSensitive : Bool
  exact : Bool
  raw : Bool
  kinds : Option KindSet
  operands : List Text
deriving DecidableEq, Repr

namespace Given

/-- Nothing. -/
def nothing : Given := ⟨false, false, false, none, []⟩

/-- Takes an operand, if the command takes one more. The first one is a path and may not be
    empty. -/
def addOperand (c : Command) (g : Given) (word : Text) : Except Stop Given :=
  if c.arity ≤ g.operands.length then .error (.misuse (.unexpected word))
  else if g.operands.isEmpty ∧ word.isEmpty then .error (.misuse (.unexpected word))
  else .ok { g with operands := g.operands ++ [word] }

/-- Takes operands one after the other. -/
def addOperands (c : Command) (g : Given) (words : List Text) : Except Stop Given :=
  words.foldlM (addOperand c) g

/-- Takes the list of kinds. -/
def addKinds (g : Given) (list : Text) : Except Stop Given :=
  if g.kinds.isSome then .error (.misuse (.repeated "types"))
  else
    match KindSet.ofList? list with
    | some kinds => .ok { g with kinds := some kinds }
    | none => .error (.misuse (.unknownKinds list))

/-- Takes an option without a value. -/
def addFlag (c : Command) (g : Given) (name : Text) : Except Stop Given :=
  if name = "case-sensitive" then
    if g.caseSensitive then .error (.misuse (.repeated name))
    else .ok { g with caseSensitive := true }
  else if name = "exact" ∧ c = .search then
    if g.exact then .error (.misuse (.repeated name)) else .ok { g with exact := true }
  else if name = "raw" ∧ c = .search then
    if g.raw then .error (.misuse (.repeated name)) else .ok { g with raw := true }
  else .error (.misuse (.unexpected ("--" ++ name)))

/-- Takes the arguments after the command word. -/
def readArguments (c : Command) : Given → List Text → Except Stop Given
  | g, [] => .ok g
  | g, word :: r =>
    if (Word.ofText word).asksHelp then .error .helpAsked
    else
      match Word.ofText word with
      | .doubleHyphen => g.addOperands c r
      | .operand => (g.addOperand c word).bind fun g => readArguments c g r
      | .short _ => .error (.misuse (.unexpected word))
      | .long name value =>
        if name = "types" ∧ c = .search then
          match value, r with
          | some list, r => (g.addKinds list).bind fun g => readArguments c g r
          | none, list :: r =>
            -- What looks like an option is no value, even of an option that needs one.
            if Word.ofText list = .operand then
              (g.addKinds list).bind fun g => readArguments c g r
            else .error (.misuse (.noValue name))
          | none, [] => .error (.misuse (.noValue name))
        else if value.isSome then .error (.misuse (.unexpected word))
        else (g.addFlag c name).bind fun g => readArguments c g r

end Given

/-! ## Whole command lines -/

namespace Request

/-- The request that a command has been given. -/
def ofGiven (c : Command) (g : Given) : Except Stop Request :=
  if g.exact ∧ g.raw then .error (.misuse .conflict)
  else
    match c, g.operands with
    | .check, [path] => .ok ⟨path, g.caseSensitive, .check⟩
    | .search, [path, text] =>
      let mode : Mode := if g.exact then .exact else if g.raw then .raw else .extract
      .ok ⟨path, g.caseSensitive, .search text mode (g.kinds.getD .all)⟩
    | _, _ => .error (.misuse .missingOperand)

/-- The request of a command with its arguments. -/
def ofCommand (c : Command) (arguments : List Text) : Except Stop Request :=
  (Given.nothing.readArguments c arguments).bind (ofGiven c)

/-- Why the arguments of the word `help` are no request. They may name a command. -/
def helpStop (arguments : List Text) : Stop :=
  match arguments with
  | [] => .helpAsked
  | word :: r =>
    if (Command.ofText? word).isNone ∧ word ≠ "help" then .misuse (.unknownCommand word)
    else
      match r with
      | [] => .helpAsked
      | extra :: _ => .misuse (.unexpected extra)

/-- The request of a command line. `caseSensitive` says that the option for case has come. -/
def read (caseSensitive : Bool) : List Text → Except Stop Request
  | [] => .error (.misuse .noCommand)
  | word :: r =>
    match Command.ofText? word with
    | some c =>
      (ofCommand c r).map fun q => { q with caseSensitive := q.caseSensitive || caseSensitive }
    | none =>
      if word = "help" then .error (helpStop r)
      else if (Word.ofText word).asksHelp then .error .helpAsked
      else if (Word.ofText word).asksVersion then .error .versionAsked
      else if Word.ofText word = .long "case-sensitive" none then
        if caseSensitive then .error (.misuse (.repeated "case-sensitive")) else read true r
      else if Word.ofText word = .operand then .error (.misuse (.unknownCommand word))
      else .error (.misuse (.unexpected word))

/-- The request of a command line. -/
def ofArguments (arguments : List Text) : Except Stop Request := read false arguments

end Request

end TimePhrase.CommandLine
