import TimePhrase.CommandLine.Request
import TimePhrase.Report.Match

/-!
# Outcomes

What a request comes to, given the content of its grammar file: a printed result, or complaints
with an exit code that is not zero. Every fault of a grammar is complained of, and then that the
grammar failed to load.

* `Request.outcome`  the outcome of a request
* `Stop.outcome`  the outcome of a command line that is no request
-/

namespace TimePhrase.CommandLine

/-- What a command line comes to. -/
structure Outcome where
  code : Nat
  output : Text
  /-- What is said on the side, a complaint at a time. -/
  complaints : List Text
deriving DecidableEq, Repr

namespace Outcome

/-- Success, with a printed result. -/
def success (output : Text) : Outcome := ⟨0, output ++ "\n", []⟩

/-- Failure, with the message that ends the program after those before it. -/
def failure (before : List Text) (message : Text) : Outcome :=
  ⟨1, [], before.map (("error: " : Text) ++ ·) ++ ["Error: " ++ message]⟩

end Outcome

namespace Request

/-- The outcome of a task that prints reports. -/
def reported (form : Match → Report) (found : Except MatchError (List Match)) : Outcome :=
  match found with
  | .ok ms => .success (Report.list (ms.map form)).render
  | .error e => .failure [] e.message

/-- The outcome of a search in a text. -/
def searched (g : Grammar) (text : Text) (mode : Mode) (kinds : KindSet) : Outcome :=
  match mode with
  | .extract => reported Match.report (g.extract kinds text).2
  | .exact => reported Match.report ((g.matchExact kinds text).2.map Option.toList)
  | .raw =>
    reported Match.rawReport
      ((g.matchAll text).2.map fun ms => ms.filter fun m => kinds.has m.kind)

/-- The outcome of a request. The file has no content if it cannot be read. -/
def outcome [PropertyTable] (q : Request) (content : Option Text) : Outcome :=
  match content with
  | none => .failure [] ("reading grammar " ++ q.path)
  | some source =>
    match Grammar.ofDocument q.caseSensitive source with
    | .error faults =>
      .failure (faults.map LoadError.message)
        (q.path ++ " failed to load with " ++ Text.ofNat faults.length ++ " error(s)")
    | .ok g =>
      match q.task with
      | .check =>
        .success (q.path ++ ": " ++ Text.ofNat g.book.rules.length ++ " rules, "
          ++ Text.ofNat g.book.negativeRules.length ++ " negative rules")
      | .search text mode kinds => searched g text mode kinds

end Request

/-- How the program is called. -/
def usage : Text :=
  "usage: timephrase [--case-sensitive] check GRAMMAR\n"
    ++ "       timephrase [--case-sensitive] match [--exact | --raw] [--types LIST] GRAMMAR TEXT"

/-- The name and the version of the program. -/
def version : Text := "timephrase 0.1.0"

/-- The outcome of a command line that is no request. -/
def Stop.outcome : Stop → Outcome
  | .helpAsked => .success usage
  | .versionAsked => .success version
  | .misuse cause => ⟨2, [], ["error: " ++ cause.message, usage]⟩

end TimePhrase.CommandLine
