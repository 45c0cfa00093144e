import TimePhrase.Script.Compile
import TimePhrase.Script.Eval

/-!
# Tag scripts and their registry

A tag script belongs to one group of one rule. The registry keeps the tag scripts of a grammar, at
most one for each group of each rule.

* `get?_put_self`, `get?_put_of_ne`  the registry after a script has been put in
-/

namespace TimePhrase

/-- The compiled script of a group. -/
structure TagScript where
  ruleId : Text
  group : Text
  source : Text
  statements : List Script.Statement
deriving DecidableEq, Inhabited

namespace TagScript

/-- Compiles the script of a group. -/
def compile (ruleId group source : Text) : Except Script.Error TagScript :=
  (Script.compileScript ruleId source).map fun statements => ⟨ruleId, group, source, statements⟩

/-- Runs the script on the text captured by its group. -/
def run (s : TagScript) (tables : Tables) (captured : Text) (facts : Dictionary) :
    Dictionary × Option Script.Error :=
  Script.runStatements tables captured facts s.statements

/-- Whether the script belongs to a group of a rule. -/
def isFor (s : TagScript) (ruleId group : Text) : Bool := s.ruleId == ruleId && s.group == group

end TagScript

/-- Where rules look up their scripts: the script of a group of a rule, if there is one. -/
abbrev Provider := Text → Text → Option TagScript

/-- Tag scripts, one for each group that has one, in the order in which the groups came in. -/
structure Registry where
  scripts : List TagScript
deriving DecidableEq, Inhabited

namespace Registry

/-- The registry without scripts. -/
def empty : Registry := ⟨[]⟩

/-- Number of scripts. -/
def size (r : Registry) : Nat := r.scripts.length

/-- The script of a group of a rule. -/
def get? (r : Registry) (ruleId group : Text) : Option TagScript :=
  r.scripts.find? fun s => s.isFor ruleId group

/-- A registry provides the scripts in it. -/
instance : Coe Registry Provider := ⟨get?⟩

/-- Puts a script in the place of the one of the same group, or at the end. -/
def putIn (s : TagScript) : List TagScript → List TagScript
  | [] => [s]
  | t :: r => if t.isFor s.ruleId s.group then s :: r else t :: putIn s r

/-- The registry with one more script, over an earlier one of the same group. -/
def put (r : Registry) (s : TagScript) : Registry := ⟨putIn s r.scripts⟩

/-- Compiles a script and puts it in. -/
def append (r : Registry) (ruleId group source : Text) : Except Script.Error Registry :=
  (TagScript.compile ruleId group source).map r.put

@[simp] theorem get?_empty (ruleId group : Text) : empty.get? ruleId group = none := rfl

theorem get?_put_self (r : Registry) (s : TagScript) :
    (r.put s).get? s.ruleId s.group = some s := by
  obtain ⟨ts⟩ := r
  simp only [put, get?]
  induction ts with
  | nil => simp [putIn, TagScript.isFor]
  | cons t ts ih =>
    simp only [putIn]
    split
    · simp [TagScript.isFor]
    · rename_i h
      simp [h, ih]

theorem get?_put_of_ne (r : Registry) (s : TagScript) {ruleId group : Text}
    (h : s.isFor ruleId group = false) : (r.put s).get? ruleId group = r.get? ruleId group := by
  obtain ⟨ts⟩ := r
  simp only [put, get?]
  induction ts with
  | nil => simp [putIn, h]
  | cons t ts ih =>
    simp only [putIn]
    split
    · rename_i ht
      have : t.isFor ruleId group = false := by
        simp only [TagScript.isFor, Bool.and_eq_true, beq_iff_eq] at ht
        simpa [TagScript.isFor, ht.1, ht.2] using h
      simp [h, this]
    · simp only [List.find?_cons, ih]

end Registry

end TimePhrase
