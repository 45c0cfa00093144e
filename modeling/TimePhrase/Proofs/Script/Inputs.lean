import TimePhrase.Proofs.Fallible
import TimePhrase.Script.Eval

/-!
# What an expression reads

An expression reads the text of its group, facts and tables, and it calls functions. Its value and
its faults depend on nothing else: it has the same value wherever it reads the same, it has none
where something that it reads is missing, and a fault that is no missing input lies in a call.

* `Expr.inputs`, `Expr.calls`  what an expression reads, and the functions that it calls
* `Expr.eval_congr`  the same inputs give the same result
* `Expr.isGiven_of_eval_eq_ok`  a value needs all inputs
* `Expr.blames_of_eval`  what is to blame for a fault
* `inputsOf`, `callsOf`  the same of the statements of a script
-/

namespace TimePhrase.Script

/-- Something that an expression reads. -/
inductive Input where
  /-- The text captured by the group. -/
  | captured
  /-- A fact set earlier. -/
  | fact (key : Text)
  /-- A table of the grammar. -/
  | table (id : Text)
deriving DecidableEq

namespace Input

/-- Whether there is something to read. -/
def isGiven (tables : Tables) (facts : Dictionary) : Input → Bool
  | .captured => true
  | .fact key => (facts.get? key).isSome
  | .table id => (tables.get? id).isSome

/-- The fault of reading an input that is not given. -/
def fault? : Input → Option Error
  | .captured => none
  | .fact key => some (.undefinedKey key)
  | .table id => some (.unknownTable id)

/-- Whether the same is read in two places. -/
def Agrees (tables tables' : Tables) (facts facts' : Dictionary) (captured captured' : Text) :
    Input → Prop
  | .captured => captured = captured'
  | .fact key => facts.get? key = facts'.get? key
  | .table id => tables.get? id = tables'.get? id

/-- A fact is given after it has been set, and nothing else changes. -/
theorem isGiven_insert (tables : Tables) (facts : Dictionary) (x : Input) (key value : Text) :
    x.isGiven tables (facts.insert key value) = true ↔
      x = .fact key ∨ x.isGiven tables facts = true := by
  cases x with
  | captured => exact iff_of_true rfl (.inr rfl)
  | table id => simp [isGiven]
  | fact k =>
    by_cases hk : k = key
    · simp [isGiven, hk]
    · simp [isGiven, hk, Dictionary.get?_insert_of_ne facts value (Ne.symm hk)]

end Input

namespace Expr

/-- What an expression reads. -/
def inputs : Expr → List Input
  | .constant _ => []
  | .captured => [.captured]
  | .lookup key => [.fact key]
  | .concat left right | .sum left right | .minus left right | .mult left right =>
    left.inputs ++ right.inputs
  | .negation operand => operand.inputs
  | .normalize table operand => .table table :: operand.inputs
  | .substring operand start length => operand.inputs ++ (start.inputs ++ length.inputs)
  | .suffix operand start => operand.inputs ++ start.inputs

/-- The functions that an expression calls. -/
def calls : Expr → List Function
  | .constant _ | .captured | .lookup _ => []
  | .concat left right => left.calls ++ right.calls
  | .sum left right => .sum :: (left.calls ++ right.calls)
  | .minus left right => .minus :: (left.calls ++ right.calls)
  | .negation operand => .minus :: operand.calls
  | .mult left right => .mult :: (left.calls ++ right.calls)
  | .normalize _ operand => .normalize :: operand.calls
  | .substring operand start length =>
    .substring :: (operand.calls ++ (start.calls ++ length.calls))
  | .suffix operand start => .substring :: (operand.calls ++ start.calls)

/-! ## The same inputs -/

/-- An expression that reads the same has the same value, or the same fault. -/
theorem eval_congr {tables tables' : Tables} {facts facts' : Dictionary} {captured captured' : Text}
    {e : Expr} (h : ∀ x ∈ e.inputs, x.Agrees tables tables' facts facts' captured captured') :
    e.eval tables facts captured = e.eval tables' facts' captured' := by
  induction e with
  | constant value => rfl
  | captured => exact congrArg Except.ok (h .captured (List.mem_singleton_self _))
  | lookup key =>
    have hkey : facts.get? key = facts'.get? key := h (.fact key) (List.mem_singleton_self _)
    simp only [eval, hkey]
  | concat left right hl hr | sum left right hl hr | minus left right hl hr
  | mult left right hl hr =>
    obtain ⟨hleft, hright⟩ := List.forall_mem_append.mp h
    simp only [eval, hl hleft, hr hright]
  | negation operand ih => simp only [eval, ih h]
  | normalize table operand ih =>
    obtain ⟨htable, hoperand⟩ := List.forall_mem_cons.mp h
    have hfound : tables.get? table = tables'.get? table := htable
    simp only [eval, hfound, ih hoperand]
  | substring operand start length ho hs hl =>
    obtain ⟨hoperand, hcut⟩ := List.forall_mem_append.mp h
    obtain ⟨hstart, hlength⟩ := List.forall_mem_append.mp hcut
    simp only [eval, ho hoperand, hs hstart, hl hlength]
  | suffix operand start ho hs =>
    obtain ⟨hoperand, hstart⟩ := List.forall_mem_append.mp h
    simp only [eval, ho hoperand, hs hstart]

/-! ## Missing inputs -/

/-- What has a value has been given everything that it reads. -/
theorem isGiven_of_eval_eq_ok {tables : Tables} {facts : Dictionary} {captured : Text} {e : Expr}
    {v : Text} (h : e.eval tables facts captured = .ok v) :
    ∀ x ∈ e.inputs, x.isGiven tables facts = true := by
  induction e generalizing v with
  | constant value => exact List.forall_mem_nil _
  | captured => exact List.forall_mem_singleton.mpr rfl
  | lookup key =>
    refine List.forall_mem_singleton.mpr ?_
    rw [eval] at h
    split at h
    · rename_i value hvalue
      exact Option.isSome_iff_exists.mpr ⟨value, hvalue⟩
    · exact nomatch h
  | concat left right hl hr | sum left right hl hr | minus left right hl hr
  | mult left right hl hr =>
    obtain ⟨l, hleft, h⟩ := Except.bind_eq_ok.mp h
    obtain ⟨r, hright, -⟩ := Except.bind_eq_ok.mp h
    exact List.forall_mem_append.mpr ⟨hl hleft, hr hright⟩
  | negation operand ih =>
    obtain ⟨r, hoperand, -⟩ := Except.bind_eq_ok.mp h
    exact ih hoperand
  | normalize table operand ih =>
    rw [eval] at h
    split at h
    · exact nomatch h
    · rename_i t ht
      obtain ⟨value, hoperand, -⟩ := Except.bind_eq_ok.mp h
      exact List.forall_mem_cons.mpr ⟨Option.isSome_iff_exists.mpr ⟨t, ht⟩, ih hoperand⟩
  | substring operand start length ho hs hl =>
    obtain ⟨input, hoperand, h⟩ := Except.bind_eq_ok.mp h
    obtain ⟨i, hstart, h⟩ := Except.bind_eq_ok.mp h
    obtain ⟨_, -, h⟩ := Except.bind_eq_ok.mp h
    obtain ⟨n, hlength, -⟩ := Except.bind_eq_ok.mp h
    exact List.forall_mem_append.mpr
      ⟨ho hoperand, List.forall_mem_append.mpr ⟨hs hstart, hl hlength⟩⟩
  | suffix operand start ho hs =>
    obtain ⟨input, hoperand, h⟩ := Except.bind_eq_ok.mp h
    obtain ⟨i, hstart, -⟩ := Except.bind_eq_ok.mp h
    exact List.forall_mem_append.mpr ⟨ho hoperand, hs hstart⟩

end Expr

/-! ## Faults -/

/-- The call that a fault lies in, if it lies in one. -/
def Error.call? : Error → Option Function
  | .nonIntegerOperand f _ _ | .arithmeticOverflow f _ _ => some f
  | .outOfBounds .. => some .substring
  | _ => none

/-- A fault of arithmetic lies in the call. -/
theorem call?_of_arithmetic (operator : Function) (op : Int → Int → Int) (left right : Text) :
    (arithmetic operator op left right).FailsOnly fun err => err.call? = some operator := by
  unfold arithmetic
  split
  · split
    · exact .ok _
    · exact .error rfl
  · exact .error rfl

theorem call?_of_cutNumber (input s : Text) :
    (cutNumber input s).FailsOnly fun err => err.call? = some .substring := by
  unfold cutNumber
  split
  · exact .ok _
  · exact .error rfl

theorem call?_of_cutText (input : Text) (start length : Int) :
    (cutText input start length).FailsOnly fun err => err.call? = some .substring := by
  unfold cutText
  split_ifs
  · exact .error rfl
  · exact .ok _
  · exact .error rfl
  · exact .ok _

namespace Expr

/-- What may be to blame for a fault of an expression: an input that is not given, or a call that
    takes numbers. -/
def Blames (tables : Tables) (facts : Dictionary) (e : Expr) (err : Error) : Prop :=
  (∃ x ∈ e.inputs, x.isGiven tables facts = false ∧ x.fault? = some err) ∨
    ∃ f ∈ e.calls, f ≠ .normalize ∧ err.call? = some f

section Blames

variable {tables : Tables} {facts : Dictionary}

/-- What is to blame in a part of an expression is to blame in the whole. -/
theorem blames_of_part {captured : Text} {part e : Expr}
    (h : (part.eval tables facts captured).FailsOnly (part.Blames tables facts))
    (hinputs : part.inputs ⊆ e.inputs) (hcalls : part.calls ⊆ e.calls) :
    (part.eval tables facts captured).FailsOnly (e.Blames tables facts) := by
  refine h.mono fun err hblames => ?_
  obtain ⟨x, hx, hfault⟩ | ⟨f, hf, hcall⟩ := hblames
  · exact .inl ⟨x, hinputs hx, hfault⟩
  · exact .inr ⟨f, hcalls hf, hcall⟩

theorem blames_of_call {α : Type} {x : Except Error α} {f : Function} {e : Expr}
    (h : x.FailsOnly fun err => err.call? = some f) (hf : f ∈ e.calls) (hne : f ≠ .normalize) :
    x.FailsOnly (e.Blames tables facts) :=
  h.mono fun _ hcall => .inr ⟨f, hf, hne, hcall⟩

end Blames

/-- A fault of an expression is that of an input that is not given, or it lies in a call. -/
theorem blames_of_eval (tables : Tables) (facts : Dictionary) (captured : Text) (e : Expr) :
    (e.eval tables facts captured).FailsOnly (e.Blames tables facts) := by
  induction e with
  | constant value => exact .ok _
  | captured => exact .ok _
  | lookup key =>
    unfold eval
    split
    · exact .ok _
    · rename_i hkey
      exact .error (.inl ⟨.fact key, List.mem_singleton_self _, by simp [Input.isGiven, hkey], rfl⟩)
  | concat left right hl hr =>
    refine (blames_of_part hl ?_ ?_).bind fun l => (blames_of_part hr ?_ ?_).bind fun r => .ok _
    all_goals simp [inputs, calls]
  | sum left right hl hr | minus left right hl hr | mult left right hl hr =>
    refine (blames_of_part hl ?_ ?_).bind fun l => (blames_of_part hr ?_ ?_).bind fun r =>
      blames_of_call (call?_of_arithmetic _ _ l r) List.mem_cons_self (by decide)
    all_goals simp [inputs, calls]
  | negation operand ih =>
    refine (blames_of_part ih ?_ ?_).bind fun r =>
      blames_of_call (call?_of_arithmetic _ _ _ r) List.mem_cons_self (by decide)
    all_goals simp [inputs, calls]
  | normalize table operand ih =>
    unfold eval
    split
    · rename_i htable
      exact .error (.inl ⟨.table table, List.mem_cons_self, by simp [Input.isGiven, htable], rfl⟩)
    · refine (blames_of_part ih ?_ ?_).bind fun value => .ok _
      all_goals simp [inputs, calls]
  | substring operand start length ho hs hl =>
    have hnumber (input t : Text) : (cutNumber input t).FailsOnly
        ((Expr.substring operand start length).Blames tables facts) :=
      blames_of_call (call?_of_cutNumber input t) List.mem_cons_self (by decide)
    refine (blames_of_part ho ?_ ?_).bind fun input => (blames_of_part hs ?_ ?_).bind fun s =>
      (hnumber input s).bind fun i => (blames_of_part hl ?_ ?_).bind fun t =>
      (hnumber input t).bind fun n =>
      blames_of_call (call?_of_cutText input i n) List.mem_cons_self (by decide)
    all_goals simp +contextual [inputs, calls, List.subset_def]
  | suffix operand start ho hs =>
    refine (blames_of_part ho ?_ ?_).bind fun input => (blames_of_part hs ?_ ?_).bind fun s =>
      (blames_of_call (call?_of_cutNumber input s) List.mem_cons_self (by decide)).bind fun i =>
      blames_of_call (call?_of_cutText input i _) List.mem_cons_self (by decide)
    all_goals simp [inputs, calls]

end Expr

/-! ## Statements -/

/-- What the statements of a script read. -/
def inputsOf (script : List Statement) : List Input := script.flatMap fun s => s.value.inputs

/-- The functions that the statements of a script call. -/
def callsOf (script : List Statement) : List Function := script.flatMap fun s => s.value.calls

section Run

variable {tables : Tables} {facts : Dictionary} {captured : Text} {s : Statement}

theorem Statement.run_of_eval_eq_ok {v : Text} (h : s.value.eval tables facts captured = .ok v) :
    s.run tables captured facts = .ok (facts.insert s.key v) := by
  rw [Statement.run, h, Except.map]

theorem Statement.run_of_eval_eq_error {err : Error}
    (h : s.value.eval tables facts captured = .error err) :
    s.run tables captured facts = .error err := by
  rw [Statement.run, h, Except.map]

/-- After a statement that has a value, the others run on the facts with that value. -/
theorem runStatements_cons_of_ok {v : Text} (h : s.value.eval tables facts captured = .ok v)
    (r : List Statement) :
    runStatements tables captured facts (s :: r) =
      runStatements tables captured (facts.insert s.key v) r := by
  rw [runStatements, Statement.run_of_eval_eq_ok h]

/-- A statement that has no value ends the run. -/
theorem runStatements_cons_of_error {err : Error}
    (h : s.value.eval tables facts captured = .error err) (r : List Statement) :
    runStatements tables captured facts (s :: r) = (facts, some err) := by
  rw [runStatements, Statement.run_of_eval_eq_error h]

end Run

end TimePhrase.Script
