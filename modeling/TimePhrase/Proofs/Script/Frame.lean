import Mathlib.Data.Set.Insert
import TimePhrase.Proofs.Script.Inputs
import TimePhrase.Proofs.Script.Sequence

/-!
# What a script reads and writes

A run of a script depends on the facts that the script looks up, the tables that it names and the
text of its group, and it changes the facts that its statements set, as far as they are executed.

* `executed`, `exists_append_executed`  the statements before the end of a run or its fault
* `get?_runStatements_of_not_mem`, `get?_runStatements_append_cons`  what a run writes
* `Alike.runStatements`  two runs side by side
* `TagScript.run_frame`  what a script reads and writes
-/

namespace TimePhrase

namespace Dictionary

/-- Two dictionaries with the same entries, or none, at some keys. -/
def AgreeOn (keys : Set Text) (d d' : Dictionary) : Prop := ∀ key ∈ keys, d.get? key = d'.get? key

/-- After the same entry has been set in both, they agree on its key too. -/
theorem AgreeOn.insert {keys : Set Text} {d d' : Dictionary} (h : AgreeOn keys d d')
    (key value : Text) :
    AgreeOn (Insert.insert key keys) (d.insert key value) (d'.insert key value) := by
  intro k hk
  by_cases heq : key = k
  · rw [heq, get?_insert_self, get?_insert_self]
  · rw [get?_insert_of_ne d value heq, get?_insert_of_ne d' value heq]
    exact h k (Set.mem_of_mem_insert_of_ne hk (Ne.symm heq))

end Dictionary

namespace Script

/-! ## Executed statements -/

/-- The statements that a run executes before it ends or fails. -/
def executed (tables : Tables) (captured : Text) : Dictionary → List Statement → List Statement
  | _, [] => []
  | facts, s :: r =>
    match s.run tables captured facts with
    | .ok facts => s :: executed tables captured facts r
    | .error _ => []

section Executed

variable {tables : Tables} {captured : Text} {facts : Dictionary} {s : Statement}

theorem executed_cons_of_ok {v : Text} (h : s.value.eval tables facts captured = .ok v)
    (r : List Statement) :
    executed tables captured facts (s :: r) =
      s :: executed tables captured (facts.insert s.key v) r := by
  rw [executed, Statement.run_of_eval_eq_ok h]

theorem executed_cons_of_error {err : Error} (h : s.value.eval tables facts captured = .error err)
    (r : List Statement) : executed tables captured facts (s :: r) = [] := by
  rw [executed, Statement.run_of_eval_eq_error h]

/-- The executed statements are the first ones of the script. They set all facts that the run sets,
    and the statement behind them, if there is one, has the fault of the run. -/
theorem exists_append_executed (tables : Tables) (captured : Text) (facts : Dictionary)
    (script : List Statement) :
    ∃ rest, script = executed tables captured facts script ++ rest ∧
      runStatements tables captured facts (executed tables captured facts script) =
        ((runStatements tables captured facts script).1, none) ∧
      (rest = [] ∧ (runStatements tables captured facts script).2 = none ∨
        ∃ s r err, rest = s :: r ∧
          s.value.eval tables (runStatements tables captured facts script).1 captured = .error err ∧
          (runStatements tables captured facts script).2 = some err) := by
  induction script generalizing facts with
  | nil => exact ⟨[], rfl, rfl, .inl ⟨rfl, rfl⟩⟩
  | cons s r ih =>
    cases hvalue : s.value.eval tables facts captured with
    | ok v =>
      obtain ⟨rest, hrest, hrun, hend⟩ := ih (facts.insert s.key v)
      rw [executed_cons_of_ok hvalue, runStatements_cons_of_ok hvalue,
        runStatements_cons_of_ok hvalue]
      exact ⟨rest, congrArg (s :: ·) hrest, hrun, hend⟩
    | error err =>
      rw [executed_cons_of_error hvalue, runStatements_cons_of_error hvalue]
      exact ⟨s :: r, rfl, rfl, .inr ⟨s, r, err, rfl, hvalue, rfl⟩⟩

/-! ## What a run writes -/

/-- A key that no statement sets keeps its entry. -/
theorem get?_runStatements_of_not_mem (tables : Tables) (captured : Text) (facts : Dictionary)
    {script : List Statement} {key : Text} (h : key ∉ script.map Statement.key) :
    (runStatements tables captured facts script).1.get? key = facts.get? key := by
  induction script generalizing facts with
  | nil => rfl
  | cons s r ih =>
    rw [List.map_cons, List.mem_cons, not_or] at h
    cases hvalue : s.value.eval tables facts captured with
    | ok v =>
      rw [runStatements_cons_of_ok hvalue, ih _ h.2]
      exact Dictionary.get?_insert_of_ne facts v (Ne.symm h.1)
    | error err => rw [runStatements_cons_of_error hvalue]

/-- The last statement that sets a key sets it to the value that its expression has there. -/
theorem get?_runStatements_append_cons {before after : List Statement} {left : Dictionary}
    (h : runStatements tables captured facts (before ++ s :: after) = (left, none))
    (hlast : s.key ∉ after.map Statement.key) :
    ∃ v, s.value.eval tables (runStatements tables captured facts before).1 captured = .ok v ∧
      left.get? s.key = some v := by
  rw [runStatements_append] at h
  split at h
  · rename_i there hbefore
    rw [hbefore]
    cases hvalue : s.value.eval tables there captured with
    | ok v =>
      rw [runStatements_cons_of_ok hvalue] at h
      refine ⟨v, rfl, ?_⟩
      have hkept :=
        get?_runStatements_of_not_mem tables captured (there.insert s.key v) hlast
      rwa [h, Dictionary.get?_insert_self] at hkept
    | error err =>
      rw [runStatements_cons_of_error hvalue] at h
      exact nomatch (Prod.mk.inj h).2
  · exact nomatch (Prod.mk.inj h).2

end Executed

/-! ## What a run reads -/

/-- What two runs of a script have in common if they agree on the facts of some keys: the script
    looks up no other keys, it finds the same tables, and it reads the same text, if any. -/
structure Alike (keys : Set Text) (script : List Statement) (tables tables' : Tables)
    (captured captured' : Text) : Prop where
  lookups : ∀ key, .fact key ∈ inputsOf script → key ∈ keys
  tables : ∀ id, .table id ∈ inputsOf script → tables.get? id = tables'.get? id
  captured : .captured ∈ inputsOf script → captured = captured'

namespace Alike

variable {keys : Set Text} {tables tables' : Tables} {captured captured' : Text}
  {facts facts' : Dictionary} {s : Statement} {r script : List Statement}

theorem eval_eq (h : Alike keys (s :: r) tables tables' captured captured')
    (hfacts : facts.AgreeOn keys facts') :
    s.value.eval tables facts captured = s.value.eval tables' facts' captured' := by
  refine Expr.eval_congr fun x hx => ?_
  have hmem : x ∈ inputsOf (s :: r) := List.mem_append_left _ hx
  cases x with
  | captured => exact h.captured hmem
  | fact key => exact hfacts key (h.lookups key hmem)
  | table id => exact h.tables id hmem

/-- The statements behind one that sets the same fact in both runs. -/
theorem tail (h : Alike keys (s :: r) tables tables' captured captured') :
    Alike (insert s.key keys) r tables tables' captured captured' where
  lookups key hkey := Set.mem_insert_of_mem _ (h.lookups key (List.mem_append_right _ hkey))
  tables id hid := h.tables id (List.mem_append_right _ hid)
  captured hc := h.captured (List.mem_append_right _ hc)

/-- Two runs that read the same execute the same statements and end with the same fault. They still
    agree on the keys that they agreed on, and on those that they have set. -/
theorem runStatements (h : Alike keys script tables tables' captured captured')
    (hfacts : facts.AgreeOn keys facts') :
    (runStatements tables captured facts script).2 =
        (runStatements tables' captured' facts' script).2 ∧
      executed tables captured facts script = executed tables' captured' facts' script ∧
      (runStatements tables captured facts script).1.AgreeOn keys
        (runStatements tables' captured' facts' script).1 ∧
      ∀ t ∈ executed tables captured facts script,
        (runStatements tables captured facts script).1.get? t.key =
          (runStatements tables' captured' facts' script).1.get? t.key := by
  induction script generalizing keys facts facts' with
  | nil => exact ⟨rfl, rfl, hfacts, List.forall_mem_nil _⟩
  | cons s r ih =>
    have heq := h.eval_eq hfacts
    cases hvalue : s.value.eval tables facts captured with
    | ok v =>
      have hvalue' : s.value.eval tables' facts' captured' = .ok v := heq.symm.trans hvalue
      obtain ⟨hfault, hexecuted, hagree, hset⟩ := ih h.tail (hfacts.insert s.key v)
      rw [runStatements_cons_of_ok hvalue, runStatements_cons_of_ok hvalue',
        executed_cons_of_ok hvalue, executed_cons_of_ok hvalue']
      exact ⟨hfault, congrArg (s :: ·) hexecuted,
        fun key hkey => hagree key (Set.mem_insert_of_mem _ hkey),
        List.forall_mem_cons.mpr ⟨hagree s.key (Set.mem_insert _ _), hset⟩⟩
    | error err =>
      have hvalue' : s.value.eval tables' facts' captured' = .error err := heq.symm.trans hvalue
      rw [runStatements_cons_of_error hvalue, runStatements_cons_of_error hvalue',
        executed_cons_of_error hvalue, executed_cons_of_error hvalue']
      exact ⟨rfl, rfl, hfacts, List.forall_mem_nil _⟩

end Alike

end Script

namespace TagScript

open Script

/-- A run reads only the facts that the script looks up, the tables that it names and, if the script
    asks for it, the captured text: runs that find the same there execute the same statements, end
    with the same fault and set the same values. And it writes only the facts that its executed
    statements set, each of them to the value of the last one. -/
theorem run_frame (s : TagScript) (tables : Tables) (captured : Text) (facts : Dictionary) :
    (∀ (tables' : Tables) (captured' : Text) (facts' : Dictionary),
      (∀ key, .fact key ∈ inputsOf s.statements → facts.get? key = facts'.get? key) →
      (∀ id, .table id ∈ inputsOf s.statements → tables.get? id = tables'.get? id) →
      (captured = captured' ∨ .captured ∉ inputsOf s.statements) →
      (s.run tables captured facts).2 = (s.run tables' captured' facts').2 ∧
      executed tables captured facts s.statements =
        executed tables' captured' facts' s.statements ∧
      ∀ t ∈ executed tables captured facts s.statements,
        (s.run tables captured facts).1.get? t.key =
          (s.run tables' captured' facts').1.get? t.key) ∧
    (∃ rest, s.statements = executed tables captured facts s.statements ++ rest ∧
      runStatements tables captured facts (executed tables captured facts s.statements) =
        ((s.run tables captured facts).1, none) ∧
      (rest = [] ∧ (s.run tables captured facts).2 = none ∨
        ∃ t r err, rest = t :: r ∧
          t.value.eval tables (s.run tables captured facts).1 captured = .error err ∧
          (s.run tables captured facts).2 = some err)) ∧
    (∀ key, key ∉ (executed tables captured facts s.statements).map Statement.key →
      (s.run tables captured facts).1.get? key = facts.get? key) ∧
    ∀ before t after, executed tables captured facts s.statements = before ++ t :: after →
      t.key ∉ after.map Statement.key →
      ∃ v, t.value.eval tables (runStatements tables captured facts before).1 captured = .ok v ∧
        (s.run tables captured facts).1.get? t.key = some v := by
  obtain ⟨rest, hrest, hrun, hend⟩ := exists_append_executed tables captured facts s.statements
  refine ⟨fun tables' captured' facts' hfacts htables hcaptured => ?_, ⟨rest, hrest, hrun, hend⟩,
    fun key hkey => ?_, fun before t after hsplit hlast => ?_⟩
  · have halike : Alike (fun key => .fact key ∈ inputsOf s.statements) s.statements tables tables'
        captured captured' := ⟨fun _ h => h, htables, hcaptured.neg_resolve_right⟩
    obtain ⟨hfault, hexecuted, -, hset⟩ := halike.runStatements hfacts
    exact ⟨hfault, hexecuted, hset⟩
  · have hkept := get?_runStatements_of_not_mem tables captured facts hkey
    rwa [hrun] at hkept
  · rw [hsplit] at hrun
    exact get?_runStatements_append_cons hrun hlast

/-- Two runs with other facts, one more table and another text: the third statement fails in both,
    and the second one has set what the first one had set. -/
theorem run_frame_failing : ∃ s,
    TagScript.compile "rule" "Part0"
      "timex[a] = timex[x]; timex[a] = Normalize('#t', timex[a]) + '!'; timex[b] = Sum(timex[a], 1)"
      = .ok s ∧
    (s.run [.new "t" true] "one" (.ofList [("x", "1"), ("y", "2")])).2 =
      some (.nonIntegerOperand .sum "1!" "1") ∧
    (s.run [.new "u" true, .new "t" true] "two" (.ofList [("x", "1"), ("z", "3")])).2 =
      some (.nonIntegerOperand .sum "1!" "1") ∧
    (s.run [.new "t" true] "one" (.ofList [("x", "1"), ("y", "2")])).1.get? "a" = some "1!" ∧
    (s.run [.new "u" true, .new "t" true] "two" (.ofList [("x", "1"), ("z", "3")])).1.get? "a" =
      some "1!" ∧
    (s.run [.new "t" true] "one" (.ofList [("x", "1"), ("y", "2")])).1.get? "b" = none := by
  let first : Statement := ⟨"a", .lookup "x"⟩
  let second : Statement := ⟨"a", .concat (.normalize "t" (.lookup "a")) (.constant "!")⟩
  let third : Statement := ⟨"b", .sum (.lookup "a") (.constant "1")⟩
  let s : TagScript := ⟨"rule", "Part0",
    "timex[a] = timex[x]; timex[a] = Normalize('#t', timex[a]) + '!'; timex[b] = Sum(timex[a], 1)",
    [first, second, third]⟩
  obtain ⟨hreads, -, hkept, hset⟩ :=
    run_frame s [.new "t" true] "one" (.ofList [("x", "1"), ("y", "2")])
  have hinputs : inputsOf s.statements = [.fact "x", .table "t", .fact "a", .fact "a"] := rfl
  have hexecuted : executed [.new "t" true] "one" (.ofList [("x", "1"), ("y", "2")]) s.statements =
      [first, second] := by
    decide +kernel
  have hfault : (s.run [.new "t" true] "one" (.ofList [("x", "1"), ("y", "2")])).2 =
      some (.nonIntegerOperand .sum "1!" "1") := by
    decide +kernel
  obtain ⟨hfaults, -, hvalues⟩ := hreads [.new "u" true, .new "t" true] "two"
    (.ofList [("x", "1"), ("z", "3")])
    (fun key hkey => by
      simp only [hinputs, List.mem_cons, Input.fact.injEq, reduceCtorEq, List.not_mem_nil, or_false,
        false_or, or_self] at hkey
      rcases hkey with rfl | rfl
      · decide +kernel
      · decide +kernel)
    (fun id hid => by
      simp only [hinputs, List.mem_cons, Input.table.injEq, reduceCtorEq, List.not_mem_nil, or_false,
        false_or] at hid
      rw [hid]
      decide +kernel)
    (.inr (by decide +kernel))
  obtain ⟨v, hv, ha⟩ := hset [first] second [] hexecuted List.not_mem_nil
  obtain rfl : "1!" = v := by
    have hthere : second.value.eval [.new "t" true]
        (runStatements [.new "t" true] "one" (.ofList [("x", "1"), ("y", "2")]) [first]).1 "one" =
        .ok "1!" := by
      decide +kernel
    exact Except.ok.inj (hthere.symm.trans hv)
  have hsame := hvalues second (by rw [hexecuted]; exact List.mem_cons_of_mem _ List.mem_cons_self)
  exact ⟨s, by decide +kernel, hfault, hfaults.symm.trans hfault, ha, hsame.symm.trans ha,
    hkept "b" (by rw [hexecuted]; decide +kernel)⟩

end TagScript

end TimePhrase
