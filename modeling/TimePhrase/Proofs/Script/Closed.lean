import TimePhrase.Proofs.Script.Inputs
import TimePhrase.Script.Registry

/-!
# Closed scripts

A script is closed if all that its statements read will be there: the tables exist, and each key that
is looked up has been set, at the beginning or by a statement before. This is decided without
running anything, because a run sets the keys of its statements whatever the values are.

* `IsClosed`, `isClosed_cons`  closed scripts, statement by statement
* `call?_of_isClosed`  the faults that are left to a closed script
* `isClosed_of_runStatements`  only a closed script can succeed
* `TagScript.run_closed`  both together
-/

namespace TimePhrase.Script

/-- Whether a script finds all that it looks up, if it begins with these tables and facts. -/
structure IsClosed (tables : Tables) (facts : Dictionary) (script : List Statement) : Prop where
  tables : ∀ id, .table id ∈ inputsOf script → (tables.get? id).isSome = true
  facts : ∀ i (h : i < script.length) key, .fact key ∈ script[i].value.inputs →
    (facts.get? key).isSome = true ∨ key ∈ (script.take i).map Statement.key

variable {tables : Tables} {facts : Dictionary} {captured : Text} {script : List Statement}

theorem isClosed_nil (tables : Tables) (facts : Dictionary) : IsClosed tables facts [] :=
  ⟨fun _ h => absurd h List.not_mem_nil, fun _ h => absurd h (Nat.not_lt_zero _)⟩

/-- The first statement of a closed script is given all that it reads, and the others are closed
    after it, whatever its value is. -/
theorem isClosed_cons {s : Statement} {r : List Statement} (value : Text) :
    IsClosed tables facts (s :: r) ↔
      (∀ x ∈ s.value.inputs, x.isGiven tables facts = true) ∧
        IsClosed tables (facts.insert s.key value) r := by
  have hset (key : Text) : ((facts.insert s.key value).get? key).isSome = true ↔
      key = s.key ∨ (facts.get? key).isSome = true := by
    simpa [Input.isGiven] using Input.isGiven_insert tables facts (.fact key) s.key value
  constructor
  · intro h
    refine ⟨fun x hx => ?_, fun id hid => ?_, fun i hi key hkey => ?_⟩
    · cases x with
      | captured => rfl
      | table id => exact h.tables id (List.mem_append_left _ hx)
      | fact key =>
        rcases h.facts 0 (Nat.succ_pos _) key hx with hfound | hbefore
        · exact hfound
        · exact absurd hbefore List.not_mem_nil
    · exact h.tables id (List.mem_append_right _ hid)
    · rcases h.facts (i + 1) (Nat.succ_lt_succ hi) key hkey with hfound | hbefore
      · exact .inl ((hset key).mpr (.inr hfound))
      · rcases List.mem_cons.mp hbefore with hfirst | hbefore
        · exact .inl ((hset key).mpr (.inl hfirst))
        · exact .inr hbefore
  · rintro ⟨hfirst, hrest⟩
    refine ⟨fun id hid => ?_, fun i hi key hkey => ?_⟩
    · rcases List.mem_append.mp hid with hid | hid
      · exact hfirst (.table id) hid
      · exact hrest.tables id hid
    · cases i with
      | zero => exact .inl (hfirst (.fact key) hkey)
      | succ i =>
        rcases hrest.facts i (Nat.lt_of_succ_lt_succ hi) key hkey with hfound | hbefore
        · rcases (hset key).mp hfound with rfl | hfound
          · exact .inr List.mem_cons_self
          · exact .inl hfound
        · exact .inr (List.mem_cons_of_mem _ hbefore)

/-- Whether a script is closed is decided by going through its statements. -/
instance decidableIsClosed (tables : Tables) :
    ∀ (facts : Dictionary) (script : List Statement), Decidable (IsClosed tables facts script)
  | facts, [] => .isTrue (isClosed_nil tables facts)
  | facts, s :: r =>
    have := decidableIsClosed tables (facts.insert s.key []) r
    decidable_of_iff _ (isClosed_cons []).symm

/-- A closed script can only fail in a call that takes numbers. -/
theorem call?_of_isClosed {err : Error} (hclosed : IsClosed tables facts script)
    (h : (runStatements tables captured facts script).2 = some err) :
    ∃ f ∈ callsOf script, f ≠ .normalize ∧ err.call? = some f := by
  induction script generalizing facts with
  | nil => exact nomatch h
  | cons s r ih =>
    cases hvalue : s.value.eval tables facts captured with
    | ok v =>
      rw [runStatements_cons_of_ok hvalue] at h
      obtain ⟨f, hf, hcall⟩ := ih ((isClosed_cons v).mp hclosed).2 h
      exact ⟨f, List.mem_append_right _ hf, hcall⟩
    | error err' =>
      rw [runStatements_cons_of_error hvalue] at h
      obtain rfl := Option.some.inj h
      rcases Expr.blames_of_eval tables facts captured s.value err' hvalue with
        ⟨x, hx, hmissing, -⟩ | ⟨f, hf, hcall⟩
      · have hgiven := ((isClosed_cons []).mp hclosed).1 x hx
        rw [hmissing] at hgiven
        exact absurd hgiven Bool.false_ne_true
      · exact ⟨f, List.mem_append_left _ hf, hcall⟩

/-- A script that succeeds has found all that it reads, so it is closed. -/
theorem isClosed_of_runStatements (h : (runStatements tables captured facts script).2 = none) :
    IsClosed tables facts script := by
  induction script generalizing facts with
  | nil => exact isClosed_nil tables facts
  | cons s r ih =>
    cases hvalue : s.value.eval tables facts captured with
    | ok v =>
      rw [runStatements_cons_of_ok hvalue] at h
      exact (isClosed_cons v).mpr ⟨Expr.isGiven_of_eval_eq_ok hvalue, ih h⟩
    | error err =>
      rw [runStatements_cons_of_error hvalue] at h
      exact nomatch h

end TimePhrase.Script

namespace TimePhrase.TagScript

open Script

/-- Whether all keys and tables are found is told by the script, the tables and the first facts: a
    closed script finds them on any text, and without arithmetic and cuts nothing else can go wrong;
    a script that succeeds on some text is closed. -/
theorem run_closed (s : TagScript) (tables : Tables) (facts : Dictionary) :
    (IsClosed tables facts s.statements → ∀ captured,
      (∀ key, (s.run tables captured facts).2 ≠ some (.undefinedKey key)) ∧
      (∀ id, (s.run tables captured facts).2 ≠ some (.unknownTable id)) ∧
      ((∀ f ∈ [Function.sum, .minus, .mult, .substring], f ∉ callsOf s.statements) →
        (s.run tables captured facts).2 = none)) ∧
    ((∃ captured, (s.run tables captured facts).2 = none) →
      IsClosed tables facts s.statements) := by
  refine ⟨fun hclosed captured => ?_, fun ⟨captured, hrun⟩ => isClosed_of_runStatements hrun⟩
  have hcall : ∀ err, (s.run tables captured facts).2 = some err →
      ∃ f ∈ callsOf s.statements, f ≠ .normalize ∧ err.call? = some f :=
    fun err h => call?_of_isClosed hclosed h
  refine ⟨fun key h => ?_, fun id h => ?_, fun hcalls => ?_⟩
  · obtain ⟨f, -, -, hf⟩ := hcall _ h
    exact nomatch hf
  · obtain ⟨f, -, -, hf⟩ := hcall _ h
    exact nomatch hf
  · refine Option.eq_none_iff_forall_not_mem.mpr fun err h => ?_
    obtain ⟨f, hmem, hne, -⟩ := hcall err h
    refine hcalls f ?_ hmem
    cases f with
    | normalize => exact absurd rfl hne
    | _ => decide

/-- A script that is closed as long as the table is there, and a cut that a closed script makes
    behind the end of a text. -/
theorem run_closed_cut : ∃ named cut,
    TagScript.compile "rule" "Part0"
      "timex['a'] = Normalize('#t', value); timex['b'] = timex['a'] + timex['c']" = .ok named ∧
    TagScript.compile "rule" "Part0" "timex['a'] = Substring(timex['c'], value)" = .ok cut ∧
    (∀ captured, (named.run [.new "t" true] captured (.ofList [("c", "x")])).2 = none) ∧
    (¬∃ captured, (named.run [] captured (.ofList [("c", "x")])).2 = none) ∧
    (∀ captured key,
      (cut.run [] captured (.ofList [("c", "x")])).2 ≠ some (.undefinedKey key)) ∧
    (cut.run [] "2" (.ofList [("c", "x")])).2 = some (.outOfBounds "x" 2 (-1)) := by
  let named : TagScript := ⟨"rule", "Part0",
    "timex['a'] = Normalize('#t', value); timex['b'] = timex['a'] + timex['c']",
    [⟨"a", .normalize "t" .captured⟩, ⟨"b", .concat (.lookup "a") (.lookup "c")⟩]⟩
  let cut : TagScript := ⟨"rule", "Part0", "timex['a'] = Substring(timex['c'], value)",
    [⟨"a", .suffix (.lookup "c") .captured⟩]⟩
  refine ⟨named, cut, by decide +kernel, by decide +kernel, fun captured => ?_, fun hsucceeds => ?_,
    fun captured key => ?_, by decide +kernel⟩
  · obtain ⟨hclosed, -⟩ := run_closed named [.new "t" true] (.ofList [("c", "x")])
    exact (hclosed (by decide +kernel) captured).2.2 (by decide +kernel)
  · obtain ⟨-, hopen⟩ := run_closed named [] (.ofList [("c", "x")])
    exact absurd (hopen hsucceeds) (by decide +kernel)
  · obtain ⟨hclosed, -⟩ := run_closed cut [] (.ofList [("c", "x")])
    exact (hclosed (by decide +kernel) captured).1 key

end TimePhrase.TagScript
