import TimePhrase.Proofs.Script.RoundTrip

/-!
# The shapes of expressions, one by one

The table of shapes as a list of data. So it can be put into another order, and what the shapes have
in common is said once for all of them.

* `Form`, `Form.read`, `Form.fits`  the shapes, and the sources of each
* `Form.read_congr`, `Form.read_mono`  a shape compiles nothing but texts shorter than the source
* `compileInOrder`, `compileInOrder_eq`  the compiler for another order, and its equation
-/

namespace TimePhrase.Script

/-- The shapes of expressions. -/
inductive Form where
  | concat
  | call (function : Function)
  | lookup
  | captured
  | constant
deriving DecidableEq

namespace Form

/-- The shapes in the order of the table. -/
def all : List Form :=
  [.concat, .call .normalize, .call .substring, .call .sum, .call .minus, .call .mult, .lookup,
    .captured, .constant]

/-- Reads a source of the shape. -/
def read (compile : Text → Except Error Expr) (ruleId : Text) :
    Form → Text → Except Error (Option Expr)
  | .concat, source => readConcat compile ruleId source
  | .call f, source => readFunction compile ruleId f source
  | .lookup, source => .ok ((wholeLookup source).map .lookup)
  | .captured, source => .ok (if source = "value" then some .captured else none)
  | .constant, source => .ok ((wholeLiteral source).map .constant)

/-- The name of the shape in the table. -/
def name : Form → Text
  | .concat => "concatenation"
  | .call f => f.name
  | .lookup => "lookup"
  | .captured => "value"
  | .constant => "constant"

/-- The shape with its name. -/
def shape (compile : Text → Except Error Expr) (ruleId : Text) (form : Form) : Shape Expr :=
  ⟨form.name, form.read compile ruleId⟩

theorem map_shape_all (compile : Text → Except Error Expr) (ruleId : Text) :
    all.map (shape compile ruleId) = expressionShapes compile ruleId := rfl

theorem mem_all (form : Form) : form ∈ all := by
  cases form with
  | call f => cases f <;> decide
  | _ => decide

theorem nodup_all : all.Nodup := by decide

/-- Whether a source has the shape, before its parts are compiled. -/
def fits : Form → Text → Bool
  | .concat, source => 2 ≤ (splitTopLevel (· == '+') source).length
  | .call f, source => (callArguments f.name source).isSome
  | .lookup, source => (wholeLookup source).isSome
  | .captured, source => source = "value"
  | .constant, source => (wholeLiteral source).isSome

end Form

/-! ## What a shape makes of its parts -/

section Parts

variable {compile : Text → Except Error Expr} {ruleId source : Text} {e : Expr}

theorem readConcat_eq_ok : readConcat compile ruleId source = .ok (some e) ↔
    2 ≤ (splitTopLevel (· == '+') source).length ∧
      (splitTopLevel (· == '+') source).any Text.isBlank = false ∧
      ∃ first others, (splitTopLevel (· == '+') source).mapM compile = .ok (first :: others) ∧
        others.foldl .concat first = e := by
  unfold readConcat
  dsimp only
  constructor
  · intro h
    split at h
    · simp at h
    rename_i hlen
    split at h
    · simp at h
    rename_i hblank
    obtain ⟨es, hes, h⟩ := Except.bind_eq_ok.mp h
    split at h
    · simp at h
    · rename_i first others
      exact ⟨by omega, by simpa using hblank, first, others, hes, by simpa using h⟩
  · rintro ⟨hlen, hblank, first, others, hes, rfl⟩
    rw [if_neg (by omega), if_neg (by simp [hblank]), hes]
    rfl

theorem readCall_eq_ok {f : Function} {least most : Nat} {es : List Expr} :
    readCall compile ruleId f least most source = .ok (some es) ↔
      ∃ arguments parts, callArguments f.name source = some arguments ∧
        splitArguments ruleId f least most source arguments = .ok parts ∧
        parts.mapM compile = .ok es := by
  rw [readCall]
  constructor
  · intro h
    split at h
    · simp at h
    rename_i arguments hcall
    obtain ⟨parts, hparts, h⟩ := Except.bind_eq_ok.mp h
    obtain ⟨es', hes, h⟩ := Except.bind_eq_ok.mp h
    obtain rfl : es' = es := by simpa using h
    exact ⟨arguments, parts, hcall, hparts, hes⟩
  · rintro ⟨arguments, parts, hcall, hparts, hes⟩
    simp only [hcall, hparts, hes, bind, Except.bind]
    rfl

theorem readNormalize_eq_ok : readNormalize compile ruleId source = .ok (some e) ↔
    ∃ arguments table operand literal value,
      callArguments (Function.name .normalize) source = some arguments ∧
      splitArguments ruleId .normalize 2 2 source arguments = .ok [table, operand] ∧
      wholeLiteral table = some literal ∧ (tableId literal).isEmpty = false ∧
      compile operand = .ok value ∧ .normalize (tableId literal) value = e := by
  rw [readNormalize]
  constructor
  · intro h
    split at h
    · simp at h
    rename_i arguments hcall
    obtain ⟨parts, hparts, h⟩ := Except.bind_eq_ok.mp h
    split at h
    case h_2 => simp at h
    rename_i table operand
    split at h
    · simp at h
    rename_i literal hliteral
    dsimp only at h
    split at h
    · simp at h
    rename_i hne
    obtain ⟨value, hvalue, h⟩ := Except.bind_eq_ok.mp h
    exact ⟨arguments, table, operand, literal, value, hcall, hparts, hliteral, by simpa using hne,
      hvalue, by simpa using h⟩
  · rintro ⟨arguments, table, operand, literal, value, hcall, hparts, hliteral, hne, hvalue, rfl⟩
    simp only [hcall, hparts, hliteral, hne, hvalue, bind, Except.bind]
    rfl

/-- How many operands a call takes. The table of a normalization is one of them. -/
def Function.arity : Function → Nat × Nat
  | .normalize | .sum | .mult => (2, 2)
  | .substring => (2, 3)
  | .minus => (1, 2)

/-- What a call makes of its compiled operands, unless one of them is a table. -/
def Function.apply : Function → List Expr → Option Expr
  | .substring, [operand, start] => some (.suffix operand start)
  | .substring, [operand, start, length] => some (.substring operand start length)
  | .sum, [left, right] => some (.sum left right)
  | .minus, [operand] => some (.negation operand)
  | .minus, [left, right] => some (.minus left right)
  | .mult, [left, right] => some (.mult left right)
  | _, _ => none

/-- A call without a table is read by its operands. -/
theorem readFunction_eq_ok {f : Function} (hf : f ≠ .normalize) :
    readFunction compile ruleId f source = .ok (some e) ↔
      ∃ es, readCall compile ruleId f f.arity.1 f.arity.2 source = .ok (some es) ∧
        f.apply es = some e := by
  have hread : readFunction compile ruleId f source =
      readCall compile ruleId f f.arity.1 f.arity.2 source >>= fun o => .ok (o.bind f.apply) := by
    cases f with
    | normalize => exact absurd rfl hf
    | _ =>
      simp only [readFunction, readSubstring, readSum, readMinus, readMult, Function.arity]
      congr 1
      funext o
      rcases o with _ | (_ | ⟨_, _ | ⟨_, _ | ⟨_, _ | ⟨_, _⟩⟩⟩⟩) <;> rfl
  rw [hread, Except.bind_eq_ok]
  constructor
  · rintro ⟨_ | es, hes, he⟩
    · cases he
    · exact ⟨es, hes, by simpa using he⟩
  · rintro ⟨es, hes, he⟩
    exact ⟨some es, hes, by simp [he]⟩

/-- The arguments of a call that is read are compiled, but for a table, which is a literal. -/
theorem exists_of_readFunction {f : Function}
    (h : readFunction compile ruleId f source = .ok (some e)) :
    ∃ arguments, callArguments f.name source = some arguments ∧
      ∀ q ∈ splitTopLevel (· == ',') arguments,
        (∃ a, compile q = .ok a) ∨ ∃ value, wholeLiteral q = some value := by
  -- No call goes without arguments, so there is no special case of an empty text.
  have hsplit {least most : Nat} {arguments : Text} {parts : List Text} (hleast : 0 < least)
      (h : splitArguments ruleId f least most source arguments = .ok parts) :
      splitTopLevel (· == ',') arguments = parts := by
    obtain ⟨rfl | rfl, hle, -⟩ := splitArguments_eq_ok h
    · simp at hle
      omega
    · rfl
  by_cases hf : f = .normalize
  · subst hf
    obtain ⟨arguments, table, operand, literal, value, hcall, hparts, hliteral, -, hvalue, -⟩ :=
      readNormalize_eq_ok.mp h
    refine ⟨arguments, hcall, ?_⟩
    rw [hsplit (by decide) hparts, List.forall_mem_cons, List.forall_mem_singleton]
    exact ⟨.inr ⟨literal, hliteral⟩, .inl ⟨value, hvalue⟩⟩
  · obtain ⟨es, hes, -⟩ := (readFunction_eq_ok hf).mp h
    obtain ⟨arguments, parts, hcall, hparts, hmap⟩ := readCall_eq_ok.mp hes
    refine ⟨arguments, hcall, fun q hq => .inl ?_⟩
    rw [hsplit (by cases f <;> decide) hparts] at hq
    exact Except.exists_result_of_mapM_eq_ok hmap q hq

theorem readFunction_of_none {f : Function} (h : callArguments f.name source = none) :
    readFunction compile ruleId f source = .ok none := by
  cases f with
  | normalize => exact readNormalize_of_none h
  | substring =>
    rw [readFunction, readSubstring, readCall_of_none h]
    rfl
  | sum =>
    rw [readFunction, readSum, readCall_of_none h]
    rfl
  | minus =>
    rw [readFunction, readMinus, readCall_of_none h]
    rfl
  | mult =>
    rw [readFunction, readMult, readCall_of_none h]
    rfl

end Parts

namespace Form

variable {compile : Text → Except Error Expr} {ruleId source : Text} {form : Form} {e : Expr}

/-- Nothing is said of a source that does not have the shape. -/
theorem read_of_not_fits (h : form.fits source = false) :
    form.read compile ruleId source = .ok none := by
  cases form with
  | concat =>
    rw [fits, decide_eq_false_iff_not] at h
    rw [read, readConcat]
    exact if_pos (by omega)
  | call f => exact readFunction_of_none (by simpa [fits] using h)
  | lookup =>
    have hnone : wholeLookup source = none := by simpa [fits] using h
    rw [read, hnone]
    rfl
  | captured =>
    have hne : source ≠ "value" := by simpa [fits] using h
    rw [read, if_neg hne]
  | constant =>
    have hnone : wholeLiteral source = none := by simpa [fits] using h
    rw [read, hnone]
    rfl

theorem fits_of_read (h : form.read compile ruleId source = .ok (some e)) :
    form.fits source = true := by
  by_contra hnot
  rw [Bool.not_eq_true] at hnot
  rw [read_of_not_fits hnot] at h
  exact nomatch h

/-- A shape compiles nothing but texts shorter than the source. -/
theorem read_congr {f g : Text → Except Error Expr}
    (h : ∀ t : Text, t.length < source.length → f t = g t) (form : Form) :
    form.read f ruleId source = form.read g ruleId source := by
  cases form with
  | concat => exact readConcat_congr ruleId source h
  | call function =>
    cases function with
    | normalize => exact readNormalize_congr ruleId source h
    | _ =>
      simp only [read, readFunction, readSubstring, readSum, readMinus, readMult,
        readCall_congr ruleId source _ _ _ h]
  | _ => rfl

/-- A compiler that accepts more texts reads more sources. -/
theorem read_mono {f g : Text → Except Error Expr}
    (h : ∀ t : Text, t.length < source.length → ∀ e, f t = .ok e → g t = .ok e)
    (hread : form.read f ruleId source = .ok (some e)) :
    form.read g ruleId source = .ok (some e) := by
  have harguments {function : Function} {least most : Nat} {arguments q : Text} {parts : List Text}
      (hcall : callArguments function.name source = some arguments)
      (hparts : splitArguments ruleId function least most source arguments = .ok parts)
      (hq : q ∈ parts) : q.length < source.length :=
    Nat.lt_of_le_of_lt (length_le_of_mem_splitArguments hparts hq) (length_lt_of_callArguments hcall)
  cases form with
  | concat =>
    obtain ⟨hlen, hblank, first, others, hes, he⟩ := readConcat_eq_ok.mp hread
    refine readConcat_eq_ok.mpr ⟨hlen, hblank, first, others, ?_, he⟩
    refine Except.mapM_eq_ok_of_imp (fun q hq => h q ?_) hes
    have := Scan.length_add_le_of_mem_parts hq
    unfold splitTopLevel at hlen
    omega
  | call function =>
    by_cases hf : function = .normalize
    · subst hf
      obtain ⟨arguments, table, operand, literal, value, hcall, hparts, hliteral, hne, hvalue, he⟩ :=
        readNormalize_eq_ok.mp hread
      exact readNormalize_eq_ok.mpr ⟨arguments, table, operand, literal, value, hcall, hparts,
        hliteral, hne, h operand (harguments hcall hparts (by simp)) value hvalue, he⟩
    · obtain ⟨es, hes, he⟩ := (readFunction_eq_ok hf).mp hread
      obtain ⟨arguments, parts, hcall, hparts, hmap⟩ := readCall_eq_ok.mp hes
      refine (readFunction_eq_ok hf).mpr
        ⟨es, readCall_eq_ok.mpr ⟨arguments, parts, hcall, hparts, ?_⟩, he⟩
      exact Except.mapM_eq_ok_of_imp (fun q hq => h q (harguments hcall hparts hq)) hmap
  | _ => exact hread

end Form

/-! ## Another order -/

/-- Compiles an expression whose parts nest fewer than `depth` levels, with the shapes in the given
    order. -/
def compileInOrderWithin (order : List Form) (ruleId : Text) : Nat → Text → Except Error Expr
  | 0, source => .error (.unrecognizedExpression ruleId source.trim)
  | depth + 1, source =>
    let source := source.trim
    if source.isEmpty then .error (.unrecognizedExpression ruleId source)
    else
      match firstReading source
        (order.map (Form.shape (compileInOrderWithin order ruleId depth) ruleId)) with
      | .error e => .error e
      | .ok (some e) => .ok e
      | .ok none => .error (.unrecognizedExpression ruleId source)

/-- Compiles an expression with the shapes in the given order. -/
def compileInOrder (order : List Form) (ruleId source : Text) : Except Error Expr :=
  compileInOrderWithin order ruleId (source.length + 1) source

/-- In the order of the table this is the compiler. -/
theorem compileInOrder_all (ruleId : Text) : compileInOrder Form.all ruleId = compileExpr ruleId := by
  have hwithin (depth : Nat) :
      compileInOrderWithin Form.all ruleId depth = compileExprWithin ruleId depth := by
    induction depth with
    | zero => rfl
    | succ depth ih =>
      funext source
      rw [compileExprWithin, ← Form.map_shape_all, ← ih]
      rfl
  funext source
  rw [compileInOrder, compileExpr, hwithin]

section Order

variable (order : List Form) (ruleId : Text)

theorem firstReading_map_congr {f g : Text → Except Error Expr} (source : Text)
    (h : ∀ t : Text, t.length < source.length → f t = g t) :
    firstReading source (order.map (Form.shape f ruleId)) =
      firstReading source (order.map (Form.shape g ruleId)) := by
  induction order with
  | nil => rfl
  | cons form r ih =>
    simp only [List.map_cons, firstReading, Form.shape, Form.read_congr h form]
    rw [ih]

theorem firstReading_map_append {compile : Text → Except Error Expr} {ruleId source : Text}
    {a b : List Form} {form : Form} {e : Expr}
    (ha : ∀ other ∈ a, other.read compile ruleId source = .ok none)
    (h : form.read compile ruleId source = .ok (some e)) :
    firstReading source ((a ++ form :: b).map (Form.shape compile ruleId)) = .ok (some e) := by
  induction a with
  | nil => simp only [List.nil_append, List.map_cons, firstReading, Form.shape, h]
  | cons other a ih =>
    obtain ⟨hother, ha⟩ := List.forall_mem_cons.mp ha
    simp only [List.cons_append, List.map_cons, firstReading, Form.shape, hother]
    exact ih ha

theorem compileInOrderWithin_eq {m n : Nat} {source : Text} (hm : source.length < m)
    (hn : source.length < n) :
    compileInOrderWithin order ruleId m source = compileInOrderWithin order ruleId n source := by
  induction m generalizing n source with
  | zero => omega
  | succ m ih =>
    obtain ⟨n, rfl⟩ : ∃ k, n = k + 1 := ⟨n - 1, by omega⟩
    have hlen := Text.length_trim_le source
    have hshapes := firstReading_map_congr order ruleId source.trim
      fun t ht => ih (by omega : t.length < m) (by omega : t.length < n)
    simp only [compileInOrderWithin, hshapes]

theorem compileInOrder_eq (source : Text) :
    compileInOrder order ruleId source =
      if source.trim.isEmpty then .error (.unrecognizedExpression ruleId source.trim)
      else
        match firstReading source.trim
          (order.map (Form.shape (compileInOrder order ruleId) ruleId)) with
        | .error e => .error e
        | .ok (some e) => .ok e
        | .ok none => .error (.unrecognizedExpression ruleId source.trim) := by
  have hlen := Text.length_trim_le source
  have hshapes := firstReading_map_congr order ruleId source.trim fun t ht =>
    compileInOrderWithin_eq order ruleId (by omega : t.length < source.length)
      (Nat.lt_succ_self t.length)
  rw [compileInOrder, compileInOrderWithin]
  simp only [hshapes]
  rfl

variable {order ruleId}

/-- What is compiled is what one of the shapes reads. -/
theorem exists_form_of_compileInOrder {source : Text} {e : Expr}
    (h : compileInOrder order ruleId source = .ok e) :
    source.trim.isEmpty = false ∧
      ∃ form ∈ order, form.read (compileInOrder order ruleId) ruleId source.trim = .ok (some e) := by
  rw [compileInOrder_eq] at h
  split at h
  · simp at h
  rename_i hne
  split at h
  · simp at h
  · rename_i e' he'
    obtain rfl : e' = e := by simpa using h
    obtain ⟨shape, hmem, hread⟩ := exists_shape_of_firstReading he'
    obtain ⟨form, hform, rfl⟩ := List.mem_map.mp hmem
    exact ⟨by simpa using hne, form, hform, hread⟩
  · simp at h

/-- A shape decides if the shapes before it say nothing. -/
theorem compileInOrder_eq_ok {a b : List Form} {form : Form} {source : Text} {e : Expr}
    (horder : order = a ++ form :: b) (hne : source.trim.isEmpty = false)
    (ha : ∀ other ∈ a, other.read (compileInOrder order ruleId) ruleId source.trim = .ok none)
    (h : form.read (compileInOrder order ruleId) ruleId source.trim = .ok (some e)) :
    compileInOrder order ruleId source = .ok e := by
  subst horder
  rw [compileInOrder_eq, hne, firstReading_map_append ha h]
  rfl

end Order

end TimePhrase.Script
