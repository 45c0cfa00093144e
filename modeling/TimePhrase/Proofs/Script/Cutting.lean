import Mathlib.Algebra.Group.Int.Defs
import TimePhrase.Proofs.Fallible
import TimePhrase.Proofs.Text.Integer
import TimePhrase.Script.Eval

/-!
# Cutting texts

A call of `Substring` counts characters, from the first one at position 0. What it gives is
described by the text around it: so many characters stand in front of it, and it has so many itself,
or nothing stands behind it. There is such a piece exactly if the call stays within the text, and
otherwise the call says what it was asked for. The sum of start and length is that of the integers,
however large they are.

* `InBounds`, `IsCut`  when there is a piece, and which one it is
* `cutText_of_inBounds`, `cutText_of_not_inBounds`  cutting a text
* `Expr.IsNumber`, `exists_isNumber_iff`  the numbers that a call can be given
* `eval_cut_eq_ok`, `eval_cut_of_not_inBounds`  the calls and their values
* `cut_characters`  all of it together, and what follows for calls within calls
-/

namespace TimePhrase

/-- What is read as an integer of a range lies in it. -/
theorem Text.holds_of_toInt? {range : IntRange} {s : Text} {n : Int}
    (h : toInt? range s = some n) : range.holds n = true := by
  have hchecked {x : Option Nat} {f : Nat → Int}
      (h : (x.bind fun k => range.checked (f k)) = some n) : range.holds n = true := by
    obtain ⟨k, -, hk⟩ := Option.bind_eq_some_iff.mp h
    rw [IntRange.checked] at hk
    split at hk
    · rename_i hholds
      rwa [← Option.some.inj hk]
    · cases hk
  unfold toInt? at h
  split at h
  · split at h
    · exact hchecked h
    · cases h
  · exact hchecked h
  · exact hchecked h

namespace Script

/-! ## Pieces of a text -/

/-- There are characters from `start` on, as many as `length` says. A negative length says nothing,
    as if there were none. -/
def InBounds (s : Text) (start : Int) (length : Option Int) : Prop :=
  0 ≤ start ∧ start ≤ s.length ∧ ∀ l ∈ length, l < 0 ∨ start + l ≤ s.length

/-- The characters of `s` from `start` on: as many as `length` says, or all of them if it says
    nothing. -/
def IsCut (s : Text) (start : Int) (length : Option Int) (t : Text) : Prop :=
  ∃ a b : Text, s = a ++ t ++ b ∧ (a.length : Int) = start ∧
    (∀ l ∈ length, 0 ≤ l → (t.length : Int) = l) ∧ ((∀ l ∈ length, l < 0) → b = [])

section Pieces

variable {s t u : Text} {start : Int} {length : Option Int}

theorem inBounds_none : InBounds s start none ↔ 0 ≤ start ∧ start ≤ s.length := by
  simp [InBounds]

theorem inBounds_some {l : Int} :
    InBounds s start (some l) ↔ 0 ≤ start ∧ start ≤ s.length ∧ (l < 0 ∨ start + l ≤ s.length) := by
  simp [InBounds]

/-- There is no more than one such piece. -/
theorem IsCut.unique (ht : IsCut s start length t) (hu : IsCut s start length u) : t = u := by
  obtain ⟨a, b, hs, ha, hsize, hend⟩ := ht
  obtain ⟨a', b', hs', ha', hsize', hend'⟩ := hu
  have hsplit : a ++ (t ++ b) = a' ++ (u ++ b') := by
    rw [← List.append_assoc, ← List.append_assoc, ← hs, ← hs']
  obtain ⟨-, hrest⟩ := List.append_inj hsplit (by omega)
  by_cases hneg : ∀ l ∈ length, l < 0
  · rwa [hend hneg, hend' hneg, List.append_nil, List.append_nil] at hrest
  · -- Both have as many characters as the length says.
    obtain ⟨l, hl, hle⟩ : ∃ l ∈ length, 0 ≤ l := by
      by_contra hnone
      exact hneg fun l hl => Int.not_le.mp fun hle => hnone ⟨l, hl, hle⟩
    have ht := hsize l hl hle
    have hu := hsize' l hl hle
    exact (List.append_inj hrest (by omega)).1

/-- Within the bounds there is a piece, and cutting gives it. -/
theorem cutText_of_inBounds (h : InBounds s start length) :
    ∃ t, cutText s start (length.getD (-1)) = .ok t ∧ IsCut s start length t := by
  obtain ⟨h₀, hle, hlength⟩ := h
  obtain ⟨k, rfl⟩ := Int.eq_ofNat_of_zero_le h₀
  have hfront : (s.take k).length = k := by rw [List.length_take]; omega
  have hstart : ¬((k : Int) < 0 ∨ (s.length : Int) < k) := by omega
  by_cases hneg : length.getD (-1) < 0
  · refine ⟨s.drop k, ?_, s.take k, [], ?_, by rw [hfront], fun l hl hl₀ => ?_, fun _ => rfl⟩
    · rw [cutText, if_neg hstart, if_pos hneg, Int.toNat_natCast]
    · rw [List.append_nil, List.take_append_drop]
    · rw [Option.mem_def.mp hl, Option.getD_some] at hneg
      omega
  · -- A length that is not negative has been given.
    obtain ⟨l, rfl⟩ : ∃ l, length = some l := by
      cases length with
      | none => exact absurd (by decide) hneg
      | some l => exact ⟨l, rfl⟩
    rw [Option.getD_some] at hneg ⊢
    obtain ⟨m, rfl⟩ := Int.eq_ofNat_of_zero_le (by omega : 0 ≤ l)
    have hsum : (k : Int) + m ≤ s.length := (hlength m rfl).resolve_left (by omega)
    have hsize : ((s.drop k).take m).length = m := by
      rw [List.length_take, List.length_drop]
      omega
    refine ⟨(s.drop k).take m, ?_, s.take k, (s.drop k).drop m, ?_, by rw [hfront], ?_, ?_⟩
    · rw [cutText, if_neg hstart, if_neg hneg, if_neg (by omega), Int.toNat_natCast,
        Int.toNat_natCast]
    · rw [List.append_assoc, List.take_append_drop, List.take_append_drop]
    · intro l hl _
      rw [hsize, Option.some.inj hl]
    · intro hall
      exact absurd (hall m rfl) hneg

/-- Outside the bounds cutting says what it was asked for. -/
theorem cutText_of_not_inBounds (h : ¬InBounds s start length) :
    cutText s start (length.getD (-1)) = .error (.outOfBounds s start (length.getD (-1))) := by
  rw [cutText]
  by_cases hstart : start < 0 ∨ (s.length : Int) < start
  · rw [if_pos hstart]
  · obtain ⟨l, hl, hl₀, hsum⟩ : ∃ l ∈ length, 0 ≤ l ∧ (s.length : Int) < start + l := by
      by_contra hnone
      refine h ⟨by omega, by omega, fun l hl => ?_⟩
      by_contra hout
      exact hnone ⟨l, hl, by omega, by omega⟩
    rw [Option.mem_def.mp hl, Option.getD_some, if_neg hstart, if_neg (by omega), if_pos hsum]

/-- What stands in front of a position and what stands behind it are the whole text. -/
theorem append_of_isCut {k : Int} (ht : IsCut s 0 (some k) t) (hu : IsCut s k none u) (hk : 0 ≤ k) :
    t ++ u = s := by
  obtain ⟨a, b, hs, ha, hsize, -⟩ := ht
  obtain ⟨a', b', hs', ha', -, hend⟩ := hu
  obtain rfl : a = [] := List.length_eq_zero_iff.mp (by omega)
  have hsize := hsize k rfl hk
  rw [List.nil_append] at hs
  rw [hend (by simp), List.append_nil] at hs'
  obtain ⟨rfl, rfl⟩ := List.append_inj (hs.symm.trans hs') (by omega)
  exact hs.symm

/-- A piece of a piece is one of the whole text. -/
theorem IsCut.trans {j m : Int} (ht : IsCut s start length t) (hu : IsCut t j (some m) u)
    (hm : 0 ≤ m) : IsCut s (start + j) (some m) u := by
  obtain ⟨a, b, rfl, rfl, -, -⟩ := ht
  obtain ⟨c, d, rfl, rfl, hsize, -⟩ := hu
  refine ⟨a ++ c, d ++ b, by simp, by simp, hsize, fun hneg => ?_⟩
  have := hneg m rfl
  omega

end Pieces

/-! ## Numbers -/

section Calls

variable {tables : Tables} {facts : Dictionary} {captured : Text}

/-- The expression has a value, and that reads as a number. -/
def Expr.IsNumber (tables : Tables) (facts : Dictionary) (captured : Text) (e : Expr) (n : Int) :
    Prop :=
  ∃ t, e.eval tables facts captured = .ok t ∧ toNumber? t = some n

/-- The numbers of 64 bits can be written down, and there are no others. -/
theorem exists_isNumber_iff {n : Int} :
    (∃ e : Expr, e.IsNumber tables facts captured n) ↔ -2 ^ 63 ≤ n ∧ n ≤ 2 ^ 63 - 1 := by
  have hholds : IntRange.signed64.holds n = true ↔ -2 ^ 63 ≤ n ∧ n ≤ 2 ^ 63 - 1 := Text.holds_iff
  rw [← hholds]
  constructor
  · rintro ⟨e, t, -, hn⟩
    exact Text.holds_of_toInt? hn
  · intro h
    refine ⟨.constant (Text.ofInt n), Text.ofInt n, rfl, ?_⟩
    rw [toNumber?, Text.trim_ofInt, Text.toInt?_ofInt, IntRange.checked, if_pos h]

/-! ## Calls -/

/-- The call that cuts a text out of another, with or without a length. -/
def Expr.cut (operand start : Expr) : Option Expr → Expr
  | none => .suffix operand start
  | some length => .substring operand start length

/-- A call cuts the value of its operand, at the numbers that it is given. -/
theorem eval_cut {operand start : Expr} {length : Option Expr} {s : Text} {i : Int} {l : Option Int}
    (hs : operand.eval tables facts captured = .ok s) (hi : start.IsNumber tables facts captured i)
    (hl : Option.Rel (Expr.IsNumber tables facts captured) length l) :
    (Expr.cut operand start length).eval tables facts captured = cutText s i (l.getD (-1)) := by
  have hnumber {t : Text} {n : Int} (h : toNumber? t = some n) : cutNumber s t = .ok n := by
    rw [cutNumber, h]
  obtain ⟨t, ht, hread⟩ := hi
  cases hl with
  | none => simp only [Expr.cut, Expr.eval, hs, ht, hnumber hread, bind, Except.bind, Option.getD]
  | some hl =>
    obtain ⟨t', ht', hread'⟩ := hl
    simp only [Expr.cut, Expr.eval, hs, ht, ht', hnumber hread, hnumber hread', bind, Except.bind,
      Option.getD]

/-- Within the bounds a call gives the piece that it is asked for. -/
theorem eval_cut_of_inBounds {operand start : Expr} {length : Option Expr} {s : Text} {i : Int}
    {l : Option Int} (hs : operand.eval tables facts captured = .ok s)
    (hi : start.IsNumber tables facts captured i)
    (hl : Option.Rel (Expr.IsNumber tables facts captured) length l) (h : InBounds s i l) :
    ∃ t, (Expr.cut operand start length).eval tables facts captured = .ok t ∧ IsCut s i l t := by
  rw [eval_cut hs hi hl]
  exact cutText_of_inBounds h

/-- Outside the bounds it says what it was asked for. -/
theorem eval_cut_of_not_inBounds {operand start : Expr} {length : Option Expr} {s : Text} {i : Int}
    {l : Option Int} (hs : operand.eval tables facts captured = .ok s)
    (hi : start.IsNumber tables facts captured i)
    (hl : Option.Rel (Expr.IsNumber tables facts captured) length l) (h : ¬InBounds s i l) :
    (Expr.cut operand start length).eval tables facts captured =
      .error (.outOfBounds s i (l.getD (-1))) := by
  rw [eval_cut hs hi hl, cutText_of_not_inBounds h]

/-- So a call has a value within the bounds only, and no other than that piece. -/
theorem eval_cut_eq_ok {operand start : Expr} {length : Option Expr} {s t : Text} {i : Int}
    {l : Option Int} (hs : operand.eval tables facts captured = .ok s)
    (hi : start.IsNumber tables facts captured i)
    (hl : Option.Rel (Expr.IsNumber tables facts captured) length l) :
    (Expr.cut operand start length).eval tables facts captured = .ok t ↔
      InBounds s i l ∧ IsCut s i l t := by
  by_cases h : InBounds s i l
  · obtain ⟨u, hu, hcut⟩ := eval_cut_of_inBounds hs hi hl h
    rw [hu, Except.ok.injEq]
    constructor
    · rintro rfl
      exact ⟨h, hcut⟩
    · rintro ⟨-, ht⟩
      exact hcut.unique ht
  · rw [eval_cut_of_not_inBounds hs hi hl h]
    simp [h]

/-- The text in front of a position, and then the text behind it. -/
theorem eval_concat_cut {operand zero upTo behind : Expr} {s : Text} {k : Int}
    (hs : operand.eval tables facts captured = .ok s)
    (hzero : zero.IsNumber tables facts captured 0) (hupTo : upTo.IsNumber tables facts captured k)
    (hbehind : behind.IsNumber tables facts captured k) (hk : 0 ≤ k) (hle : k ≤ s.length) :
    (Expr.concat (.cut operand zero (some upTo)) (.cut operand behind none)).eval
      tables facts captured = .ok s := by
  obtain ⟨t, ht, htcut⟩ := eval_cut_of_inBounds hs hzero (.some hupTo)
    (inBounds_some.mpr (by omega))
  obtain ⟨u, hu, hucut⟩ := eval_cut_of_inBounds hs hbehind .none (inBounds_none.mpr ⟨hk, hle⟩)
  rw [Expr.eval, ht, hu]
  exact congrArg Except.ok (append_of_isCut htcut hucut hk)

/-- Cutting out of what has been cut is cutting once, further on. -/
theorem eval_cut_cut {operand start length start' length' start'' length'' : Expr} {s : Text}
    {i l j m : Int} (hs : operand.eval tables facts captured = .ok s)
    (hi : start.IsNumber tables facts captured i) (hl : length.IsNumber tables facts captured l)
    (hj : start'.IsNumber tables facts captured j) (hm : length'.IsNumber tables facts captured m)
    (hij : start''.IsNumber tables facts captured (i + j))
    (hm' : length''.IsNumber tables facts captured m) (hi₀ : 0 ≤ i) (hil : i + l ≤ s.length)
    (hj₀ : 0 ≤ j) (hm₀ : 0 ≤ m) (hjm : j + m ≤ l) :
    ∃ t, IsCut s (i + j) (some m) t ∧
      (Expr.cut (.cut operand start (some length)) start' (some length')).eval
        tables facts captured = .ok t ∧
      (Expr.cut operand start'' (some length'')).eval tables facts captured = .ok t := by
  obtain ⟨t, ht, htcut⟩ := eval_cut_of_inBounds hs hi (.some hl) (inBounds_some.mpr (by omega))
  have hsize : (t.length : Int) = l := by
    obtain ⟨-, -, -, -, hsize, -⟩ := htcut
    exact hsize l rfl (by omega)
  obtain ⟨u, hu, hucut⟩ := eval_cut_of_inBounds ht hj (.some hm) (inBounds_some.mpr (by omega))
  obtain ⟨u', hu', hucut'⟩ := eval_cut_of_inBounds hs hij (.some hm')
    (inBounds_some.mpr (by omega))
  have hcut := htcut.trans hucut hm₀
  exact ⟨u, hcut, hu, by rw [hu', hcut.unique hucut']⟩

/-- A call counts characters and never leaves the text. With any numbers of 64 bits for the start
    and the length, it has a value exactly if the start lies in the text or at its end, and there are
    as many characters from there on as the length says, if it says anything. The value is made of
    these characters. Otherwise the text and both numbers are reported. So cutting at one position
    twice loses nothing, and cutting out of a piece is cutting out of the whole text. -/
theorem cut_characters (tables : Tables) (facts : Dictionary) (captured : Text) (operand : Expr)
    (s : Text) (hs : operand.eval tables facts captured = .ok s) :
    (∀ n : Int, (∃ e : Expr, e.IsNumber tables facts captured n) ↔
      -2 ^ 63 ≤ n ∧ n ≤ 2 ^ 63 - 1) ∧
    (∀ (start : Expr) (length : Option Expr) (i : Int) (l : Option Int),
      start.IsNumber tables facts captured i →
      Option.Rel (Expr.IsNumber tables facts captured) length l →
      ((∃ t, (Expr.cut operand start length).eval tables facts captured = .ok t) ↔
        InBounds s i l) ∧
      (∀ t, (Expr.cut operand start length).eval tables facts captured = .ok t ↔
        InBounds s i l ∧ IsCut s i l t) ∧
      (¬InBounds s i l → (Expr.cut operand start length).eval tables facts captured =
        .error (.outOfBounds s i (l.getD (-1))))) ∧
    (∀ (zero upTo behind : Expr) (k : Int), zero.IsNumber tables facts captured 0 →
      upTo.IsNumber tables facts captured k → behind.IsNumber tables facts captured k →
      0 ≤ k → k ≤ s.length →
      (Expr.concat (.cut operand zero (some upTo)) (.cut operand behind none)).eval
        tables facts captured = .ok s) ∧
    ∀ (start length start' length' start'' length'' : Expr) (i l j m : Int),
      start.IsNumber tables facts captured i → length.IsNumber tables facts captured l →
      start'.IsNumber tables facts captured j → length'.IsNumber tables facts captured m →
      start''.IsNumber tables facts captured (i + j) →
      length''.IsNumber tables facts captured m →
      0 ≤ i → i + l ≤ s.length → 0 ≤ j → 0 ≤ m → j + m ≤ l →
      ∃ t, IsCut s (i + j) (some m) t ∧
        (Expr.cut (.cut operand start (some length)) start' (some length')).eval
          tables facts captured = .ok t ∧
        (Expr.cut operand start'' (some length'')).eval tables facts captured = .ok t := by
  refine ⟨fun n => exists_isNumber_iff, fun start length i l hi hl => ⟨⟨?_, fun h => ?_⟩,
      fun t => eval_cut_eq_ok hs hi hl, eval_cut_of_not_inBounds hs hi hl⟩,
    fun zero upTo behind k hzero hupTo hbehind hk hle =>
      eval_concat_cut hs hzero hupTo hbehind hk hle,
    fun _ _ _ _ _ _ _ _ _ _ hi hl hj hm hij hm' hi₀ hil hj₀ hm₀ hjm =>
      eval_cut_cut hs hi hl hj hm hij hm' hi₀ hil hj₀ hm₀ hjm⟩
  · rintro ⟨t, ht⟩
    exact ((eval_cut_eq_ok hs hi hl).mp ht).1
  · obtain ⟨t, ht, -⟩ := eval_cut_of_inBounds hs hi hl h
    exact ⟨t, ht⟩

end Calls

/-- The accents count as one character each, like the letters. The sum of 1 and the greatest number
    does not come round to a place within the text. -/
theorem cut_characters_accents :
    (Expr.cut .captured (.constant " +1") (some (.constant "2"))).eval [] .empty "día é" =
      .ok "ía" ∧
    (Expr.cut .captured (.constant "1") (some (.constant "9223372036854775807"))).eval [] .empty
      "día é" = .error (.outOfBounds "día é" 1 9223372036854775807) ∧
    (Expr.concat (.cut .captured (.constant "0") (some (.constant "2")))
      (.cut .captured (.constant "2") none)).eval [] .empty "día é" = .ok "día é" ∧
    ∃ t, (Expr.cut (.cut .captured (.constant "1") (some (.constant "4"))) (.constant "1")
        (some (.constant "2"))).eval [] .empty "día é" = .ok t ∧
      (Expr.cut .captured (.constant "2") (some (.constant "2"))).eval [] .empty "día é" =
        .ok t := by
  have hnumber (t : Text) {n : Int} (h : toNumber? t = some n) :
      (Expr.constant t).IsNumber [] .empty "día é" n := ⟨t, rfl, h⟩
  have h₀ := hnumber "0" (n := 0) (by decide)
  have h₁ := hnumber "1" (n := 1) (by decide)
  have h₁' := hnumber " +1" (n := 1) (by decide)
  have h₂ := hnumber "2" (n := 2) (by decide)
  have h₄ := hnumber "4" (n := 4) (by decide)
  have hgreatest := hnumber "9223372036854775807" (n := 9223372036854775807) (by decide +kernel)
  obtain ⟨-, hcut, htwice, hwithin⟩ :=
    cut_characters [] .empty "día é" .captured "día é" rfl
  refine ⟨?_, ?_, htwice _ _ _ 2 h₀ h₂ h₂ (by decide) (by decide), ?_⟩
  · refine ((hcut _ _ 1 (some 2) h₁' (.some h₂)).2.1 "ía").mpr
      ⟨inBounds_some.mpr (by decide), "d", " é", by decide, by decide, ?_, ?_⟩
    · rintro _ ⟨⟩ -
      decide
    · exact fun hneg => absurd (hneg 2 rfl) (by decide)
  · refine (hcut _ _ 1 (some 9223372036854775807) h₁ (.some hgreatest)).2.2 fun h => ?_
    exact absurd (inBounds_some.mp h) (by decide)
  · obtain ⟨t, -, ht, ht'⟩ := hwithin _ _ _ _ _ _ 1 4 1 2 h₁ h₄ h₁ h₂ h₂ h₂ (by decide) (by decide)
      (by decide) (by decide) (by decide)
    exact ⟨t, ht, ht'⟩

end Script

end TimePhrase
