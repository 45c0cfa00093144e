import TimePhrase.Proofs.Pattern.Meaning
import TimePhrase.Proofs.Pattern.Sign
import TimePhrase.Proofs.Text.Trim
import TimePhrase.Rule.Repeat

/-!
# What a repeat range allows

A range is written as `n`, `m-` or `m-n` in a grammar, and as a repetition sign in a pattern. Either
form stands for the numbers that the range allows.

* `ofText?_text`  a range is read back from its written form
* `isSign_sign`  its sign has its bounds
-/

namespace TimePhrase.Repeat

/-! ## In grammars -/

/-- The range as it is written in a grammar. -/
def text : Repeat → Text
  | .exactly n => Text.ofNat n
  | .atLeast m => Text.ofNat m ++ ['-']
  | .between m n => Text.ofNat m ++ '-' :: Text.ofNat n

/-- The numbers of the range have 32 bits and do not fall. -/
def IsProper : Repeat → Prop
  | .exactly n => n ≤ 4294967295
  | .atLeast m => m ≤ 4294967295
  | .between m n => m ≤ n ∧ n ≤ 4294967295

theorem trimmed_of_digits {s : Text} (h : ∀ c ∈ s, c.isDigit = true ∨ c = '-') : s.Trimmed := by
  refine Text.tight_of_all fun c hc => ?_
  rcases h c hc with hdigit | rfl
  · exact isBlank_of_isDigit hdigit
  · decide

theorem count?_ofNat {n : Nat} (h : n ≤ 4294967295) : count? (Text.ofNat n) = some n := by
  -- Digits have no sign, and the number is in range.
  have hint : (Text.ofNat n).toInt? .unsigned32 = some (n : Int) := by
    have hread := Text.toNat?_ofNat n
    have hdigits := Text.isDigit_of_mem_ofNat (n := n)
    have hrange : IntRange.unsigned32.checked n = some (n : Int) := by
      have hle : (n : Int) ≤ 4294967295 := by omega
      simp [IntRange.checked, IntRange.holds, IntRange.unsigned32, hle]
    generalize Text.ofNat n = s at hread hdigits ⊢
    unfold Text.toInt?
    split
    · exact absurd (hdigits '-' List.mem_cons_self) (by decide)
    · exact absurd (hdigits '+' List.mem_cons_self) (by decide)
    · rw [hread, Option.bind_some, hrange]
  have htrimmed : (Text.ofNat n).Trimmed :=
    trimmed_of_digits fun c hc => .inl (Text.isDigit_of_mem_ofNat c hc)
  rw [count?, htrimmed.trim_eq, hint]
  rfl

/-- A range is read back from its written form. -/
theorem ofText?_text {range : Repeat} (h : range.IsProper) : ofText? range.text = some range := by
  have hdigits {n : Nat} : ∀ c ∈ Text.ofNat n, c.isDigit = true ∨ c = '-' :=
    fun c hc => .inl (Text.isDigit_of_mem_ofNat c hc)
  have hminus {n : Nat} : ∀ c ∈ Text.ofNat n, c ≠ '-' := by
    rintro _ hc rfl
    exact absurd (Text.isDigit_of_mem_ofNat '-' hc) (by decide)
  have htrimmed : range.text.Trimmed := by
    apply trimmed_of_digits
    cases range with
    | exactly n => exact hdigits
    | atLeast m =>
      refine List.forall_mem_append.mpr ⟨hdigits, ?_⟩
      exact List.forall_mem_singleton.mpr (.inr rfl)
    | between m n =>
      refine List.forall_mem_append.mpr ⟨hdigits, ?_⟩
      exact List.forall_mem_cons.mpr ⟨.inr rfl, hdigits⟩
  rw [ofText?, htrimmed.trim_eq]
  cases range with
  | exactly n =>
    rw [text, Text.splitOnce_eq_none hminus, count?_ofNat h]
    rfl
  | atLeast m =>
    rw [text, Text.splitOnce_append hminus]
    simp only [Text.isBlank, List.all_nil, if_true, count?_ofNat h]
    rfl
  | between m n =>
    obtain ⟨hmn, hn⟩ := h
    have hfilled : (Text.ofNat n).isBlank = false :=
      (trimmed_of_digits hdigits).isBlank_eq_false (Text.ofNat_ne_nil n)
    rw [text, Text.splitOnce_append hminus]
    simp [hfilled, count?_ofNat (Nat.le_trans hmn hn), count?_ofNat hn, hmn]

/-! ## In patterns -/

/-- The least number of the range. -/
def least : Repeat → Nat
  | .exactly n => n
  | .atLeast m => m
  | .between m _ => m

/-- The greatest number of the range, if there is one. -/
def most : Repeat → Option Nat
  | .exactly n => some n
  | .atLeast _ => none
  | .between _ n => some n

/-- Whether the range allows more than one repetition in a row. -/
def isOpen (range : Repeat) : Bool := !range.most.any (· ≤ 1)

/-- The repetition sign has the bounds of the range. -/
theorem isSign_sign (range : Repeat) : Pattern.IsSign range.sign range.least range.most := by
  cases range with
  | exactly n => exact Pattern.isSign_exactly n
  | atLeast m => exact Pattern.isSign_atLeast m
  | between m n => exact Pattern.isSign_between m n

theorem admits_iff_allows (range : Repeat) (k : Nat) :
    Pattern.admits range.least range.most k ↔ range.allows k = true := by
  cases range with
  | exactly n =>
    simp [Pattern.admits, least, most, allows]
    omega
  | atLeast m => simp [Pattern.admits, least, most, allows]
  | between m n => simp [Pattern.admits, least, most, allows]

theorem admits_eq_allows (range : Repeat) :
    Pattern.admits range.least range.most = fun k => range.allows k = true :=
  funext fun k => propext (range.admits_iff_allows k)

end TimePhrase.Repeat
