import TimePhrase.Text.Integer

/-!
# Numbers written in digits

The digits of a number are read back as the number, so different numbers are written differently.

* `toNat?_ofNat`  a number is read back
* `ofNat_inj`  its digits tell which number it is
-/

namespace TimePhrase

theorem toNat_of_isDigit {c : Char} (h : c.isDigit = true) : 0x30 ≤ c.toNat ∧ c.toNat ≤ 0x39 := by
  simpa [Char.isDigit, UInt32.le_iff_toNat_le] using h

theorem isBlank_of_isDigit {c : Char} (h : c.isDigit = true) : isBlank c = false := by
  obtain ⟨hlo, hhi⟩ := toNat_of_isDigit h
  have hnone : ∀ r ∈ blankRanges, ¬ (r.1 ≤ 0x39 ∧ 0x30 ≤ r.2) := by decide
  rw [← Bool.not_eq_true]
  intro hblank
  obtain ⟨r, hr, hle, hge⟩ := CharTable.exists_of_covers hblank
  exact hnone r hr ⟨by omega, by omega⟩

namespace Text

theorem digitsFrom?_eq_some {s : Text} (h : ∀ c ∈ s, c.isDigit = true) (acc : Nat) :
    digitsFrom? acc s = some (Nat.ofDigitChars 10 s acc) := by
  induction s generalizing acc with
  | nil => rw [digitsFrom?, Nat.ofDigitChars_nil]
  | cons c r ih =>
    obtain ⟨hc, hr⟩ := List.forall_mem_cons.mp h
    rw [digitsFrom?, if_pos hc, ih hr, Nat.ofDigitChars_cons, Nat.mul_comm]

theorem isDigit_of_mem_ofNat {n : Nat} : ∀ c ∈ ofNat n, c.isDigit = true :=
  fun _ hc => Nat.isDigit_of_mem_toDigits (by omega) (by omega) hc

theorem ofNat_ne_nil (n : Nat) : ofNat n ≠ [] := Nat.toDigits_ne_nil

/-- A number begins with a digit. -/
theorem isDigit_of_ofNat_append {n : Nat} {c : Char} {t r : Text} (h : ofNat n ++ t = c :: r) :
    c.isDigit = true := by
  cases hn : ofNat n with
  | nil => exact absurd hn (ofNat_ne_nil n)
  | cons d digits =>
    rw [hn, List.cons_append] at h
    obtain ⟨rfl, -⟩ := List.cons.inj h
    exact isDigit_of_mem_ofNat (n := n) d (by simp [hn])

/-- The digits of a number are read as that number. -/
theorem toNat?_ofNat (n : Nat) : toNat? (ofNat n) = some n := by
  have hread := digitsFrom?_eq_some (isDigit_of_mem_ofNat (n := n)) 0
  rw [ofNat, Nat.ofDigitChars_ten_toDigits, ← ofNat] at hread
  cases hs : ofNat n with
  | nil => exact absurd hs (ofNat_ne_nil n)
  | cons c r =>
    rw [hs] at hread
    exact hread

theorem ofNat_inj {m n : Nat} : ofNat m = ofNat n ↔ m = n := by
  constructor
  · intro h
    have hm := toNat?_ofNat m
    rw [h, toNat?_ofNat] at hm
    exact (Option.some.inj hm).symm
  · rintro rfl
    rfl

end Text

end TimePhrase
