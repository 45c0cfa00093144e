import TimePhrase.Proofs.Text.Digits
import TimePhrase.Proofs.Text.Trim

/-!
# Integers written and read back

The decimal form of an integer is read back as that integer, by whoever accepts it at all. It is the
form that the standard library writes, and no blank is in it.

* `toInt?_ofInt`  an integer is read back if it lies in the range
* `ofInt_eq_toString`  the decimal form of the standard library
* `trim_ofInt`  nothing is trimmed off
-/

namespace TimePhrase.Text

theorem holds_iff {range : IntRange} {n : Int} :
    range.holds n = true ↔ range.least ≤ n ∧ n ≤ range.greatest := by
  simp [IntRange.holds]

/-- Digits do not begin with a sign, so they are read as a number without one. -/
theorem toInt?_ofNat (range : IntRange) (n : Nat) : toInt? range (ofNat n) = range.checked n := by
  obtain ⟨c, r, hn⟩ := List.exists_cons_of_ne_nil (ofNat_ne_nil n)
  have hdigit : c.isDigit = true := isDigit_of_mem_ofNat c (hn ▸ List.mem_cons_self)
  have hminus : c ≠ '-' := by rintro rfl; simp at hdigit
  have hplus : c ≠ '+' := by rintro rfl; simp at hdigit
  have hread : (toNat? (c :: r)).bind (fun m => range.checked m) = range.checked n := by
    rw [← hn, toNat?_ofNat]
    rfl
  rw [hn]
  simpa [toInt?, hminus, hplus] using hread

/-- An integer is read back wherever it is accepted. -/
theorem toInt?_ofInt (range : IntRange) (n : Int) : toInt? range (ofInt n) = range.checked n := by
  cases n with
  | ofNat n => exact toInt?_ofNat range n
  | negSucc n =>
    have hread : toNat? (ofNat (n + 1)) = some (n + 1) := toNat?_ofNat (n + 1)
    have hneg : -((n + 1 : Nat) : Int) = Int.negSucc n := rfl
    simp only [ofInt, toInt?, hread, Option.bind_some, hneg]
    split
    · rfl
    · -- A range that begins above has no place for a negative number.
      rename_i hleast
      have hout : ¬ range.holds (Int.negSucc n) = true := by
        rw [holds_iff]
        omega
      simp [IntRange.checked, hout]

theorem ofInt_eq_toString (n : Int) : ofInt n = (toString n).toList := by
  cases n with
  | ofNat n => simp [ofInt, ofNat, toString, Int.repr, Nat.repr]
  | negSucc n => simp [ofInt, ofNat, toString, Int.repr, Nat.repr]

theorem isBlank_of_mem_ofInt {n : Int} : ∀ c ∈ ofInt n, TimePhrase.isBlank c = false := by
  have hdigits (m : Nat) : ∀ c ∈ ofNat m, TimePhrase.isBlank c = false :=
    fun c hc => isBlank_of_isDigit (isDigit_of_mem_ofNat c hc)
  cases n with
  | ofNat n => exact hdigits n
  | negSucc n => exact List.forall_mem_cons.mpr ⟨by decide, hdigits (n + 1)⟩

theorem trim_ofInt (n : Int) : (ofInt n).trim = ofInt n :=
  Trimmed.trim_eq (tight_of_all isBlank_of_mem_ofInt)

end TimePhrase.Text
