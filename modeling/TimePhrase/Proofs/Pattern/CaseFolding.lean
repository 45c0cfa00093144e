import TimePhrase.Pattern.CaseFolding
import TimePhrase.Proofs.Text.CaseMap

/-!
# Characters that differ in case only

No character is sent on once it has been folded, so the characters that fold to the same one are
that one and all that are sent to it.

* `toNat_foldCase`, `foldCase_foldCase`  folding stays among characters and is done once
* `mem_caseVariants`  the characters that differ from another one in case only
-/

namespace TimePhrase

/-! ## The runs -/

theorem isProper_foldRuns : foldRuns.IsProper :=
  CaseMap.isProper_of_isChain (by decide +kernel) (by decide +kernel)

/-- The sources of a run are characters, and so are their images, which are no sources themselves. -/
theorem bounds_foldRuns : ∀ r ∈ foldRuns,
    r.isSparedBy r.offset foldRuns = true ∧ 0 ≤ r.first + r.offset ∧
      (r.last + r.offset < 0xD800 ∨ 0xDFFF < r.first + r.offset ∧ r.last + r.offset < 0x110000) ∧
      (r.last < 0xD800 ∨ 0xDFFF < r.first ∧ r.last < 0x110000) := by
  decide +kernel

theorem holds_or_forall (m : CaseMap) (n : Nat) :
    (∃ r ∈ m, r.holds n = true) ∨ ∀ r ∈ m, r.holds n = false := by
  by_cases h : ∃ r ∈ m, r.holds n = true
  · exact .inl h
  · refine .inr fun r hr => ?_
    rw [Bool.eq_false_iff]
    exact fun hn => h ⟨r, hr, hn⟩

/-- The image of a source, which is a character and no source. -/
theorem image_of_holds {r : CaseRun} {n : Nat} (hr : r ∈ foldRuns) (hn : r.holds n = true) :
    ∃ k : Nat, (n + r.offset : Int) = k ∧ foldRuns.applyTo n = k ∧ k.isValidChar ∧
      ∀ q ∈ foldRuns, q.holds k = false := by
  obtain ⟨hspared, hfirst, hvalid, -⟩ := bounds_foldRuns r hr
  obtain ⟨hlo, hhi, -⟩ := CaseRun.bounds_of_holds hn
  have hk : (n + r.offset : Int) = ((n + r.offset : Int).toNat : Nat) := by omega
  refine ⟨_, hk, CaseMap.applyTo_of_holds isProper_foldRuns hr hn, ?_,
    CaseRun.not_holds_of_isSparedBy isProper_foldRuns hspared hn hfirst hk⟩
  unfold Nat.isValidChar
  omega

theorem isValidChar_of_holds {r : CaseRun} {n : Nat} (hr : r ∈ foldRuns) (hn : r.holds n = true) :
    n.isValidChar := by
  obtain ⟨-, -, -, hvalid⟩ := bounds_foldRuns r hr
  obtain ⟨hlo, hhi, -⟩ := CaseRun.bounds_of_holds hn
  unfold Nat.isValidChar
  omega

theorem isValidChar_applyTo (c : Char) : (foldRuns.applyTo c.toNat).isValidChar := by
  rcases holds_or_forall foldRuns c.toNat with ⟨r, hr, hn⟩ | hnone
  · obtain ⟨k, -, happly, hvalid, -⟩ := image_of_holds hr hn
    rw [happly]
    exact hvalid
  · rw [CaseMap.applyTo_of_not_holds hnone]
    exact c.valid

/-! ## Folding -/

theorem toNat_ofNat {n : Nat} (h : n.isValidChar) : (Char.ofNat n).toNat = n := by
  rw [Char.ofNat, dif_pos h]
  rfl

theorem toNat_foldCase (c : Char) : (foldCase c).toNat = foldRuns.applyTo c.toNat :=
  toNat_ofNat (isValidChar_applyTo c)

theorem foldCase_eq_iff {c d : Char} :
    foldCase d = foldCase c ↔ foldRuns.applyTo d.toNat = foldRuns.applyTo c.toNat := by
  rw [← Char.toNat_inj, toNat_foldCase, toNat_foldCase]

/-- What has been folded stays as it is. -/
theorem foldCase_foldCase (c : Char) : foldCase (foldCase c) = foldCase c := by
  rw [foldCase_eq_iff, toNat_foldCase]
  rcases holds_or_forall foldRuns c.toNat with ⟨r, hr, hn⟩ | hnone
  · obtain ⟨k, -, happly, -, hk⟩ := image_of_holds hr hn
    rw [happly, CaseMap.applyTo_of_not_holds hk]
  · rw [CaseMap.applyTo_of_not_holds hnone, CaseMap.applyTo_of_not_holds hnone]

/-- The variants of a character are those that fold to the same one. -/
theorem mem_caseVariants {c d : Char} : d ∈ caseVariants c ↔ foldCase d = foldCase c := by
  rw [caseVariants, List.mem_cons, List.mem_map]
  constructor
  · rintro (rfl | ⟨k, hk, rfl⟩)
    · exact foldCase_foldCase c
    · obtain ⟨r, hr, hholds, hsum⟩ := (CaseMap.mem_sources isProper_foldRuns).mp hk
      rw [foldCase_eq_iff, toNat_ofNat (isValidChar_of_holds hr hholds),
        CaseMap.applyTo_of_holds isProper_foldRuns hr hholds]
      omega
  · intro h
    rw [foldCase_eq_iff] at h
    rcases holds_or_forall foldRuns d.toNat with ⟨r, hr, hn⟩ | hnone
    · obtain ⟨k, hk, happly, -⟩ := image_of_holds hr hn
      refine .inr ⟨d.toNat, (CaseMap.mem_sources isProper_foldRuns).mpr ⟨r, hr, hn, ?_⟩, ?_⟩
      · rw [← h, happly, hk]
      · exact Char.ofNat_toNat d
    · rw [CaseMap.applyTo_of_not_holds hnone] at h
      refine .inl ?_
      rw [← h, Char.ofNat_toNat]

end TimePhrase
