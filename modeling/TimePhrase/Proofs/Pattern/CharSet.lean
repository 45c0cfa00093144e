import TimePhrase.Pattern.CharSet

/-!
# Unions of character sets

Two tables are merged by the beginnings of their ranges, and ranges that overlap or touch are then
joined. Neither step changes which code points are covered, as long as the beginnings never fall.

* `IsProper`  a set whose ranges begin with characters, in ascending order
* `has_unions`  the union of sets holds the characters of each
* `has_iff_of_only?`  the only character of a set
-/

namespace TimePhrase

namespace CharTable

/-- The beginnings of the ranges never fall. -/
abbrev Ascending (t : CharTable) : Prop := t.Pairwise fun r q => r.1 ≤ q.1

/-- Where the beginnings never fall, the search does not miss a range. -/
theorem covers_iff {t : CharTable} (h : t.Ascending) {n : Nat} :
    t.covers n = true ↔ ∃ r ∈ t, r.1 ≤ n ∧ n ≤ r.2 := by
  refine ⟨exists_of_covers, ?_⟩
  rintro ⟨r, hr, hle, hge⟩
  induction t with
  | nil => exact absurd hr List.not_mem_nil
  | cons q t ih =>
    obtain ⟨hq, ht⟩ := List.pairwise_cons.mp h
    simp only [covers]
    rcases List.mem_cons.mp hr with rfl | hr
    · rw [if_neg (by omega)]
      simp [hge]
    · have := hq r hr
      rw [if_neg (by omega), ih ht hr, Bool.or_true]

/-! ## Merging -/

theorem mergeWith_perm (r : Nat × Nat) (s : CharTable) (rest : CharTable → CharTable)
    (hrest : ∀ t, (rest t).Perm (s ++ t)) (t : CharTable) :
    (mergeWith r s rest t).Perm (r :: s ++ t) := by
  induction t with
  | nil => rw [mergeWith, List.append_nil]
  | cons q t ih =>
    simp only [mergeWith]
    split
    · exact (hrest (q :: t)).cons r
    · exact (ih.cons q).trans List.perm_middle.symm

theorem merge_perm (s t : CharTable) : (merge s t).Perm (s ++ t) := by
  induction s generalizing t with
  | nil => exact List.Perm.refl t
  | cons r s ih => exact mergeWith_perm r s (merge s) ih t

theorem ascending_mergeWith {r : Nat × Nat} {s : CharTable} {rest : CharTable → CharTable}
    (hperm : ∀ t, (rest t).Perm (s ++ t)) (hrest : ∀ t, Ascending t → Ascending (rest t))
    (hr : Ascending (r :: s)) {t : CharTable} (ht : Ascending t) :
    Ascending (mergeWith r s rest t) := by
  induction t with
  | nil => exact hr
  | cons q t ih =>
    obtain ⟨hq, htail⟩ := List.pairwise_cons.mp ht
    obtain ⟨hs, -⟩ := List.pairwise_cons.mp hr
    simp only [mergeWith]
    split
    · rename_i hle
      refine List.pairwise_cons.mpr ⟨fun x hx => ?_, hrest _ ht⟩
      rcases List.mem_append.mp ((hperm _).mem_iff.mp hx) with hx | hx
      · exact hs x hx
      · rcases List.mem_cons.mp hx with rfl | hx
        · exact hle
        · exact Nat.le_trans hle (hq x hx)
    · rename_i hlt
      refine List.pairwise_cons.mpr ⟨fun x hx => ?_, ih htail⟩
      rcases List.mem_append.mp ((mergeWith_perm r s rest hperm t).mem_iff.mp hx) with hx | hx
      · rcases List.mem_cons.mp hx with rfl | hx
        · omega
        · have := hs x hx
          omega
      · exact hq x hx

theorem ascending_merge {s t : CharTable} (hs : Ascending s) (ht : Ascending t) :
    Ascending (merge s t) := by
  induction s generalizing t with
  | nil => exact ht
  | cons r s ih =>
    exact ascending_mergeWith (merge_perm s) (fun t ht => ih hs.tail ht) hs ht

/-! ## Joining -/

/-- Joining keeps the beginnings among those there were. -/
theorem fst_of_mem_joinFrom {lo hi : Nat} {t : CharTable} :
    ∀ r ∈ joinFrom lo hi t, r.1 = lo ∨ ∃ q ∈ t, r.1 = q.1 := by
  induction t generalizing lo hi with
  | nil => simp [joinFrom]
  | cons q t ih =>
    obtain ⟨a, b⟩ := q
    intro r hr
    simp only [joinFrom] at hr
    split at hr
    · rcases ih r hr with h | ⟨q, hq, h⟩
      · exact .inl h
      · exact .inr ⟨q, List.mem_cons_of_mem _ hq, h⟩
    · rcases List.mem_cons.mp hr with rfl | hr
      · exact .inl rfl
      · rcases ih r hr with h | ⟨q, hq, h⟩
        · exact .inr ⟨(a, b), List.mem_cons_self, h⟩
        · exact .inr ⟨q, List.mem_cons_of_mem _ hq, h⟩

theorem ascending_joinFrom {lo hi : Nat} {t : CharTable} (h : Ascending ((lo, hi) :: t)) :
    Ascending (joinFrom lo hi t) := by
  induction t generalizing lo hi with
  | nil => exact h
  | cons q t ih =>
    obtain ⟨a, b⟩ := q
    obtain ⟨hlo, htail⟩ := List.pairwise_cons.mp h
    have hla : lo ≤ a := hlo (a, b) List.mem_cons_self
    simp only [joinFrom]
    split
    · refine ih (List.pairwise_cons.mpr ⟨fun x hx => ?_, htail.tail⟩)
      exact hlo x (List.mem_cons_of_mem _ hx)
    · refine List.pairwise_cons.mpr ⟨fun x hx => ?_, ih htail⟩
      rcases fst_of_mem_joinFrom x hx with h | ⟨q, hq, h⟩
      · rw [h]
        exact hla
      · rw [h]
        exact hlo q (List.mem_cons_of_mem _ hq)

/-- Joining changes nothing in what the ranges hold. -/
theorem exists_mem_joinFrom_iff {lo hi n : Nat} {t : CharTable} (h : Ascending ((lo, hi) :: t)) :
    (∃ r ∈ joinFrom lo hi t, r.1 ≤ n ∧ n ≤ r.2) ↔ ∃ r ∈ (lo, hi) :: t, r.1 ≤ n ∧ n ≤ r.2 := by
  induction t generalizing lo hi with
  | nil => rfl
  | cons q t ih =>
    obtain ⟨a, b⟩ := q
    obtain ⟨hlo, htail⟩ := List.pairwise_cons.mp h
    have hla : lo ≤ a := hlo (a, b) List.mem_cons_self
    have hjoined : Ascending ((lo, max hi b) :: t) :=
      List.pairwise_cons.mpr ⟨fun x hx => hlo x (List.mem_cons_of_mem _ hx), htail.tail⟩
    simp only [joinFrom]
    split
    · -- The two ranges are one, without a gap between them.
      rw [ih hjoined]
      simp only [List.mem_cons, or_and_right, exists_or, exists_eq_left, ← or_assoc]
      apply or_congr_left
      omega
    · have hrest := ih htail
      simp only [List.mem_cons, or_and_right, exists_or, exists_eq_left] at hrest ⊢
      rw [hrest]

end CharTable

namespace CharSet

/-- A set whose ranges begin with characters, in ascending order. -/
structure IsProper (s : CharSet) : Prop where
  ascending : s.ranges.Ascending
  begins : ∀ r ∈ s.ranges, r.1.isValidChar

theorem has_iff {s : CharSet} (h : s.IsProper) {c : Char} :
    s.has c = true ↔ ∃ r ∈ s.ranges, r.1 ≤ c.toNat ∧ c.toNat ≤ r.2 :=
  CharTable.covers_iff h.ascending

theorem isProper_none : none.IsProper := ⟨List.Pairwise.nil, nofun⟩

theorem isProper_single (c : Char) : (single c).IsProper where
  ascending := List.pairwise_singleton _ _
  begins r hr := by
    obtain rfl := List.mem_singleton.mp hr
    exact c.valid

theorem isProper_blanks : blanks.IsProper where
  ascending := by decide
  begins := by decide

/-! ## Unions -/

theorem isProper_union {s t : CharSet} (hs : s.IsProper) (ht : t.IsProper) :
    (s.union t).IsProper := by
  have hmerged := CharTable.ascending_merge hs.ascending ht.ascending
  have hbegins : ∀ r ∈ s.ranges.merge t.ranges, r.1.isValidChar := by
    intro r hr
    rcases List.mem_append.mp ((CharTable.merge_perm _ _).mem_iff.mp hr) with hr | hr
    · exact hs.begins r hr
    · exact ht.begins r hr
  unfold union
  cases hm : s.ranges.merge t.ranges with
  | nil => exact isProper_none
  | cons q r =>
    rw [hm] at hmerged hbegins
    refine ⟨CharTable.ascending_joinFrom hmerged, fun x hx => ?_⟩
    rcases CharTable.fst_of_mem_joinFrom x hx with h | ⟨y, hy, h⟩
    · rw [h]
      exact hbegins q List.mem_cons_self
    · rw [h]
      exact hbegins y (List.mem_cons_of_mem q hy)

theorem has_union {s t : CharSet} (hs : s.IsProper) (ht : t.IsProper) {c : Char} :
    (s.union t).has c = true ↔ s.has c = true ∨ t.has c = true := by
  rw [has_iff (isProper_union hs ht), has_iff hs, has_iff ht]
  have hmerged := CharTable.ascending_merge hs.ascending ht.ascending
  have hperm := CharTable.merge_perm s.ranges t.ranges
  have hjoined : (∃ r ∈ (s.union t).ranges, r.1 ≤ c.toNat ∧ c.toNat ≤ r.2) ↔
      ∃ r ∈ s.ranges.merge t.ranges, r.1 ≤ c.toNat ∧ c.toNat ≤ r.2 := by
    unfold union
    cases hm : s.ranges.merge t.ranges with
    | nil => rfl
    | cons q r =>
      rw [hm] at hmerged
      exact CharTable.exists_mem_joinFrom_iff hmerged
  simp only [hjoined, hperm.mem_iff, List.mem_append, or_and_right, exists_or]

/-- The union of proper sets holds the characters of each of them. -/
theorem has_unions {ss : List CharSet} (hss : ∀ s ∈ ss, s.IsProper) :
    (unions ss).IsProper ∧ ∀ c, (unions ss).has c = true ↔ ∃ s ∈ ss, s.has c = true := by
  have hfold : ∀ (ss : List CharSet) (t : CharSet), t.IsProper → (∀ s ∈ ss, s.IsProper) →
      (ss.foldl union t).IsProper ∧
        ∀ c, (ss.foldl union t).has c = true ↔ t.has c = true ∨ ∃ s ∈ ss, s.has c = true := by
    intro ss
    induction ss with
    | nil => exact fun t ht _ => ⟨ht, by simp⟩
    | cons s ss ih =>
      intro t ht hss
      obtain ⟨hs, hss⟩ := List.forall_mem_cons.mp hss
      obtain ⟨hproper, hhas⟩ := ih (t.union s) (isProper_union ht hs) hss
      refine ⟨hproper, fun c => ?_⟩
      rw [List.foldl_cons, hhas, has_union ht hs, or_assoc]
      simp only [List.mem_cons, or_and_right, exists_or, exists_eq_left]
  obtain ⟨hproper, hhas⟩ := hfold ss none isProper_none hss
  refine ⟨hproper, fun c => (hhas c).trans ?_⟩
  simp [none, has, CharTable.has, CharTable.covers]

/-! ## Single characters -/

/-- Where a set has an only character, it holds that and no other one. -/
theorem has_iff_of_only? {s : CharSet} (h : s.IsProper) {c : Char} (hc : s.only? = some c)
    (d : Char) : s.has d = true ↔ d = c := by
  unfold only? at hc
  split at hc
  · rename_i lo hi hr
    split at hc
    · rename_i heq
      subst heq
      obtain rfl := Option.some.inj hc
      have hvalid := h.begins (lo, lo) (hr ▸ List.mem_singleton_self _)
      have hto : (Char.ofNat lo).toNat = lo := by
        rw [Char.ofNat, dif_pos hvalid]
        rfl
      rw [has_iff h, hr]
      simp only [List.mem_singleton, exists_eq_left]
      rw [← Char.toNat_inj, hto]
      omega
    · cases hc
  · cases hc

end CharSet

end TimePhrase
