import TimePhrase.Proofs.Document.Extension

/-!
# Before the root element

What comes before the root element is a byte order mark, a declaration, comments and instructions,
none of which has to be there. It is passed over in the same way in a longer document.

* `skipMisc_append`  comments and instructions
* `skipDeclaration_append`  declarations
* `skipProlog_append`  all of it
-/

namespace TimePhrase.Document

variable {s r z : Text} {c : Char}

/-! ## Comments and instructions -/

/-- Where a tag begins, there is no comment and no instruction to be passed over. -/
theorem skipMisc_eq (hskip : skipSpace s = '<' :: c :: r) (hc : isNameChar c = true) (fuel : Nat) :
    skipMisc fuel s = some ('<' :: c :: r) := by
  cases fuel with
  | zero => rw [skipMisc, hskip]
  | succ fuel =>
    have hbang : '!' ≠ c := by
      rintro rfl
      exact absurd hc (by decide)
    have hquestion : '?' ≠ c := by
      rintro rfl
      exact absurd hc (by decide)
    have hcomment : Text.after? ('<' :: c :: r) "<!--" = none := if_neg hbang
    have hinstruction : Text.after? ('<' :: c :: r) "<?" = none := if_neg hquestion
    unfold skipMisc
    simp only [hskip, hcomment, hinstruction]

/-- What is passed over before a tag is passed over in a longer text, and more fuel does no harm. -/
theorem skipMisc_append {fuel fuel' : Nat} (h : skipMisc fuel s = some ('<' :: c :: r))
    (hc : isNameChar c = true) (hle : fuel ≤ fuel') (z : Text) :
    skipMisc fuel' (s ++ z) = some ('<' :: c :: (r ++ z)) := by
  induction fuel generalizing s fuel' with
  | zero =>
    have hskip : skipSpace s = '<' :: c :: r := Option.some.inj h
    exact skipMisc_eq (skipSpace_append hskip z) hc fuel'
  | succ fuel ih =>
    obtain ⟨fuel', rfl⟩ : ∃ k, fuel' = k + 1 := ⟨fuel' - 1, by omega⟩
    have hle' : fuel ≤ fuel' := by omega
    unfold skipMisc at h
    simp only at h
    have hne {mark t : Text} (hmark : mark ≠ []) (ht : (skipSpace s).after? mark = some t) :
        skipSpace (s ++ z) = skipSpace s ++ z := by
      refine skipSpace_append_of_ne_nil ?_ z
      rw [Text.eq_append_of_after? ht]
      exact List.append_ne_nil_of_left_ne_nil hmark t
    cases hcomment : (skipSpace s).after? "<!--" with
    | some t =>
      rw [hcomment] at h
      obtain ⟨t', ht, hmisc⟩ := Option.bind_eq_some_iff.mp h
      unfold skipMisc
      simp only [hne (by decide) hcomment, Text.after?_append_right hcomment,
        skipComment_append ht, Option.bind_some]
      exact ih hmisc hle'
    | none =>
      rw [hcomment] at h
      simp only at h
      cases hinstruction : (skipSpace s).after? "<?" with
      | some t =>
        rw [hinstruction] at h
        obtain ⟨t', ht, hmisc⟩ := Option.bind_eq_some_iff.mp h
        have hlong : Text.after? (skipSpace s ++ z) "<!--" = none := by
          rw [Text.eq_append_of_after? hinstruction]
          rfl
        unfold skipMisc
        simp only [hne (by decide) hinstruction, hlong, Text.after?_append_right hinstruction,
          skipInstruction_append ht, Option.bind_some]
        exact ih hmisc hle'
      | none =>
        rw [hinstruction] at h
        exact skipMisc_eq (skipSpace_append (Option.some.inj h) z) hc (fuel' + 1)

/-! ## Declarations -/

/-- What comes after an assignment that a text may begin with. -/
def skipAssignmentIf (word s : Text) : Option (Option Text) :=
  if (s.after? word).isSome then (readAssignment s).map fun p => some p.2 else some none

/-- What comes after white space, which may only be missing at the end of a declaration. -/
def skipGap (s : Text) : Option Text :=
  if s.isEmpty ∨ s.head?.any isSpace ∨ (s.after? "?>").isSome then some (skipSpace s) else none

/-- The gap after an assignment that may be missing, where `s` is what comes without it. -/
def skipGapIf (s : Text) : Option Text → Option Text
  | some t => skipGap t
  | none => some s

/-- The parts of a declaration. -/
theorem skipDeclaration_eq_some : skipDeclaration s = some r ↔
    ∃ s₁ s₂ o s₃ o', skipAssignmentIf "version" (skipSpace s) = some (some s₁) ∧
      skipGap s₁ = some s₂ ∧ skipAssignmentIf "encoding" s₂ = some o ∧
      skipGapIf s₂ o = some s₃ ∧ skipAssignmentIf "standalone" s₃ = some o' ∧
      (skipSpace (o'.getD s₃)).after? "?>" = some r := by
  have hparts : skipDeclaration s =
      (skipAssignmentIf "version" (skipSpace s)).bind fun o => o.bind fun s₁ =>
        (skipGap s₁).bind fun s₂ => (skipAssignmentIf "encoding" s₂).bind fun o =>
          (skipGapIf s₂ o).bind fun s₃ => (skipAssignmentIf "standalone" s₃).bind fun o' =>
            (skipSpace (o'.getD s₃)).after? "?>" := by
    refine Option.bind_congr fun _ _ => Option.bind_congr fun _ _ => Option.bind_congr fun _ _ =>
      Option.bind_congr fun o _ => ?_
    cases o <;> rfl
  rw [hparts]
  simp only [Option.bind_eq_some_iff]
  constructor
  · rintro ⟨_, hversion, s₁, rfl, s₂, hgap, o, hencoding, s₃, hgap', o', hstandalone, h⟩
    exact ⟨s₁, s₂, o, s₃, o', hversion, hgap, hencoding, hgap', hstandalone, h⟩
  · rintro ⟨s₁, s₂, o, s₃, o', hversion, hgap, hencoding, hgap', hstandalone, h⟩
    exact ⟨_, hversion, s₁, rfl, s₂, hgap, o, hencoding, s₃, hgap', o', hstandalone, h⟩

theorem skipAssignmentIf_append {word : Text} {o : Option Text}
    (h : skipAssignmentIf word s = some o) (hs : '?' ∈ s) (hword : '?' ∉ word) (z : Text) :
    skipAssignmentIf word (s ++ z) = some (o.map (· ++ z)) := by
  unfold skipAssignmentIf at h ⊢
  cases hafter : s.after? word with
  | none =>
    rw [hafter] at h
    rw [Text.after?_append_eq_none_of_mem hafter hs hword]
    obtain rfl := Option.some.inj h
    rfl
  | some t =>
    rw [hafter] at h
    obtain ⟨⟨a, t'⟩, hassign, rfl⟩ := Option.map_eq_some_iff.mp h
    rw [Text.after?_append_right hafter, readAssignment_append hassign]
    rfl

theorem suffix_of_skipAssignmentIf {word t : Text} (h : skipAssignmentIf word s = some (some t)) :
    t <:+ s := by
  unfold skipAssignmentIf at h
  split at h
  · obtain ⟨⟨a, t'⟩, hassign, heq⟩ := Option.map_eq_some_iff.mp h
    obtain rfl := Option.some.inj heq
    exact suffix_of_readAssignment hassign
  · exact nomatch h

theorem skipGap_append (h : skipGap s = some r) (hr : r ≠ []) (z : Text) :
    skipGap (s ++ z) = some (r ++ z) := by
  unfold skipGap at h ⊢
  split at h
  · rename_i hgap
    obtain rfl := Option.some.inj h
    have hlong : (s ++ z).isEmpty = true ∨ (s ++ z).head?.any isSpace = true ∨
        (Text.after? (s ++ z) "?>").isSome = true := by
      cases s with
      | nil => exact absurd rfl hr
      | cons c s =>
        rcases hgap with hempty | hspace | hend
        · exact nomatch hempty
        · exact .inr (.inl hspace)
        · obtain ⟨t, ht⟩ := Option.isSome_iff_exists.mp hend
          rw [Text.after?_append_right ht]
          exact .inr (.inr rfl)
    rw [if_pos hlong, skipSpace_append_of_ne_nil hr]
  · exact nomatch h

theorem suffix_of_skipGap (h : skipGap s = some r) : r <:+ s := by
  unfold skipGap at h
  split at h
  · obtain rfl := Option.some.inj h
    exact List.dropWhile_suffix _
  · exact nomatch h

/-- A declaration has a question mark at its end, so that it is not cut short. -/
theorem skipDeclaration_append (h : skipDeclaration s = some r) (z : Text) :
    skipDeclaration (s ++ z) = some (r ++ z) := by
  obtain ⟨s₁, s₂, o, s₃, o', hversion, hgap, hencoding, hgap', hstandalone, hend⟩ :=
    skipDeclaration_eq_some.mp h
  have hmark : '?' ∈ skipSpace (o'.getD s₃) := by
    rw [Text.eq_append_of_after? hend]
    exact List.mem_cons_self
  have hmark₄ : '?' ∈ o'.getD s₃ := (List.dropWhile_suffix _).subset hmark
  have hmark₃ : '?' ∈ s₃ := by
    cases o' with
    | none => exact hmark₄
    | some t => exact (suffix_of_skipAssignmentIf hstandalone).subset hmark₄
  have hmark₂ : '?' ∈ s₂ := by
    cases o with
    | none =>
      obtain rfl := Option.some.inj hgap'
      exact hmark₃
    | some t =>
      exact (suffix_of_skipAssignmentIf hencoding).subset ((suffix_of_skipGap hgap').subset hmark₃)
  have hmark₁ := (suffix_of_skipGap hgap).subset hmark₂
  have hmark₀ := (suffix_of_skipAssignmentIf hversion).subset hmark₁
  refine skipDeclaration_eq_some.mpr ⟨s₁ ++ z, s₂ ++ z, o.map (· ++ z), s₃ ++ z, o'.map (· ++ z),
    ?_, skipGap_append hgap (List.ne_nil_of_mem hmark₂) z,
    skipAssignmentIf_append hencoding hmark₂ (by decide) z, ?_,
    skipAssignmentIf_append hstandalone hmark₃ (by decide) z, ?_⟩
  · rw [skipSpace_append_of_ne_nil (List.ne_nil_of_mem hmark₀)]
    exact skipAssignmentIf_append hversion hmark₀ (by decide) z
  · cases o with
    | none =>
      obtain rfl := Option.some.inj hgap'
      rfl
    | some t => exact skipGap_append hgap' (List.ne_nil_of_mem hmark₃) z
  · have hlast : (o'.map (· ++ z)).getD (s₃ ++ z) = o'.getD s₃ ++ z := by
      cases o' <;> rfl
    rw [hlast, skipSpace_append_of_ne_nil (List.ne_nil_of_mem hmark)]
    exact Text.after?_append_right hend z

/-! ## All of it -/

/-- A part of the opening of a declaration leads to no tag. -/
theorem skipMisc_ne_of_isPrefix (h : s <+: ("<?xml " : Text)) :
    skipMisc s.length s ≠ some ('<' :: c :: r) := by
  have hfew : ∀ s ∈ List.inits ("<?xml " : Text),
      (skipMisc s.length s).all (fun t => decide (t.length < 2)) = true := by
    decide
  intro hmisc
  have hlen := hfew s ((List.mem_inits s _).mpr h)
  rw [hmisc] at hlen
  simp only [Option.all_some, List.length_cons, decide_eq_true_eq] at hlen
  omega

/-- The rest after a byte order mark. -/
def skipMark (s : Text) : Text :=
  match s with
  | '\ufeff' :: r => r
  | s => s

/-- The rest after a declaration, comments and instructions. -/
def skipOpening (s : Text) : Option Text :=
  (match Text.after? s "<?xml " with
    | some r => skipDeclaration r
    | none => some s).bind fun s => skipMisc s.length s

theorem skipProlog_eq (s : Text) : skipProlog s = skipOpening (skipMark s) := rfl

theorem skipMark_append (h : s ≠ []) (z : Text) : skipMark (s ++ z) = skipMark s ++ z := by
  cases s with
  | nil => exact absurd rfl h
  | cons b s =>
    by_cases hb : b = '\ufeff'
    · rw [hb]
      rfl
    · have hnone (t : Text) : skipMark (b :: t) = b :: t := by
        unfold skipMark
        split
        · rename_i heq
          exact absurd (List.cons.inj heq).1 hb
        · rfl
      rw [List.cons_append, hnone, hnone, List.cons_append]

theorem skipOpening_append (h : skipOpening s = some ('<' :: c :: r)) (hc : isNameChar c = true)
    (z : Text) : skipOpening (s ++ z) = some ('<' :: c :: (r ++ z)) := by
  have hle (t : Text) : t.length ≤ (t ++ z).length := by
    rw [List.length_append]
    exact Nat.le_add_right _ _
  unfold skipOpening at h ⊢
  cases hafter : Text.after? s "<?xml " with
  | some t =>
    rw [hafter] at h
    obtain ⟨t', hdeclaration, hmisc⟩ := Option.bind_eq_some_iff.mp h
    rw [Text.after?_append_right hafter]
    simp only [skipDeclaration_append hdeclaration, Option.bind_some]
    exact skipMisc_append hmisc hc (hle t') z
  | none =>
    rw [hafter] at h
    have hmisc : skipMisc s.length s = some ('<' :: c :: r) := h
    have hlong : Text.after? (s ++ z) "<?xml " = none := by
      by_contra hlong
      exact skipMisc_ne_of_isPrefix (Text.isPrefix_of_after?_append hafter hlong) hmisc
    rw [hlong]
    exact skipMisc_append hmisc hc (hle s) z

/-- What comes before the root element is passed over in a longer document. -/
theorem skipProlog_append (h : skipProlog s = some ('<' :: c :: r)) (hc : isNameChar c = true)
    (z : Text) : skipProlog (s ++ z) = some ('<' :: c :: (r ++ z)) := by
  have hne : s ≠ [] := by
    rintro rfl
    exact nomatch h
  rw [skipProlog_eq] at h ⊢
  rw [skipMark_append hne]
  exact skipOpening_append h hc z

end TimePhrase.Document
