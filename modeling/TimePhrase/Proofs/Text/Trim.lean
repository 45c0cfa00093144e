import TimePhrase.Text.Blank

/-!
# Trimming

A trimmed text is what remains between two runs of a class of characters. It is determined by that:
of all ways to write a text with such runs around a middle part, only one has a middle part that is
trimmed itself.

* `stripWhile_append_append`  runs of the class around a trimmed text are taken off
* `exists_stripWhile`  nothing else is taken off
* `tight_stripWhile`  what is left is trimmed
-/

namespace TimePhrase.Text

variable {p : Char → Bool}

/-- What is said of the characters of a text is decided along the text, not over all characters. -/
instance (priority := high) decidableForallMem (q : Char → Prop) [DecidablePred q] (t : Text) :
    Decidable (∀ c ∈ t, q c) :=
  List.decidableBAll q t

/-! ## The end of a text -/

theorem dropEndWhile_eq_nil_iff {s : Text} : dropEndWhile p s = [] ↔ ∀ c ∈ s, p c = true := by
  induction s with
  | nil => simp [dropEndWhile]
  | cons c r ih =>
    simp only [dropEndWhile, List.forall_mem_cons, ← ih]
    split
    · rename_i h
      by_cases hc : p c = true <;> simp [h, hc]
    · rename_i h
      simp [h]

theorem dropEndWhile_append (s t : Text) :
    dropEndWhile p (s ++ t) =
      if dropEndWhile p t = [] then dropEndWhile p s else s ++ dropEndWhile p t := by
  induction s with
  | nil => by_cases h : dropEndWhile p t = [] <;> simp [h, dropEndWhile]
  | cons c r ih =>
    by_cases h : dropEndWhile p t = []
    · simp [h, ih, dropEndWhile]
    · have hne : r ++ dropEndWhile p t ≠ [] := by simp [h]
      obtain ⟨d, l, hl⟩ := List.exists_cons_of_ne_nil hne
      simp [h, ih, dropEndWhile, hl]

/-- A run of the class at the end is taken off. -/
theorem dropEndWhile_append_of_all (s : Text) {t : Text} (h : ∀ c ∈ t, p c = true) :
    dropEndWhile p (s ++ t) = dropEndWhile p s := by
  rw [dropEndWhile_append, if_pos (dropEndWhile_eq_nil_iff.mpr h)]

/-- Nothing but a run of the class is taken off. -/
theorem exists_dropEndWhile (p : Char → Bool) (s : Text) :
    ∃ t, s = dropEndWhile p s ++ t ∧ ∀ c ∈ t, p c = true := by
  induction s with
  | nil => exact ⟨[], by simp [dropEndWhile]⟩
  | cons c r ih =>
    obtain ⟨t, hr, ht⟩ := ih
    simp only [dropEndWhile]
    split
    · rename_i h
      rw [h, List.nil_append] at hr
      subst hr
      by_cases hc : p c = true
      · exact ⟨c :: r, by simp [hc], by simpa [hc] using ht⟩
      · exact ⟨r, by simp [hc], ht⟩
    · rename_i d l h
      exact ⟨t, by rw [h] at hr; simp [← hr], ht⟩

theorem dropEndWhile_eq_reverse (p : Char → Bool) (s : Text) :
    dropEndWhile p s = (s.reverse.dropWhile p).reverse := by
  induction s with
  | nil => rfl
  | cons c r ih =>
    rw [List.reverse_cons, List.dropWhile_append, dropEndWhile, ih]
    split
    · rename_i h
      by_cases hc : p c = true <;> simp [List.reverse_eq_nil_iff.mp h, hc]
    · rename_i d l h
      have hne : r.reverse.dropWhile p ≠ [] := by
        intro hnil
        rw [hnil] at h
        exact nomatch h
      rw [if_neg (by simpa using hne), List.reverse_append, h]
      rfl

/-! ## Both ends -/

/-- A text that neither begins nor ends with a character of the class. -/
structure Tight (p : Char → Bool) (t : Text) : Prop where
  head : ∀ c ∈ t.head?, p c = false
  last : ∀ c ∈ t.getLast?, p c = false

theorem tight_of_all {t : Text} (h : ∀ c ∈ t, p c = false) : Tight p t :=
  ⟨fun c hc => h c (List.mem_of_head? hc), fun c hc => h c (List.mem_of_getLast? hc)⟩

theorem tight_nil : Tight p [] := tight_of_all (by simp)

/-- The first and the last part of a text tell whether it is trimmed. -/
theorem Tight.append {s t : Text} (hs : Tight p s) (hs₀ : s ≠ []) (ht : Tight p t) (ht₀ : t ≠ [])
    (m : Text) : Tight p (s ++ m ++ t) := by
  obtain ⟨c, r, rfl⟩ := List.exists_cons_of_ne_nil hs₀
  constructor
  · intro d hd
    exact hs.head d (by simpa using hd)
  · intro d hd
    have hlast := List.getLast?_eq_some_getLast ht₀
    rw [List.getLast?_append, hlast, Option.some_or] at hd
    exact ht.last d (hlast ▸ hd)

theorem tight_cons_concat {c d : Char} (hc : p c = false) (hd : p d = false) (m : Text) :
    Tight p (c :: m ++ [d]) :=
  have single {a : Char} (ha : p a = false) : Tight p [a] :=
    ⟨by simpa using ha, by simpa using ha⟩
  (single hc).append (List.cons_ne_nil c []) (single hd) (List.cons_ne_nil d []) m

theorem Tight.dropEndWhile_eq {t : Text} (h : Tight p t) : dropEndWhile p t = t := by
  rcases List.eq_nil_or_concat t with rfl | ⟨s, c, rfl⟩
  · rfl
  · rw [List.concat_eq_append] at h ⊢
    have hc : p c = false := h.last c (by simp)
    rw [dropEndWhile_append]
    simp [dropEndWhile, hc]

/-- Runs of the class around a trimmed text are taken off. -/
theorem stripWhile_append_append {a t b : Text} (ha : ∀ c ∈ a, p c = true) (ht : Tight p t)
    (hb : ∀ c ∈ b, p c = true) : stripWhile p (a ++ t ++ b) = t := by
  rw [stripWhile, List.append_assoc, List.dropWhile_append_of_pos ha]
  cases t with
  | nil =>
    rw [List.nil_append, dropEndWhile_eq_nil_iff]
    exact fun c hc => hb c (List.dropWhile_subset p hc)
  | cons c r =>
    have hc : p c = false := ht.head c rfl
    rw [List.cons_append, List.dropWhile_cons_of_neg (by simp [hc]), ← List.cons_append,
      dropEndWhile_append_of_all _ hb, ht.dropEndWhile_eq]

theorem last_dropEndWhile (p : Char → Bool) (s : Text) :
    ∀ c ∈ (dropEndWhile p s).getLast?, p c = false := by
  induction s with
  | nil => simp [dropEndWhile]
  | cons d r ih =>
    simp only [dropEndWhile]
    split
    · by_cases hd : p d = true <;> simp [hd]
    · rename_i e l h
      rw [h] at ih
      rwa [List.getLast?_cons_cons]

/-- What is left is trimmed. -/
theorem tight_stripWhile (p : Char → Bool) (s : Text) : Tight p (stripWhile p s) := by
  refine ⟨fun c hc => ?_, last_dropEndWhile p _⟩
  -- What is left begins as the text does without the run at its beginning.
  obtain ⟨b, hs, -⟩ := exists_dropEndWhile p (s.dropWhile p)
  have h := List.head?_dropWhile_not p s
  rw [hs, List.head?_append, ← stripWhile, Option.mem_def.mp hc] at h
  simpa using h

/-- Nothing but runs of the class at both ends is taken off. -/
theorem exists_stripWhile (p : Char → Bool) (s : Text) :
    ∃ a b, s = a ++ stripWhile p s ++ b ∧ (∀ c ∈ a, p c = true) ∧ ∀ c ∈ b, p c = true := by
  obtain ⟨b, hs, hb⟩ := exists_dropEndWhile p (s.dropWhile p)
  refine ⟨s.takeWhile p, b, ?_, List.all_eq_true.mp List.all_takeWhile, hb⟩
  rw [stripWhile, List.append_assoc, ← hs, List.takeWhile_append_dropWhile]

/-- What is left is a part of the text. -/
theorem stripWhile_sublist (p : Char → Bool) (s : Text) : (stripWhile p s).Sublist s := by
  obtain ⟨a, b, hs, -, -⟩ := exists_stripWhile p s
  have := (List.sublist_append_right a (stripWhile p s)).append_right b
  rw [← hs] at this
  exact (List.sublist_append_left _ b).trans this

/-- No character outside the class is taken off. -/
theorem filter_stripWhile {q : Char → Bool} (h : ∀ c, p c = true → q c = false) (s : Text) :
    (stripWhile p s).filter q = s.filter q := by
  obtain ⟨a, b, hs, ha, hb⟩ := exists_stripWhile p s
  have none {u : Text} (hu : ∀ c ∈ u, p c = true) : u.filter q = [] :=
    List.filter_eq_nil_iff.mpr fun c hc => by simp [h c (hu c hc)]
  conv => rhs; rw [hs]
  rw [List.filter_append, List.filter_append, none ha, none hb, List.nil_append, List.append_nil]

/-- A trimmed text is left as it is. -/
theorem Tight.stripWhile_eq {t : Text} (h : Tight p t) : stripWhile p t = t := by
  simpa using stripWhile_append_append (a := []) (b := []) (by simp) h (by simp)

theorem length_stripWhile_le (p : Char → Bool) (s : Text) : (stripWhile p s).length ≤ s.length :=
  (stripWhile_sublist p s).length_le

/-! ## Blanks -/

/-- A text that neither begins nor ends with a blank. -/
abbrev Trimmed (t : Text) : Prop := Tight TimePhrase.isBlank t

theorem isBlank_append (s t : Text) : (s ++ t).isBlank = (s.isBlank && t.isBlank) := List.all_append

theorem trim_append_append {a t b : Text} (ha : a.isBlank = true) (ht : t.Trimmed)
    (hb : b.isBlank = true) : (a ++ t ++ b).trim = t :=
  stripWhile_append_append (List.all_eq_true.mp ha) ht (List.all_eq_true.mp hb)

theorem exists_trim (s : Text) :
    ∃ a b : Text, s = a ++ s.trim ++ b ∧ a.isBlank = true ∧ b.isBlank = true := by
  obtain ⟨a, b, hs, ha, hb⟩ := exists_stripWhile TimePhrase.isBlank s
  exact ⟨a, b, hs, List.all_eq_true.mpr ha, List.all_eq_true.mpr hb⟩

theorem trimmed_trim (s : Text) : s.trim.Trimmed := tight_stripWhile _ s

theorem Trimmed.trim_eq {t : Text} (h : t.Trimmed) : t.trim = t := Tight.stripWhile_eq h

@[simp] theorem trim_trim (s : Text) : s.trim.trim = s.trim := (trimmed_trim s).trim_eq

theorem length_trim_le (s : Text) : s.trim.length ≤ s.length := length_stripWhile_le _ s

/-- A text is blank if nothing of it is left. -/
theorem trim_eq_nil_iff {s : Text} : s.trim = [] ↔ s.isBlank = true := by
  constructor
  · intro h
    obtain ⟨a, b, hs, ha, hb⟩ := exists_trim s
    rw [hs, h, List.append_nil, isBlank_append, ha, hb]
    rfl
  · intro h
    simpa using trim_append_append (t := []) h tight_nil (b := []) rfl

theorem Trimmed.isBlank_eq_false {t : Text} (h : t.Trimmed) (hne : t ≠ []) : t.isBlank = false := by
  rw [← Bool.not_eq_true, ← trim_eq_nil_iff, h.trim_eq]
  exact hne

end TimePhrase.Text
