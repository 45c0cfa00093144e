import TimePhrase.Script.TopLevel

/-!
# Scanning one text after another

What a scan finds in a text of several pieces follows from what it finds in each of them, if the
state it is in after a piece is known. A piece that avoids a class of characters at the top level
is neither split by it nor broken at it.

* `topLevel_append`, `avoids_iff_topLevel`  the list of top-level characters
* `parts_append_of_avoids`, `parts_append_cons`  a piece is the beginning of a part, or a part
* `avoids_of_mem_parts`  no part is split again
* `parts_append_of_after`  two texts are split one after the other
* `breakAt_append_cons`, `eq_append_of_breakAt`  where a text is broken
* `Balanced`  a text that is hidden inside brackets and leaves a scan as it was
-/

namespace TimePhrase.Script

namespace Scan

variable {p : Char → Bool} {s : Scan}

theorem after_append (s : Scan) (t u : Text) : s.after (t ++ u) = (s.after t).after u :=
  List.foldl_append

/-- A scan only sees characters outside everything. -/
theorem eq_outside_of_sees {c : Char} (h : s.sees c = true) : s = outside ∧ isQuote c = false := by
  match s with
  | .code 0 => exact ⟨rfl, by simpa [sees] using h⟩
  | .code (d + 1) | .quoted _ _ | .escaped _ _ => simp [sees] at h

/-! ## Characters that are not at the top level -/

/-- No top-level character of a text is in the class. -/
def Avoids (p : Char → Bool) : Scan → Text → Prop
  | _, [] => True
  | s, c :: r => (s.sees c = true → p c = false) ∧ Avoids p (s.next c) r

@[simp] theorem avoids_nil (p : Char → Bool) (s : Scan) : Avoids p s [] := trivial

@[simp] theorem avoids_cons (p : Char → Bool) (s : Scan) (c : Char) (r : Text) :
    Avoids p s (c :: r) ↔ (s.sees c = true → p c = false) ∧ Avoids p (s.next c) r :=
  Iff.rfl

theorem avoids_append (p : Char → Bool) (s : Scan) (t u : Text) :
    Avoids p s (t ++ u) ↔ Avoids p s t ∧ Avoids p (s.after t) u := by
  induction t generalizing s with
  | nil => simp
  | cons c r ih => simp [ih, and_assoc]

/-- Avoiding more characters is avoiding fewer. -/
theorem Avoids.mono {p q : Char → Bool} (hpq : ∀ c, p c = true → q c = true) {s : Scan} {t : Text}
    (h : Avoids q s t) : Avoids p s t := by
  induction t generalizing s with
  | nil => trivial
  | cons c r ih =>
    refine ⟨fun hs => ?_, ih h.2⟩
    rw [← Bool.not_eq_true]
    intro hc
    simp [hpq c hc] at h
    simp [h.1] at hs

theorem avoids_of_all {p : Char → Bool} {t : Text} (h : ∀ c ∈ t, p c = false) (s : Scan) :
    Avoids p s t := by
  induction t generalizing s with
  | nil => trivial
  | cons c r ih =>
    exact ⟨fun _ => h c (List.mem_cons_self ..), ih (fun d hd => h d (List.mem_cons_of_mem _ hd)) _⟩

/-! ## The list of top-level characters -/

theorem topLevel_append (s : Scan) (pos : Nat) (t u : Text) :
    s.topLevel pos (t ++ u) =
      s.topLevel pos t ++ (s.after t).topLevel (pos + Text.byteSize t) u := by
  induction t generalizing s pos with
  | nil => rfl
  | cons c r ih =>
    simp only [List.cons_append, topLevel, ih, after_cons, Text.byteSize_cons, Nat.add_assoc]
    split <;> rfl

/-- Further on in a text there are the same characters, at positions that are greater by as much. -/
theorem topLevel_add (s : Scan) (pos n : Nat) (t : Text) :
    s.topLevel (pos + n) t = (s.topLevel pos t).map fun x => (x.1 + n, x.2) := by
  induction t generalizing s pos with
  | nil => rfl
  | cons c r ih =>
    simp only [topLevel, Nat.add_right_comm pos n, ih]
    split <;> rfl

theorem avoids_iff_topLevel (p : Char → Bool) (s : Scan) (pos : Nat) (t : Text) :
    Avoids p s t ↔ ∀ x ∈ s.topLevel pos t, p x.2 = false := by
  induction t generalizing s pos with
  | nil => simp [topLevel]
  | cons c r ih =>
    rw [avoids_cons, topLevel, ih (s.next c) (pos + c.utf8Size)]
    split
    · rename_i hs
      simp [hs]
    · rename_i hs
      simp [hs]

theorem topLevel_eq_nil {t : Text} (h : Avoids (fun _ => true) s t) (pos : Nat) :
    s.topLevel pos t = [] :=
  List.eq_nil_iff_forall_not_mem.mpr fun x hx =>
    nomatch (avoids_iff_topLevel (fun _ => true) s pos t).mp h x hx

/-! ## Parts -/

/-- A piece that is not split belongs to the first part. -/
theorem parts_append_of_avoids {t : Text} (h : Avoids p s t) {u q : Text} {qs : List Text}
    (hu : parts p (s.after t) u = q :: qs) : parts p s (t ++ u) = (t ++ q) :: qs := by
  induction t generalizing s with
  | nil => exact hu
  | cons c r ih =>
    have hc : (s.sees c && p c) = false := by
      by_cases hs : s.sees c = true
      · simp [h.1 hs]
      · simp [hs]
    have hr := ih h.2 hu
    rw [List.cons_append, parts, hc, if_neg (by simp), hr]
    rfl

/-- A piece that is not split, with a separator after it, is a part. -/
theorem parts_append_cons {t : Text} (h : Avoids p s t) {c : Char}
    (hs : (s.after t).sees c = true) (hc : p c = true) (u : Text) :
    parts p s (t ++ c :: u) = t :: parts p ((s.after t).next c) u := by
  have hu : parts p (s.after t) (c :: u) = [] :: parts p ((s.after t).next c) u := by
    rw [parts, hs, hc, Bool.and_true, if_pos rfl]
  rw [parts_append_of_avoids h hu, List.append_nil]

/-- A text that is not split is its only part. -/
theorem parts_eq_singleton {t : Text} (h : Avoids p s t) : parts p s t = [t] := by
  have hnil : parts p (s.after t) [] = [[]] := rfl
  simpa using parts_append_of_avoids h hnil

/-- A text is its only part, or its first part is followed by a separator. -/
theorem parts_cases (p : Char → Bool) (s : Scan) (t : Text) :
    Avoids p s t ∨ ∃ q c u, t = q ++ c :: u ∧ Avoids p s q ∧ (s.after q).sees c = true ∧
      p c = true := by
  induction t generalizing s with
  | nil => exact .inl trivial
  | cons c r ih =>
    by_cases hc : (s.sees c && p c) = true
    · rw [Bool.and_eq_true] at hc
      exact .inr ⟨[], c, r, rfl, trivial, hc.1, hc.2⟩
    · have hp : s.sees c = true → p c = false := fun hs => by simpa [hs] using hc
      rcases ih (s.next c) with h | ⟨q, d, u, rfl, h, hs, hd⟩
      · exact .inl ⟨hp, h⟩
      · exact .inr ⟨c :: q, d, u, rfl, ⟨hp, h⟩, hs, hd⟩

/-- The lengths of the parts and the number of separators add up. -/
theorem length_flatten_parts (p : Char → Bool) (s : Scan) (t : Text) :
    (parts p s t).flatten.length + (parts p s t).length = t.length + 1 := by
  induction t generalizing s with
  | nil => rfl
  | cons c r ih =>
    have ih := ih (s.next c)
    rw [parts]
    split
    · simp only [List.flatten_cons, List.nil_append, List.length_cons]
      omega
    · -- The character goes in front of the first part of the rest.
      obtain ⟨q, qs, hq⟩ := List.exists_cons_of_ne_nil (parts_ne_nil p (s.next c) r)
      rw [hq] at ih ⊢
      simp only [Text.consFirst, List.flatten_cons, List.length_append, List.length_cons] at ih ⊢
      omega

/-- A part is shorter than the text by as many characters as there are separators. -/
theorem length_add_le_of_mem_parts {t q : Text} (hq : q ∈ parts p s t) :
    q.length + (parts p s t).length ≤ t.length + 1 := by
  have hsum := length_flatten_parts p s t
  have hle := (List.sublist_flatten_of_mem hq).length_le
  omega

/-- Behind a separator that is no opening bracket a scan is outside everything again, so no part is
    split by the same separators. -/
theorem avoids_of_mem_parts (hp : ∀ c, p c = true → outside.next c = outside) {t : Text} :
    ∀ q ∈ parts p outside t, Avoids p outside q := by
  generalize hn : t.length = n
  induction n using Nat.strongRecOn generalizing t with
  | ind n ih =>
    subst hn
    rcases parts_cases p outside t with h | ⟨q, c, u, rfl, h, hs, hc⟩
    · rw [parts_eq_singleton h]
      simpa using h
    · -- The other parts are the parts of what follows the separator, scanned from outside again.
      obtain ⟨hq, -⟩ := eq_outside_of_sees hs
      rw [parts_append_cons h hs hc, hq, hp c hc]
      refine List.forall_mem_cons.mpr ⟨h, ih u.length ?_ rfl⟩
      simp only [List.length_append, List.length_cons]
      omega

/-- One of the parts leaves a scan as the whole text does, namely the last one. -/
theorem exists_mem_parts_after (hp : ∀ c, p c = true → outside.next c = outside) (t : Text) :
    ∃ q ∈ parts p outside t, outside.after q = outside.after t := by
  generalize hn : t.length = n
  induction n using Nat.strongRecOn generalizing t with
  | ind n ih =>
    subst hn
    rcases parts_cases p outside t with h | ⟨q, c, u, rfl, h, hs, hc⟩
    · rw [parts_eq_singleton h]
      exact ⟨t, List.mem_singleton_self t, rfl⟩
    · obtain ⟨hq, -⟩ := eq_outside_of_sees hs
      obtain ⟨q', hmem, hafter⟩ := ih u.length (by simp; omega) u rfl
      rw [parts_append_cons h hs hc, after_append, after_cons, hq, hp c hc]
      exact ⟨q', List.mem_cons_of_mem q hmem, hafter⟩

/-- Splitting loses nothing but the separators. -/
theorem join_parts (c : Char) (s : Scan) (t : Text) : Text.join [c] (parts (· == c) s t) = t := by
  induction t generalizing s with
  | nil => rfl
  | cons d r ih =>
    have hne := parts_ne_nil (· == c) (s.next d) r
    rw [parts]
    split
    · rename_i hd
      obtain ⟨-, hd⟩ : s.sees d = true ∧ d = c := by simpa using hd
      obtain ⟨q, qs, hq⟩ := List.exists_cons_of_ne_nil hne
      have ih := ih (s.next d)
      rw [hq] at ih ⊢
      simp [Text.join, ih, hd]
    · rw [Text.join_consFirst _ _ hne, ih]

/-! ## Breaks -/

/-- A text is broken at the first top-level occurrence of a character. -/
theorem breakAt_append_cons {c : Char} {t : Text} (h : Avoids (· == c) s t)
    (hs : (s.after t).sees c = true) (u : Text) : breakAt c s (t ++ c :: u) = some (t, u) := by
  induction t generalizing s with
  | nil =>
    have hs : s.sees c = true := hs
    simp [breakAt, hs]
  | cons d r ih =>
    have hd : (s.sees d && d == c) = false := by
      by_cases hs : s.sees d = true
      · simpa [hs] using h.1 hs
      · simp [hs]
    rw [List.cons_append, breakAt, hd, ih h.2 hs]
    rfl

theorem eq_append_of_breakAt {c : Char} {t a b : Text} (h : breakAt c s t = some (a, b)) :
    t = a ++ c :: b ∧ Avoids (· == c) s a ∧ (s.after a).sees c = true := by
  induction t generalizing s a with
  | nil => simp [breakAt] at h
  | cons d r ih =>
    rw [breakAt] at h
    split at h
    · rename_i hd
      rw [Bool.and_eq_true, beq_iff_eq] at hd
      obtain ⟨rfl, rfl⟩ : [] = a ∧ r = b := by simpa using h
      exact ⟨by rw [hd.2]; rfl, trivial, hd.2 ▸ hd.1⟩
    · rename_i hd
      obtain ⟨⟨a', b'⟩, hr, hab⟩ := Option.map_eq_some_iff.mp h
      obtain ⟨rfl, rfl⟩ : d :: a' = a ∧ b' = b := by simpa using hab
      obtain ⟨rfl, ha, hs⟩ := ih hr
      exact ⟨rfl, ⟨fun hsees => by simpa [hsees] using hd, ha⟩, hs⟩

end Scan

/-! ## Plain characters -/

/-- Quotes and brackets. -/
def marks : Text := ['"', '\'', '(', '[', '{', ')', ']', '}']

/-- Whether a character leaves a scan outside quotes as it is. -/
def isPlain (c : Char) : Bool := !marks.contains c

/-- A class that none of the marks is in holds plain characters only. -/
theorem isPlain_of_class {p : Char → Bool} (h : ∀ m ∈ marks, p m = false) {c : Char}
    (hc : p c = true) : isPlain c = true := by
  rw [isPlain, Bool.not_eq_true', ← Bool.not_eq_true, List.contains_iff_mem]
  intro hm
  simp [h c hm] at hc

theorem Scan.next_of_isPlain {c : Char} (h : isPlain c = true) (d : Nat) :
    (Scan.code d).next c = .code d := by
  simp only [isPlain, marks, List.contains_cons, List.contains_nil, Bool.not_or, Bool.and_eq_true,
    Bool.not_eq_true', beq_eq_false_iff_ne] at h
  simp [Scan.next, isQuote, h]

theorem Scan.sees_of_isPlain {c : Char} (h : isPlain c = true) : Scan.outside.sees c = true := by
  simp only [isPlain, marks, List.contains_cons, List.contains_nil, Bool.not_or, Bool.and_eq_true,
    Bool.not_eq_true', beq_eq_false_iff_ne] at h
  simp [Scan.outside, Scan.sees, isQuote, h]

/-- A text after which a scan is outside everything is split by itself, and so is what stands behind
    it and a separator. -/
theorem Scan.parts_append_of_after {p : Char → Bool} {s : Scan} {t : Text}
    (h : s.after t = .outside) {c : Char} (hc : p c = true) (hplain : isPlain c = true) (u : Text) :
    parts p s (t ++ c :: u) = parts p s t ++ splitTopLevel p u := by
  induction t generalizing s with
  | nil =>
    obtain rfl : s = .outside := h
    have hnext : outside.next c = outside := next_of_isPlain hplain 0
    have hcons : parts p outside (c :: u) = [] :: parts p outside u := by
      rw [parts, sees_of_isPlain hplain, hc, Bool.and_true, if_pos rfl, hnext]
    exact hcons
  | cons d r ih =>
    have hr := ih h
    rw [List.cons_append, parts, parts]
    split
    · rw [hr, List.cons_append]
    · -- The character goes in front of the first part of the rest, which there is.
      obtain ⟨q, qs, hq⟩ := List.exists_cons_of_ne_nil (parts_ne_nil p (s.next d) r)
      rw [hr, hq]
      rfl

/-! ## Balanced texts -/

/-- A text that closes what it opens and nothing else: no character of it is at the top level once
    it stands inside a bracket, and a scan goes on after it as it was before. -/
structure Balanced (t : Text) : Prop where
  after_eq : ∀ d, (Scan.code d).after t = .code d
  avoids : ∀ d p, Scan.Avoids p (.code (d + 1)) t

namespace Balanced

theorem nil : Balanced [] := ⟨fun _ => rfl, fun _ _ => trivial⟩

theorem append {t u : Text} (ht : Balanced t) (hu : Balanced u) : Balanced (t ++ u) := by
  constructor
  · intro d
    rw [Scan.after_append, ht.after_eq, hu.after_eq]
  · intro d p
    rw [Scan.avoids_append, ht.after_eq]
    exact ⟨ht.avoids d p, hu.avoids d p⟩

/-- Text without quotes and brackets. -/
theorem of_isPlain {t : Text} (h : ∀ c ∈ t, isPlain c = true) : Balanced t := by
  induction t with
  | nil => exact nil
  | cons c r ih =>
    have hc := Scan.next_of_isPlain (h c (List.mem_cons_self ..))
    have hr := ih fun c' hc' => h c' (List.mem_cons_of_mem _ hc')
    exact ⟨fun d => by rw [Scan.after_cons, hc, hr.after_eq],
      fun d p => ⟨by simp [Scan.sees], by rw [hc]; exact hr.avoids d p⟩⟩

/-- What opens a bracket, is balanced inside, and closes the bracket. -/
theorem bracketed {o c : Char} (ho : ∀ d, (Scan.code d).next o = .code (d + 1))
    (hc : ∀ d, (Scan.code (d + 1)).next c = .code d) {t : Text} (ht : Balanced t) :
    Balanced (o :: t ++ [c]) := by
  constructor
  · intro d
    rw [Scan.after_append]
    simp only [Scan.after_cons, Scan.after_nil, ho, ht.after_eq, hc]
  · intro d p
    rw [Scan.avoids_append, Scan.after_cons, Scan.avoids_cons, ho, ht.after_eq]
    exact ⟨⟨by simp [Scan.sees], ht.avoids (d + 1) p⟩, by simp [Scan.sees]⟩

end Balanced

/-! ## Pieces -/

/-- A balanced text that separators of a class do not split. -/
structure Piece (p : Char → Bool) (t : Text) : Prop extends Balanced t where
  avoids_outside : Scan.Avoids p .outside t

namespace Piece

variable {p : Char → Bool} {t u : Text}

theorem append (ht : Piece p t) (hu : Piece p u) : Piece p (t ++ u) := by
  refine ⟨ht.toBalanced.append hu.toBalanced, ?_⟩
  rw [Scan.avoids_append, show Scan.outside.after t = .outside from ht.after_eq 0]
  exact ⟨ht.avoids_outside, hu.avoids_outside⟩

/-- Text without quotes, brackets and separators. -/
theorem of_isPlain (hplain : ∀ c ∈ t, isPlain c = true) (hp : ∀ c ∈ t, p c = false) : Piece p t :=
  ⟨Balanced.of_isPlain hplain, Scan.avoids_of_all hp _⟩

theorem parts_eq (ht : Piece p t) : splitTopLevel p t = [t] :=
  Scan.parts_eq_singleton ht.avoids_outside

/-- A piece with a separator after it is a part. -/
theorem parts_append_cons (ht : Piece p t) {c : Char} (hc : p c = true) (hplain : isPlain c = true)
    (u : Text) : splitTopLevel p (t ++ c :: u) = t :: splitTopLevel p u := by
  have hafter : Scan.outside.after t = .outside := ht.after_eq 0
  have hnext : Scan.outside.next c = .outside := Scan.next_of_isPlain hplain 0
  have hsees : (Scan.outside.after t).sees c = true := by
    rw [hafter]
    exact Scan.sees_of_isPlain hplain
  have h := Scan.parts_append_cons ht.avoids_outside hsees hc u
  rwa [hafter, hnext] at h

end Piece

end TimePhrase.Script
