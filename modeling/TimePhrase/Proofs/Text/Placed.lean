import TimePhrase.Text.Basic

/-!
# Placed characters

Every character of a text together with the byte it begins at. What an operation keeps of a text is
then told by the bytes at which the kept characters begin, and two operations that count bytes in
the same text can be compared.

* `placed_append`  the characters of the second part begin where the first part ends
* `placed_takeBytes`  the characters before a byte are those that begin before it
* `placed_dropBytes`  behind a boundary, the characters keep their places
* `placed_slice`  between two bytes, the first a boundary, the characters keep their places
-/

namespace TimePhrase.Text

/-- The characters of a text with the bytes they begin at, the first one at the byte `pos`. -/
def placed : Nat → Text → List (Nat × Char)
  | _, [] => []
  | pos, c :: r => (pos, c) :: placed (pos + c.utf8Size) r

@[simp] theorem map_snd_placed (pos : Nat) (t : Text) : (placed pos t).map Prod.snd = t := by
  induction t generalizing pos with
  | nil => rfl
  | cons c r ih => simp [placed, ih]

theorem placed_append (pos : Nat) (s t : Text) :
    placed pos (s ++ t) = placed pos s ++ placed (pos + byteSize s) t := by
  induction s generalizing pos with
  | nil => simp [placed]
  | cons c r ih => simp [placed, ih, Nat.add_assoc]

theorem placed_add (n pos : Nat) (t : Text) :
    placed (n + pos) t = (placed pos t).map fun x => (n + x.1, x.2) := by
  induction t generalizing pos with
  | nil => rfl
  | cons c r ih => rw [placed, placed, List.map_cons, Nat.add_assoc, ih]

/-- A character begins behind all those in front of it. -/
theorem eq_append_of_placed_eq {pos : Nat} {t : Text} {l r : List (Nat × Char)} {x : Nat × Char}
    (h : placed pos t = l ++ x :: r) :
    x.1 = pos + byteSize (l.map Prod.snd) ∧ t = l.map Prod.snd ++ x.2 :: r.map Prod.snd := by
  refine ⟨?_, ?_⟩
  · induction l generalizing pos t with
    | nil =>
      cases t with
      | nil => exact nomatch h
      | cons c t =>
        obtain ⟨rfl, -⟩ := List.cons.inj h
        rfl
    | cons y l ih =>
      cases t with
      | nil => exact nomatch h
      | cons c t =>
        obtain ⟨rfl, ht⟩ := List.cons.inj h
        rw [ih ht, List.map_cons, byteSize_cons, Nat.add_assoc]
  · rw [← map_snd_placed pos t, h, List.map_append, List.map_cons]

theorem mem_of_mem_placed {pos : Nat} {t : Text} {x : Nat × Char} (h : x ∈ placed pos t) :
    x.2 ∈ t := by
  have := List.mem_map_of_mem h (f := Prod.snd)
  rwa [map_snd_placed] at this

/-- A character begins and ends within the bytes of its text. -/
theorem bounds_of_mem_placed {pos : Nat} {t : Text} {x : Nat × Char} (h : x ∈ placed pos t) :
    pos ≤ x.1 ∧ x.1 + x.2.utf8Size ≤ pos + byteSize t := by
  induction t generalizing pos with
  | nil => simp [placed] at h
  | cons c r ih =>
    rcases List.mem_cons.mp h with rfl | h
    · simp only [byteSize_cons]
      omega
    · have := ih h
      simp only [byteSize_cons]
      omega

theorem lt_of_mem_placed {pos : Nat} {t : Text} {x : Nat × Char} (h : x ∈ placed pos t) :
    x.1 < pos + byteSize t := by
  have hb := bounds_of_mem_placed h
  have := Char.utf8Size_pos x.2
  omega

/-- Characters begin one after the other. -/
theorem pairwise_placed (pos : Nat) (t : Text) :
    (placed pos t).Pairwise fun x y => x.1 + x.2.utf8Size ≤ y.1 := by
  induction t generalizing pos with
  | nil => exact List.Pairwise.nil
  | cons c r ih =>
    refine List.pairwise_cons.mpr ⟨fun y hy => ?_, ih _⟩
    exact (bounds_of_mem_placed hy).1

/-! ## Boundaries -/

/-- Whether a character of the text, or the text's end, is at a byte. -/
def IsBoundary (t : Text) (byte : Nat) : Prop := byteSize (takeBytes byte t) = byte

instance (t : Text) (byte : Nat) : Decidable (IsBoundary t byte) :=
  inferInstanceAs (Decidable (_ = _))

theorem isBoundary_append (s t : Text) : IsBoundary (s ++ t) (byteSize s) := by
  rw [IsBoundary, takeBytes_byteSize_append]

/-- A boundary divides a text. -/
theorem IsBoundary.exists_append {t : Text} {byte : Nat} (h : IsBoundary t byte) :
    ∃ a b, t = a ++ b ∧ byteSize a = byte :=
  ⟨takeBytes byte t, dropBytes byte t, (takeBytes_append_dropBytes byte t).symm, h⟩

theorem IsBoundary.min {t : Text} {m n : Nat} (hm : IsBoundary t m) (hn : IsBoundary t n) :
    IsBoundary t (Min.min m n) := by
  rcases Nat.le_total m n with h | h
  · rwa [Nat.min_eq_left h]
  · rwa [Nat.min_eq_right h]

theorem IsBoundary.max {t : Text} {m n : Nat} (hm : IsBoundary t m) (hn : IsBoundary t n) :
    IsBoundary t (Max.max m n) := by
  rcases Nat.le_total m n with h | h
  · rwa [Nat.max_eq_right h]
  · rwa [Nat.max_eq_left h]

/-- Of two ways to divide a text, the one with the longer first part divides the second part of the
    other. -/
theorem exists_append_of_byteSize_le {a b c d : Text} (h : a ++ b = c ++ d)
    (hle : byteSize a ≤ byteSize c) : ∃ e, c = a ++ e ∧ b = e ++ d := by
  rcases List.append_eq_append_iff.mp h with ⟨e, rfl, rfl⟩ | ⟨e, rfl, rfl⟩
  · exact ⟨e, rfl, rfl⟩
  · have he : e = [] := by
      have := length_le_byteSize e
      rw [byteSize_append] at hle
      exact List.eq_nil_of_length_eq_zero (by omega)
    exact ⟨[], by simp [he], by simp [he]⟩

/-- Two boundaries divide a text into three parts. -/
theorem exists_append_of_isBoundary {t : Text} {m n : Nat} (hm : IsBoundary t m)
    (hn : IsBoundary t n) (hmn : m ≤ n) :
    ∃ a b c, t = a ++ b ++ c ∧ byteSize a = m ∧ byteSize (a ++ b) = n := by
  obtain ⟨a, b, rfl, rfl⟩ := hm.exists_append
  obtain ⟨c, d, h, rfl⟩ := hn.exists_append
  obtain ⟨e, rfl, rfl⟩ := exists_append_of_byteSize_le h hmn
  exact ⟨a, e, d, by rw [List.append_assoc], rfl, rfl⟩

/-- A character begins at a boundary, and another one is at its end. -/
theorem isBoundary_of_mem_placed {t : Text} {x : Nat × Char} (h : x ∈ placed 0 t) :
    IsBoundary t x.1 ∧ IsBoundary t (x.1 + x.2.utf8Size) := by
  obtain ⟨l, r, hl⟩ := List.append_of_mem h
  obtain ⟨hx, ht⟩ := eq_append_of_placed_eq hl
  rw [Nat.zero_add] at hx
  rw [ht, hx]
  refine ⟨isBoundary_append _ _, ?_⟩
  have := isBoundary_append (l.map Prod.snd ++ [x.2]) (r.map Prod.snd)
  rwa [byteSize_append, byteSize_cons, byteSize_nil, Nat.add_zero, List.append_assoc,
    List.singleton_append] at this

/-! ## Cutting a text at a byte -/

theorem placed_takeBytes (pos n : Nat) (t : Text) :
    placed pos (takeBytes n t) = (placed pos t).filter fun x => decide (x.1 < pos + n) := by
  induction t generalizing pos n with
  | nil => rfl
  | cons c r ih =>
    by_cases hn : n = 0
    · subst hn
      rw [takeBytes_zero]
      refine (List.filter_eq_nil_iff.mpr fun x hx => ?_).symm
      have := bounds_of_mem_placed hx
      simp only [decide_eq_true_eq]
      omega
    · rw [takeBytes, if_neg hn, placed, placed, List.filter_cons, if_pos (by simp; omega), ih]
      congr 1
      refine List.filter_congr fun x hx => ?_
      have := bounds_of_mem_placed hx
      simp only [decide_eq_decide]
      omega

theorem placed_dropBytes {n : Nat} {t : Text} (h : IsBoundary t n) (pos : Nat) :
    placed (pos + n) (dropBytes n t) = (placed pos t).filter fun x => decide (pos + n ≤ x.1) := by
  obtain ⟨a, b, rfl, rfl⟩ := h.exists_append
  have before : (placed pos a).filter (fun x => decide (pos + byteSize a ≤ x.1)) = [] := by
    refine List.filter_eq_nil_iff.mpr fun x hx => ?_
    have := lt_of_mem_placed hx
    simp only [decide_eq_true_eq]
    omega
  have behind : (placed (pos + byteSize a) b).filter (fun x => decide (pos + byteSize a ≤ x.1)) =
      placed (pos + byteSize a) b := by
    refine List.filter_eq_self.mpr fun x hx => ?_
    have := bounds_of_mem_placed hx
    simp only [decide_eq_true_eq]
    omega
  rw [dropBytes_byteSize_append, placed_append, List.filter_append, before, behind,
    List.nil_append]

theorem placed_slice {m : Nat} {t : Text} (h : IsBoundary t m) (n : Nat) :
    placed m (slice t m n) = (placed 0 t).filter fun x => decide (m ≤ x.1 ∧ x.1 < n) := by
  have hd := placed_dropBytes h 0
  rw [Nat.zero_add] at hd
  rw [slice, placed_takeBytes, hd, List.filter_filter]
  refine List.filter_congr fun x _ => ?_
  simp only [← Bool.decide_and, decide_eq_decide]
  omega

end TimePhrase.Text
