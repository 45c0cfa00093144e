import Mathlib.Data.Set.Insert
import TimePhrase.Proofs.Pattern.Reach

/-!
# What the walks of repetitions visit

A walk over iterations follows one cursor from each place, whichever comes first, and notes the
places it has followed. Whatever it has followed is closed: the iterations from there lead to places
that have been followed as well.

* `selects_firsts`  of each place of a list one cursor is kept
* `grows_walkAny`  what a walk over any number of iterations has followed
* `climbs_walkUpTo`  what a walk over a bounded number of iterations has followed
-/

namespace TimePhrase.Pattern

open Text (byteSize)

/-- A cursor at a place in a text, which knows the character before it. -/
def IsAt (text : Text) (s : Cursor) : Prop :=
  ∃ a, text = a ++ s.rest ∧ s.byte = byteSize a ∧ s.before = a.getLast?

theorem rest_length_lt {text : Text} {s t : Cursor} (hs : IsAt text s) (ht : IsAt text t)
    (hlt : s.byte < t.byte) : t.rest.length < s.rest.length := by
  obtain ⟨a, rfl, hsize, -⟩ := hs
  obtain ⟨b, htext, hsize', -⟩ := ht
  rw [hsize, hsize'] at hlt
  -- The text between the places is not empty.
  obtain ⟨c, rfl, hrest⟩ := Text.exists_append_of_byteSize_le htext (Nat.le_of_lt hlt)
  have hne : c ≠ [] := by
    rintro rfl
    simp at hlt
  have hpos := List.length_pos_iff.mpr hne
  rw [hrest, List.length_append]
  omega

/-! ## Each place once -/

theorem Places.has_add {p : Places} {base b b' : Nat} (hb : base ≤ b) (hb' : base ≤ b') :
    (p.add base b).has base b' = true ↔ p.has base b' = true ∨ b' = b := by
  have hbit : b - base = b' - base ↔ b' = b := by omega
  simp only [Places.has, Places.add, Nat.testBit_or, Nat.one_shiftLeft, Nat.testBit_two_pow,
    Bool.or_eq_true, decide_eq_true_eq, hbit]

/-- Cursors taken from others, at least one from each place. -/
structure Selects (chosen others : Set Cursor) : Prop where
  subset : chosen ⊆ others
  places : ∀ t ∈ others, ∃ u ∈ chosen, u.byte = t.byte

theorem exists_mem_firstsOutside {base : Nat} {seen : Places} {l : List Cursor}
    (hbase : ∀ t ∈ l, base ≤ t.byte) {t : Cursor} (ht : t ∈ l)
    (hseen : ¬ seen.has base t.byte = true) : ∃ u ∈ firstsOutside base seen l, u.byte = t.byte := by
  induction l generalizing seen with
  | nil => exact absurd ht List.not_mem_nil
  | cons s r ih =>
    obtain ⟨hs, hr⟩ := List.forall_mem_cons.mp hbase
    have hle := hbase t ht
    simp only [firstsOutside]
    split
    · -- The first cursor is left out, and it is not the one that is looked for.
      rename_i hhas
      rcases List.mem_cons.mp ht with rfl | ht
      · exact absurd hhas hseen
      · exact ih hr ht hseen
    · -- The first cursor is kept, so only cursors at other places matter further on.
      by_cases heq : t.byte = s.byte
      · exact ⟨s, List.mem_cons_self, heq.symm⟩
      · have htr : t ∈ r := by
          rcases List.mem_cons.mp ht with rfl | ht
          · exact absurd rfl heq
          · exact ht
        have hout : ¬ (seen.add base s.byte).has base t.byte = true := by
          rw [Places.has_add hs hle]
          exact fun h => h.elim hseen heq
        obtain ⟨u, hu, hbyte⟩ := ih hr htr hout
        exact ⟨u, List.mem_cons_of_mem s hu, hbyte⟩

/-- Of each place of a list one cursor is kept. -/
theorem selects_firsts {base : Nat} {l : List Cursor} (hbase : ∀ t ∈ l, base ≤ t.byte) :
    Selects {t | t ∈ firsts base l} {t | t ∈ l} := by
  refine ⟨fun t ht => mem_of_mem_firsts ht, fun t ht => ?_⟩
  unfold firsts
  split
  · exact ⟨t, ht, rfl⟩
  · exact ⟨t, ht, rfl⟩
  · apply exists_mem_firstsOutside hbase ht
    simp [Places.has]

/-! ## Any number of iterations -/

/-- A step over the text, which never goes back. -/
def IsForward (text : Text) (step : Cursor → List Cursor) : Prop :=
  ∀ s, IsAt text s → ∀ t ∈ step s, IsAt text t ∧ s.byte ≤ t.byte

/-- What a walk has found where one iteration from `v` leads to `t`: the place of `t` has been
    followed, or found if the iteration has not advanced. -/
def IsFollowed (V : Set Cursor) (found : List Cursor) (v t : Cursor) : Prop :=
  (v.byte < t.byte ∧ ∃ v' ∈ V, v'.byte = t.byte) ∨
    (t.byte ≤ v.byte ∧ ∃ u ∈ found, u.byte = t.byte)

theorem IsFollowed.mono {V V' : Set Cursor} {found found' : List Cursor} {v t : Cursor}
    (h : IsFollowed V found v t) (hV : V ⊆ V') (hfound : ∀ u ∈ found, u ∈ found') :
    IsFollowed V' found' v t := by
  rcases h with ⟨hlt, v', hv', hbyte⟩ | ⟨hle, u, hu, hbyte⟩
  · exact .inl ⟨hlt, v', hV hv', hbyte⟩
  · exact .inr ⟨hle, u, hfound u hu, hbyte⟩

/-- The cursors `V` are those that a walk has followed. -/
structure IsExplored (step : Cursor → List Cursor) (base : Nat) (V : Set Cursor)
    (w : Walk Places) : Prop where
  seen : ∀ b, base ≤ b → (w.seen.has base b = true ↔ ∃ v ∈ V, v.byte = b)
  found : ∀ v ∈ V, v ∈ w.found
  closed : ∀ v ∈ V, ∀ t ∈ step v, IsFollowed V w.found v t

/-- A walk has followed more cursors, which it has come to from `roots`. -/
structure Grows (step : Cursor → List Cursor) (base : Nat) (roots V : Set Cursor)
    (w : Walk Places) (V' : Set Cursor) (w' : Walk Places) : Prop where
  explored : IsExplored step base V' w'
  subset : V ⊆ V'
  found : ∀ u ∈ w.found, u ∈ w'.found
  reached : ∀ v ∈ V', v ∈ V ∨ v ∈ roots ∨ ∃ q ∈ V', v ∈ step q ∧ q.byte < v.byte

section WalkAny

variable {text : Text} {step : Cursor → List Cursor} {base : Nat} {roots V V' : Set Cursor}
  {w w' : Walk Places}

theorem IsExplored.grows (h : IsExplored step base V w) : Grows step base roots V w V w :=
  ⟨h, Set.Subset.refl V, fun _ hu => hu, fun _ hv => .inl hv⟩

theorem IsExplored.find (h : IsExplored step base V w) (s : Cursor) :
    Grows step base roots V w V (w.find s) where
  explored := ⟨h.seen, fun v hv => List.mem_cons_of_mem s (h.found v hv), fun v hv t ht =>
    (h.closed v hv t ht).mono (Set.Subset.refl V) fun _ => List.mem_cons_of_mem s⟩
  subset := Set.Subset.refl V
  found _ := List.mem_cons_of_mem s
  reached _ hv := .inl hv

theorem Grows.trans {V'' : Set Cursor} {w'' : Walk Places} (h : Grows step base roots V w V' w')
    (h' : Grows step base roots V' w' V'' w'') : Grows step base roots V w V'' w'' where
  explored := h'.explored
  subset := h.subset.trans h'.subset
  found u hu := h'.found u (h.found u hu)
  reached v hv := by
    rcases h'.reached v hv with hv | hroot | hstep
    · rcases h.reached v hv with hv | hroot | ⟨q, hq, hstep⟩
      · exact .inl hv
      · exact .inr (.inl hroot)
      · exact .inr (.inr ⟨q, h'.subset hq, hstep⟩)
    · exact .inr (.inl hroot)
    · exact .inr (.inr hstep)

theorem Grows.weaken {roots' : Set Cursor} (h : Grows step base roots V w V' w')
    (hroots : roots ⊆ roots') : Grows step base roots' V w V' w' :=
  ⟨h.explored, h.subset, h.found, fun v hv => (h.reached v hv).imp_right (Or.imp_left (hroots ·))⟩

/-- After the iterations from `s`, each place they lead to has been followed. -/
theorem grows_foldl {s : Cursor} {walk : Walk Places → Cursor → Walk Places} {l : List Cursor}
    (hroots : ∀ t ∈ l, s.byte < t.byte → t ∈ roots)
    (hwalk : ∀ t ∈ l, s.byte < t.byte → ∀ V w, IsExplored step base V w →
      ∃ V', Grows step base {t} V w V' (walk w t) ∧ ∃ v ∈ V', v.byte = t.byte)
    (h : IsExplored step base V w) :
    ∃ V', Grows step base roots V w V'
        (l.foldl (fun w t => if s.byte < t.byte then walk w t else w.find t) w) ∧
      ∀ t ∈ l, IsFollowed V'
        (l.foldl (fun w t => if s.byte < t.byte then walk w t else w.find t) w).found s t := by
  induction l generalizing V w with
  | nil =>
    exact ⟨V, h.grows, nofun⟩
  | cons t r ih =>
    obtain ⟨hroot, hroots⟩ := List.forall_mem_cons.mp hroots
    obtain ⟨hfirst, hothers⟩ := List.forall_mem_cons.mp hwalk
    simp only [List.foldl_cons]
    -- The first iteration is followed, or does not advance.
    have hhead : ∃ V₁, Grows step base roots V w V₁
          (if s.byte < t.byte then walk w t else w.find t) ∧
        IsFollowed V₁ (if s.byte < t.byte then walk w t else w.find t).found s t := by
      by_cases hlt : s.byte < t.byte
      · rw [if_pos hlt]
        obtain ⟨V₁, hgrows, hplace⟩ := hfirst hlt V w h
        refine ⟨V₁, hgrows.weaken ?_, .inl ⟨hlt, hplace⟩⟩
        exact Set.singleton_subset_iff.mpr (hroot hlt)
      · rw [if_neg hlt]
        refine ⟨V, h.find t, .inr ⟨Nat.le_of_not_lt hlt, t, ?_, rfl⟩⟩
        exact List.mem_cons_self
    obtain ⟨V₁, hgrows, hfollowed⟩ := hhead
    obtain ⟨V', hgrows', hall⟩ := ih hroots hothers hgrows.explored
    refine ⟨V', hgrows.trans hgrows', List.forall_mem_cons.mpr ⟨?_, hall⟩⟩
    exact hfollowed.mono hgrows'.subset hgrows'.found

/-- Once everything has been followed to which the iterations from `s` lead, the place of `s` counts
    as followed, too. -/
theorem Grows.insert {s : Cursor} {w₂ : Walk Places} (hbase : base ≤ s.byte)
    (h : Grows step base {t | t ∈ step s ∧ s.byte < t.byte} V w V' w')
    (hall : ∀ t ∈ step s, IsFollowed V' w'.found s t) (hseen : w₂.seen = w'.seen.add base s.byte)
    (hfound : ∀ u, u ∈ w'.found ∨ u = s → u ∈ w₂.found) :
    Grows step base {s} V w (insert s V') w₂ where
  explored := by
    constructor
    · intro b hb
      rw [hseen, Places.has_add hbase hb, h.explored.seen b hb]
      simp only [Set.mem_insert_iff, or_and_right, exists_or, exists_eq_left, eq_comm (a := b)]
      exact or_comm
    · rintro v (rfl | hv)
      · exact hfound v (.inr rfl)
      · exact hfound v (.inl (h.explored.found v hv))
    · rintro v (rfl | hv) t ht
      · exact (hall t ht).mono (Set.subset_insert v V') fun u hu => hfound u (.inl hu)
      · exact (h.explored.closed v hv t ht).mono (Set.subset_insert s V')
          fun u hu => hfound u (.inl hu)
  subset := h.subset.trans (Set.subset_insert s V')
  found u hu := hfound u (.inl (h.found u hu))
  reached := by
    rintro v (rfl | hv)
    · exact .inr (.inl rfl)
    · rcases h.reached v hv with hv | hroot | ⟨q, hq, hvq⟩
      · exact .inl hv
      · exact .inr (.inr ⟨s, Set.mem_insert s V', hroot⟩)
      · exact .inr (.inr ⟨q, Set.mem_insert_of_mem s hq, hvq⟩)

/-- A walk from `s` follows the place of `s` and everything it can come to from there. -/
theorem grows_walkAny (hstep : IsForward text step) {greedy : Bool} {fuel : Nat} {s : Cursor}
    (hs : IsAt text s) (hbase : base ≤ s.byte) (hfuel : s.rest.length < fuel)
    (h : IsExplored step base V w) :
    ∃ V', Grows step base {s} V w V' (walkAny step greedy base fuel w s) ∧
      ∃ v ∈ V', v.byte = s.byte := by
  induction fuel generalizing V w s with
  | zero => exact absurd hfuel (Nat.not_lt_zero _)
  | succ fuel ih =>
    simp only [walkAny]
    by_cases hseen : w.seen.has base s.byte = true
    · -- The place has been followed before.
      rw [if_pos hseen]
      exact ⟨V, h.grows, (h.seen s.byte hbase).mp hseen⟩
    · rw [if_neg hseen]
      have hwalk : ∀ t ∈ step s, s.byte < t.byte → ∀ V w, IsExplored step base V w →
          ∃ V', Grows step base {t} V w V' (walkAny step greedy base fuel w t) ∧
            ∃ v ∈ V', v.byte = t.byte := by
        intro t ht hlt V w hw
        obtain ⟨hat, hle⟩ := hstep s hs t ht
        have := rest_length_lt hs hat hlt
        exact ih hat (by omega) (by omega) hw
      have hroots : ∀ t ∈ step s, s.byte < t.byte → t ∈ {t | t ∈ step s ∧ s.byte < t.byte} :=
        fun t ht hlt => ⟨ht, hlt⟩
      -- The cursor itself is found after the iterations from it, or before them.
      cases greedy with
      | true =>
        obtain ⟨V₁, hgrows, hall⟩ := grows_foldl hroots hwalk h
        refine ⟨insert s V₁, hgrows.insert hbase hall rfl ?_, s, Set.mem_insert s V₁, rfl⟩
        exact fun u hu => hu.elim (List.mem_cons_of_mem s) fun hu => hu ▸ List.mem_cons_self
      | false =>
        have hfind : Grows step base {t | t ∈ step s ∧ s.byte < t.byte} V w V (w.find s) := h.find s
        obtain ⟨V₁, hgrows, hall⟩ := grows_foldl hroots hwalk hfind.explored
        refine ⟨insert s V₁, (hfind.trans hgrows).insert hbase hall rfl ?_, s,
          Set.mem_insert s V₁, rfl⟩
        rintro u (hu | rfl)
        · exact hu
        · exact hgrows.found u List.mem_cons_self

end WalkAny

/-! ## A bounded number of iterations -/

/-- The places seen with each number of iterations left are those of the cursors `V`. -/
def HasSeen (base : Nat) : Nat → (Nat → Set Cursor) → List Places → Prop
  | 0, _, _ => True
  | left + 1, V, seen =>
    (∀ b, base ≤ b → ((seen.headD 0).has base b = true ↔ ∃ v ∈ V (left + 1), v.byte = b)) ∧
      HasSeen base left V seen.tail

/-- The cursors `V k` are those that a walk has followed with `k` iterations left. -/
structure IsClimbed (step : Nat → Cursor → List Cursor) (base left : Nat) (V : Nat → Set Cursor)
    (w : Walk (List Places)) : Prop where
  seen : HasSeen base left V w.seen
  found : ∀ k ≤ left, ∀ v ∈ V k, v ∈ w.found
  closed : ∀ k < left, ∀ v ∈ V (k + 1), ∀ t ∈ step k v, ∃ u ∈ V k, u.byte = t.byte

/-- A walk has followed more cursors, which it has come to from `roots`. -/
structure Climbs (step : Nat → Cursor → List Cursor) (base left : Nat) (roots : Set Cursor)
    (V : Nat → Set Cursor) (w : Walk (List Places)) (V' : Nat → Set Cursor)
    (w' : Walk (List Places)) : Prop where
  climbed : IsClimbed step base left V' w'
  subset : ∀ k, V k ⊆ V' k
  found : ∀ u ∈ w.found, u ∈ w'.found
  reached : ∀ k ≤ left, ∀ v ∈ V' k,
    v ∈ V k ∨ (k = left ∧ v ∈ roots) ∨ (k < left ∧ ∃ q ∈ V' (k + 1), v ∈ step k q)
  others : ∀ k, left < k → V' k = V k
  sound : ∀ u ∈ w'.found, u ∈ w.found ∨ ∃ k ≤ left, u ∈ V' k

section WalkUpTo

variable {text : Text} {step : Nat → Cursor → List Cursor} {base left : Nat}
  {roots : Set Cursor} {V V' : Nat → Set Cursor} {w w' : Walk (List Places)}

theorem HasSeen.congr {seen : List Places} (h : HasSeen base left V seen)
    (hV : ∀ k ≤ left, V' k = V k) : HasSeen base left V' seen := by
  induction left generalizing seen with
  | zero => trivial
  | succ left ih =>
    obtain ⟨hhere, htail⟩ := h
    refine ⟨?_, ih htail fun k hk => hV k (by omega)⟩
    rw [hV (left + 1) (Nat.le_refl _)]
    exact hhere

theorem IsClimbed.climbs (h : IsClimbed step base left V w) :
    Climbs step base left roots V w V w :=
  ⟨h, fun k => Set.Subset.refl (V k), fun _ hu => hu, fun _ _ _ hv => .inl hv, fun _ _ => rfl,
    fun _ hu => .inl hu⟩

theorem Climbs.trans {V'' : Nat → Set Cursor} {w'' : Walk (List Places)}
    (h : Climbs step base left roots V w V' w') (h' : Climbs step base left roots V' w' V'' w'') :
    Climbs step base left roots V w V'' w'' where
  climbed := h'.climbed
  subset k := (h.subset k).trans (h'.subset k)
  found u hu := h'.found u (h.found u hu)
  reached k hk v hv := by
    rcases h'.reached k hk v hv with hv | hnew
    · rcases h.reached k hk v hv with hv | hroot | ⟨hlt, q, hq, hstep⟩
      · exact .inl hv
      · exact .inr (.inl hroot)
      · exact .inr (.inr ⟨hlt, q, h'.subset (k + 1) hq, hstep⟩)
    · exact .inr hnew
  others k hk := (h'.others k hk).trans (h.others k hk)
  sound u hu := by
    rcases h'.sound u hu with hu | hu
    · rcases h.sound u hu with hu | ⟨k, hk, hu⟩
      · exact .inl hu
      · exact .inr ⟨k, hk, h'.subset k hu⟩
    · exact .inr hu

theorem Climbs.weaken {roots' : Set Cursor} (h : Climbs step base left roots V w V' w')
    (hroots : roots ⊆ roots') : Climbs step base left roots' V w V' w' where
  climbed := h.climbed
  subset := h.subset
  found := h.found
  reached k hk v hv := by
    rcases h.reached k hk v hv with hv | ⟨heq, hroot⟩ | hstep
    · exact .inl hv
    · exact .inr (.inl ⟨heq, hroots hroot⟩)
    · exact .inr (.inr hstep)
  others := h.others
  sound := h.sound

theorem climbs_foldl {walk : Walk (List Places) → Cursor → Walk (List Places)} {l : List Cursor}
    (hwalk : ∀ t ∈ l, ∀ V w, IsClimbed step base left V w →
      ∃ V', Climbs step base left roots V w V' (walk w t) ∧ ∃ v ∈ V' left, v.byte = t.byte)
    (h : IsClimbed step base left V w) :
    ∃ V', Climbs step base left roots V w V' (l.foldl walk w) ∧
      ∀ t ∈ l, ∃ v ∈ V' left, v.byte = t.byte := by
  induction l generalizing V w with
  | nil => exact ⟨V, h.climbs, nofun⟩
  | cons t r ih =>
    obtain ⟨hfirst, hothers⟩ := List.forall_mem_cons.mp hwalk
    obtain ⟨V₁, hclimbs, v, hv, hbyte⟩ := hfirst V w h
    obtain ⟨V', hclimbs', hall⟩ := ih hothers hclimbs.climbed
    refine ⟨V', hclimbs.trans hclimbs', List.forall_mem_cons.mpr ⟨?_, hall⟩⟩
    exact ⟨v, hclimbs'.subset left hv, hbyte⟩

/-- The family with one more cursor among those followed with `k` iterations left. -/
def withCursor (V : Nat → Set Cursor) (k : Nat) (s : Cursor) : Nat → Set Cursor :=
  Function.update V k (insert s (V k))

theorem withCursor_self {k : Nat} {s : Cursor} : withCursor V k s k = insert s (V k) :=
  Function.update_self k _ V

theorem withCursor_of_ne {k l : Nat} {s : Cursor} (h : l ≠ k) : withCursor V k s l = V l :=
  Function.update_of_ne h _ V

theorem subset_withCursor {k : Nat} {s : Cursor} (l : Nat) : V l ⊆ withCursor V k s l := by
  by_cases h : l = k
  · subst h
    rw [withCursor_self]
    exact Set.subset_insert s (V l)
  · rw [withCursor_of_ne h]

theorem mem_withCursor {k : Nat} {s : Cursor} {l : Nat} {v : Cursor} :
    v ∈ withCursor V k s l ↔ (l = k ∧ v = s) ∨ v ∈ V l := by
  by_cases h : l = k
  · subst h
    rw [withCursor_self, Set.mem_insert_iff]
    simp only [true_and]
  · rw [withCursor_of_ne h]
    simp only [h, false_and, false_or]

theorem IsClimbed.find {s : Cursor} (h : IsClimbed step base 0 V w) :
    Climbs step base 0 {s} V w (withCursor V 0 s) (w.find s) where
  climbed := by
    refine ⟨trivial, fun k hk v hv => ?_, fun k hk => absurd hk (Nat.not_lt_zero k)⟩
    rcases mem_withCursor.mp hv with ⟨-, rfl⟩ | hv
    · exact List.mem_cons_self
    · exact List.mem_cons_of_mem s (h.found k hk v hv)
  subset := subset_withCursor
  found _ := List.mem_cons_of_mem s
  reached k _ v hv := by
    rcases mem_withCursor.mp hv with ⟨rfl, rfl⟩ | hv
    · exact .inr (.inl ⟨rfl, rfl⟩)
    · exact .inl hv
  others k hk := withCursor_of_ne (by omega)
  sound u hu := by
    rcases List.mem_cons.mp hu with rfl | hu
    · exact .inr ⟨0, Nat.le_refl 0, mem_withCursor.mpr (.inl ⟨rfl, rfl⟩)⟩
    · exact .inl hu

section Insert

variable {s : Cursor} {w₁ w₂ : Walk (List Places)}

/-- Once everything has been followed to which the iterations from `s` lead, the place of `s` counts
    as followed, too. -/
theorem IsClimbed.insert (hbase : base ≤ s.byte) (h : IsClimbed step base (left + 1) V w)
    (hw₁ : ∀ u ∈ w.found, u ∈ w₁.found)
    (hclimbs : Climbs step base left {t | t ∈ step left s} V w₁ V' w')
    (hall : ∀ t ∈ step left s, ∃ v ∈ V' left, v.byte = t.byte)
    (hseen : w₂.seen = (w.seen.headD 0).add base s.byte :: w'.seen)
    (hfound : ∀ u, u ∈ w₂.found ↔ u ∈ w'.found ∨ u = s) :
    IsClimbed step base (left + 1) (withCursor V' (left + 1) s) w₂ := by
  have hsame : ∀ k ≤ left, withCursor V' (left + 1) s k = V' k := fun k hk =>
    withCursor_of_ne (by omega)
  have htop : V' (left + 1) = V (left + 1) := hclimbs.others (left + 1) (Nat.lt_succ_self left)
  have hrest := hclimbs.climbed
  constructor
  · -- The place of `s` is the only new one at its level.
    rw [hseen]
    refine ⟨fun b hb => ?_, hrest.seen.congr hsame⟩
    rw [List.headD_cons, Places.has_add hbase hb, h.seen.1 b hb, withCursor_self, htop]
    simp only [Set.mem_insert_iff, or_and_right, exists_or, exists_eq_left, eq_comm (a := b)]
    exact or_comm
  · intro k hk v hv
    rw [hfound]
    rcases mem_withCursor.mp hv with ⟨-, rfl⟩ | hv
    · exact .inr rfl
    · rcases Nat.lt_or_eq_of_le hk with hlt | rfl
      · exact .inl (hrest.found k (by omega) v hv)
      · rw [htop] at hv
        exact .inl (hclimbs.found v (hw₁ v (h.found _ hk v hv)))
  · intro k hk v hv t ht
    rw [hsame k (by omega)]
    rcases mem_withCursor.mp hv with ⟨hk', rfl⟩ | hv₁
    · obtain rfl : k = left := by omega
      exact hall t ht
    · rcases Nat.lt_or_eq_of_le (Nat.le_of_lt_succ hk) with hlt | rfl
      · exact hrest.closed k hlt v hv₁ t ht
      · -- What was followed before at the level of `s` was closed then.
        rw [htop] at hv₁
        obtain ⟨u, hu, hbyte⟩ := h.closed k hk v hv₁ t ht
        exact ⟨u, hclimbs.subset k hu, hbyte⟩

/-- The walk from `s` follows what the walk `w'` over the iterations from `s` follows, and `s`, which
    it finds before that or after. -/
theorem Climbs.insert (hclimbs : Climbs step base left {t | t ∈ step left s} V w₁ V' w')
    (hbase : base ≤ s.byte) (h : IsClimbed step base (left + 1) V w)
    (hw₁ : ∀ u ∈ w.found, u ∈ w₁.found) (hw₁' : ∀ u ∈ w₁.found, u ∈ w.found ∨ u = s)
    (hall : ∀ t ∈ step left s, ∃ v ∈ V' left, v.byte = t.byte)
    (hseen : w₂.seen = (w.seen.headD 0).add base s.byte :: w'.seen)
    (hfound : ∀ u, u ∈ w₂.found ↔ u ∈ w'.found ∨ u = s) :
    Climbs step base (left + 1) {s} V w (withCursor V' (left + 1) s) w₂ where
  climbed := h.insert hbase hw₁ hclimbs hall hseen hfound
  subset k := (hclimbs.subset k).trans (subset_withCursor k)
  found u hu := (hfound u).mpr (.inl (hclimbs.found u (hw₁ u hu)))
  reached := by
    intro k hk v hv
    rcases mem_withCursor.mp hv with ⟨rfl, rfl⟩ | hv
    · exact .inr (.inl ⟨rfl, rfl⟩)
    · rcases Nat.lt_or_eq_of_le hk with hlt | rfl
      · rcases hclimbs.reached k (by omega) v hv with hv | ⟨rfl, hroot⟩ | ⟨hk, q, hq, hvq⟩
        · exact .inl hv
        · exact .inr (.inr ⟨hlt, s, mem_withCursor.mpr (.inl ⟨rfl, rfl⟩), hroot⟩)
        · exact .inr (.inr ⟨hlt, q, subset_withCursor (k + 1) hq, hvq⟩)
      · rw [hclimbs.others (left + 1) (Nat.lt_succ_self left)] at hv
        exact .inl hv
  others k hk := by
    rw [withCursor_of_ne (by omega)]
    exact hclimbs.others k (by omega)
  sound := by
    have hself : s ∈ withCursor V' (left + 1) s (left + 1) := mem_withCursor.mpr (.inl ⟨rfl, rfl⟩)
    intro u hu
    rcases (hfound u).mp hu with hu | rfl
    · rcases hclimbs.sound u hu with hu | ⟨k, hk, hu⟩
      · refine (hw₁' u hu).imp_right ?_
        rintro rfl
        exact ⟨left + 1, Nat.le_refl _, hself⟩
      · exact .inr ⟨k, by omega, subset_withCursor k hu⟩
    · exact .inr ⟨left + 1, Nat.le_refl _, hself⟩

end Insert

/-- A walk from `s` follows the place of `s` and everything it can come to from there with the
    iterations that are left. -/
theorem climbs_walkUpTo (hstep : ∀ k, IsForward text (step k)) {greedy : Bool} {s : Cursor}
    (hs : IsAt text s) (hbase : base ≤ s.byte) (h : IsClimbed step base left V w) :
    ∃ V', Climbs step base left {s} V w V' (walkUpTo step greedy base left w s) ∧
      ∃ v ∈ V' left, v.byte = s.byte := by
  induction left generalizing V w s with
  | zero => exact ⟨withCursor V 0 s, h.find, s, mem_withCursor.mpr (.inl ⟨rfl, rfl⟩), rfl⟩
  | succ left ih =>
    simp only [walkUpTo]
    by_cases hseen : (w.seen.headD 0).has base s.byte = true
    · -- The place has been followed before.
      rw [if_pos hseen]
      exact ⟨V, h.climbs, (h.seen.1 s.byte hbase).mp hseen⟩
    · rw [if_neg hseen]
      have hwalk : ∀ t ∈ step left s, ∀ V w, IsClimbed step base left V w →
          ∃ V', Climbs step base left {t | t ∈ step left s} V w V'
              (walkUpTo step greedy base left w t) ∧ ∃ v ∈ V' left, v.byte = t.byte := by
        intro t ht V w hw
        obtain ⟨hat, hle⟩ := hstep left s hs t ht
        obtain ⟨V', hclimbs, hplace⟩ := ih hat (by omega) hw
        exact ⟨V', hclimbs.weaken (Set.singleton_subset_iff.mpr ht), hplace⟩
      -- The walk over the iterations from `s` begins with what is known of the levels below.
      have hbelow (found : List Cursor) (hfound : ∀ u ∈ w.found, u ∈ found) :
          IsClimbed step base left V ⟨w.seen.tail, found⟩ :=
        ⟨h.seen.2, fun k hk v hv => hfound v (h.found k (by omega) v hv),
          fun k hk => h.closed k (by omega)⟩
      have hself {V : Nat → Set Cursor} : s ∈ withCursor V (left + 1) s (left + 1) :=
        mem_withCursor.mpr (.inl ⟨rfl, rfl⟩)
      -- The cursor itself is found after the iterations from it, or before them.
      cases greedy with
      | true =>
        obtain ⟨V₁, hclimbs, hall⟩ := climbs_foldl hwalk (hbelow w.found fun _ hu => hu)
        refine ⟨withCursor V₁ (left + 1) s, hclimbs.insert hbase h (fun _ hu => hu)
          (fun _ hu => .inl hu) hall rfl fun u => ?_, s, hself, rfl⟩
        exact List.mem_cons.trans or_comm
      | false =>
        obtain ⟨V₁, hclimbs, hall⟩ :=
          climbs_foldl hwalk (hbelow (s :: w.found) fun _ => List.mem_cons_of_mem s)
        refine ⟨withCursor V₁ (left + 1) s, hclimbs.insert hbase h
          (fun _ => List.mem_cons_of_mem s) (fun u hu => (List.mem_cons.mp hu).symm)
          hall rfl fun u => (or_iff_left_of_imp ?_).symm, s, hself, rfl⟩
        rintro rfl
        exact hclimbs.found u List.mem_cons_self

end WalkUpTo

end TimePhrase.Pattern
