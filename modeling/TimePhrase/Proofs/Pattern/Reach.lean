import TimePhrase.Pattern.Search
import TimePhrase.Proofs.Text.Stretch

/-!
# Where a pattern can have come from its beginning

A pattern moves its cursor over one character after the other and notes captures that begin where a
part of it began. Whatever relation between cursors these moves keep, from the beginning of a pattern
to its ends, holds of every end, however repetitions walk.

* `IsPassage.of_mem_ends`  a relation that the moves keep holds of every end
* `isPassage_reaches`  a pattern reaches its ends over characters and captures stretches of them
* `isOccurrence_of_mem_occurrences`  every occurrence and its captures are stretches of the text
-/

namespace TimePhrase.Pattern

/-- The next place is behind the next character. -/
theorem next?_eq_some {s t : Cursor} : s.next? = some t ↔ ∃ c r, s.rest = c :: r ∧
    t = { s with before := some c, rest := r, byte := s.byte + c.utf8Size, trail := some [] } := by
  unfold Cursor.next?
  cases s.rest with
  | nil => exact ⟨nofun, nofun⟩
  | cons c r =>
    constructor
    · intro h
      exact ⟨c, r, rfl, (Option.some.inj h).symm⟩
    · rintro ⟨c', r', hrest, rfl⟩
      obtain ⟨rfl, rfl⟩ := List.cons.inj hrest
      rfl

/-- A relation between cursors that iterations keep, one after the other. -/
structure IsWay (R : Cursor → Cursor → Prop) : Prop where
  refl : ∀ s, R s s
  trans : ∀ {s t u}, R s t → R t u → R s u
  /-- The trail does not matter. -/
  trail : ∀ {s t : Cursor} (a b : Option (List Nat)), R s t →
    R { s with trail := a } { t with trail := b }

/-- A relation that the moves of a cursor keep, from the beginning of a pattern to one of its
    ends. -/
structure IsPassage (R : Cursor → Cursor → Prop) : Prop extends IsWay R where
  next : ∀ {s t : Cursor}, s.next? = some t → R s t
  capture : ∀ {s t : Cursor} (name : Option Text), R s t → R s (t.capture name s.byte)

/-! ## Lists of cursors -/

theorem mem_of_mem_firstsOutside {base : Nat} {seen : Places} {l : List Cursor} {t : Cursor}
    (h : t ∈ firstsOutside base seen l) : t ∈ l := by
  induction l generalizing seen with
  | nil => simp [firstsOutside] at h
  | cons s r ih =>
    simp only [firstsOutside] at h
    split at h
    · exact List.mem_cons_of_mem s (ih h)
    · rcases List.mem_cons.mp h with rfl | h
      · exact List.mem_cons_self
      · exact List.mem_cons_of_mem s (ih h)

theorem mem_of_mem_firsts {base : Nat} {l : List Cursor} {t : Cursor} (h : t ∈ firsts base l) :
    t ∈ l := by
  unfold firsts at h
  split at h
  · exact h
  · exact h
  · exact mem_of_mem_firstsOutside h

/-- What a walk has found after a list of cursors, it had found before or finds at one of them. -/
theorem mem_found_foldl {Seen : Type} {P : Cursor → Prop} {f : Walk Seen → Cursor → Walk Seen}
    {l : List Cursor} (hf : ∀ w, ∀ t ∈ l, ∀ u ∈ (f w t).found, u ∈ w.found ∨ P u)
    (w : Walk Seen) : ∀ u ∈ (l.foldl f w).found, u ∈ w.found ∨ P u := by
  induction l generalizing w with
  | nil => exact fun u hu => .inl hu
  | cons t r ih =>
    intro u hu
    rcases ih (fun w' t' ht' => hf w' t' (List.mem_cons_of_mem t ht')) (f w t) u hu with hu | hu
    · exact hf w t List.mem_cons_self u hu
    · exact .inr hu

theorem mem_found_find {Seen : Type} {P : Cursor → Prop} {w : Walk Seen} {s u : Cursor} (hs : P s)
    (h : u ∈ (w.find s).found) : u ∈ w.found ∨ P u := by
  rcases List.mem_cons.mp h with rfl | h
  · exact .inr hs
  · exact .inl h

/-! ## Any number of iterations -/

section Iterations

variable {R : Cursor → Cursor → Prop} {step : Cursor → List Cursor}

/-- Further iterations, if there are any after the first one, find what can be reached from it. -/
theorem mem_iterations {Q : Cursor → Prop} {further : Walk Places → Cursor → Walk Places}
    {s : Cursor} (hlast : ∀ t ∈ step s, Q t)
    (hfurther : ∀ w, ∀ t ∈ step s, ∀ u ∈ (further w t).found, u ∈ w.found ∨ Q u)
    (w : Walk Places) :
    ∀ t ∈ ((step s).foldl (fun w t => if s.byte < t.byte then further w t else w.find t) w).found,
      t ∈ w.found ∨ Q t := by
  refine mem_found_foldl (fun w t ht u hu => ?_) w
  -- An iteration that does not advance is not followed any further.
  split at hu
  · exact hfurther w t ht u hu
  · exact mem_found_find (hlast t ht) hu

theorem mem_walkAny (hrefl : ∀ s, R s s) (htrans : ∀ {s t u}, R s t → R t u → R s u)
    (hstep : ∀ s, ∀ t ∈ step s, R s t) {greedy : Bool} {base fuel : Nat} {w : Walk Places}
    {s : Cursor} : ∀ t ∈ (walkAny step greedy base fuel w s).found, t ∈ w.found ∨ R s t := by
  have here {w : Walk Places} {s t : Cursor} (h : t ∈ (w.find s).found) : t ∈ w.found ∨ R s t :=
    mem_found_find (hrefl s) h
  induction fuel generalizing w s with
  | zero => exact fun t ht => here ht
  | succ fuel ih =>
    intro t ht
    simp only [walkAny] at ht
    split at ht
    · -- The place has been walked from before.
      exact .inl ht
    · have hiter := mem_iterations (hstep s) fun w t ht u hu =>
        (ih (w := w) u hu).imp_right (htrans (hstep s t ht))
      cases greedy with
      | true =>
        simp only [if_true] at ht
        rcases here ht with ht | ht
        · exact hiter w t ht
        · exact .inr ht
      | false =>
        simp only [Bool.false_eq_true, if_false] at ht
        rcases hiter (w.find s) t ht with ht | ht
        · exact here ht
        · exact .inr ht

/-- What is found after a first iteration can be reached from where that leads. -/
theorem exists_step_of_mem_found (hrefl : ∀ s, R s s) (htrans : ∀ {s t u}, R s t → R t u → R s u)
    (hstep : ∀ s, ∀ t ∈ step s, R s t) {greedy : Bool} {s t : Cursor}
    (h : t ∈ ((step s).foldl (fun w t => if s.byte < t.byte then
      walkAny step greedy s.byte (t.rest.length + 1) w t else w.find t) ⟨0, []⟩).found) :
    ∃ u ∈ step s, R u t := by
  have hfurther (w : Walk Places) (t : Cursor) (ht : t ∈ step s) :
      ∀ u ∈ (walkAny step greedy s.byte (t.rest.length + 1) w t).found,
        u ∈ w.found ∨ ∃ v ∈ step s, R v u := fun u hu =>
    (mem_walkAny hrefl htrans hstep u hu).imp_right fun htu => ⟨t, ht, htu⟩
  have hiter := mem_iterations (fun t ht => ⟨t, ht, hrefl t⟩) hfurther ⟨0, []⟩ t h
  exact hiter.resolve_left List.not_mem_nil

end Iterations

/-! ## The ways of a pattern -/

/-- A part ends where it does, but for the trails. -/
theorem exists_of_mem_within {part : Nat} {ends : Cursor → List Cursor} {s t : Cursor}
    (h : t ∈ within part ends s) :
    ∃ a b u, u ∈ ends { s with trail := a } ∧ t = { u with trail := b } := by
  have hview : ∃ a, s.into part = { s with trail := a } := by
    unfold Cursor.into
    split <;> exact ⟨_, rfl⟩
  obtain ⟨a, ha⟩ := hview
  obtain ⟨u, hu, rfl⟩ := List.mem_map.mp h
  have hmem : u ∈ ends (s.into part) := by
    split at hu
    · exact (List.mem_filter.mp hu).1
    · exact hu
  rw [ha] at hmem
  exact ⟨a, _, u, hmem, rfl⟩

namespace IsWay

variable {R : Cursor → Cursor → Prop}

/-- A way over the view that a part has of its cursor is one over the cursor. -/
theorem of_mem_within (hR : IsWay R) {part : Nat} {ends : Cursor → List Cursor}
    (hends : ∀ s, ∀ t ∈ ends s, R s t) {s t : Cursor} (h : t ∈ within part ends s) : R s t := by
  obtain ⟨a, b, u, hu, rfl⟩ := exists_of_mem_within h
  exact hR.trail (s := { s with trail := a }) s.trail b (hends _ u hu)

section Repetition

variable {step : Nat → Cursor → List Cursor}

theorem of_mem_exactly (hR : IsWay R) (hstep : ∀ n s, ∀ t ∈ step n s, R s t) {base n : Nat}
    {l : List Cursor} {t : Cursor} (h : t ∈ exactly step base n l) : ∃ s ∈ l, R s t := by
  induction n generalizing l with
  | zero => exact ⟨t, by simpa [exactly] using h, hR.refl t⟩
  | succ n ih =>
    cases l with
    | nil => simp [exactly] at h
    | cons a l =>
      obtain ⟨u, hu, hut⟩ := ih (l := firsts base ((a :: l).flatMap (step n))) h
      obtain ⟨s, hs, hsu⟩ := List.mem_flatMap.mp (mem_of_mem_firsts hu)
      exact ⟨s, hs, hR.trans (hstep n s u hsu) hut⟩

theorem of_mem_walkUpTo (hR : IsWay R) (hstep : ∀ n s, ∀ t ∈ step n s, R s t) {greedy : Bool}
    {base left : Nat} {w : Walk (List Places)} {s : Cursor} :
    ∀ t ∈ (walkUpTo step greedy base left w s).found, t ∈ w.found ∨ R s t := by
  have here {w : Walk (List Places)} {s t : Cursor} (h : t ∈ (w.find s).found) :
      t ∈ w.found ∨ R s t :=
    mem_found_find (hR.refl s) h
  induction left generalizing w s with
  | zero => exact fun t ht => here ht
  | succ left ih =>
    intro t ht
    simp only [walkUpTo] at ht
    split at ht
    · exact .inl ht
    · have hiter (w' : Walk (List Places)) := mem_found_foldl (P := R s) (l := step left s)
        (f := walkUpTo step greedy base left)
        (fun w u hu v hv => (ih v hv).imp_right (hR.trans (hstep left s u hu))) w'
      cases greedy with
      | true =>
        simp only [if_true] at ht
        rcases here ht with ht | ht
        · exact hiter ⟨w.seen.tail, w.found⟩ t ht
        · exact .inr ht
      | false =>
        simp only [Bool.false_eq_true, if_false] at ht
        rcases hiter ⟨w.seen.tail, (w.find s).found⟩ t ht with ht | ht
        · exact here ht
        · exact .inr ht

theorem of_mem_atLeastOne (hR : IsWay R) {step : Cursor → List Cursor}
    (hstep : ∀ s, ∀ t ∈ step s, R s t) {greedy : Bool} {s t : Cursor}
    (h : t ∈ atLeastOne step greedy s) : R s t := by
  have hfound := List.mem_reverse.mp (mem_of_mem_firsts h)
  obtain ⟨u, hu, hut⟩ := exists_step_of_mem_found hR.refl hR.trans hstep hfound
  exact hR.trans (hstep s u hu) hut

theorem of_mem_anyNumber (hR : IsWay R) {step : Cursor → List Cursor}
    (hstep : ∀ s, ∀ t ∈ step s, R s t) {greedy : Bool} {s t : Cursor}
    (h : t ∈ anyNumber step greedy s) : R s t := by
  have hmem : t = s ∨ t ∈ atLeastOne step greedy s := by
    unfold anyNumber at h
    split at h
    · have := mem_of_mem_firsts h
      simpa [or_comm] using this
    · simpa using mem_of_mem_firsts h
  rcases hmem with rfl | hmem
  · exact hR.refl t
  · exact hR.of_mem_atLeastOne hstep hmem

theorem of_mem_upTo (hR : IsWay R) (hstep : ∀ n s, ∀ t ∈ step n s, R s t) {greedy : Bool}
    {n : Nat} {s t : Cursor} (h : t ∈ upTo step greedy n s) : R s t :=
  (hR.of_mem_walkUpTo hstep t (List.mem_reverse.mp (mem_of_mem_firsts h))).resolve_left
    List.not_mem_nil

theorem of_mem_repetitionEnds (hR : IsWay R) (hstep : ∀ n s, ∀ t ∈ step n s, R s t)
    {advances greedy : Bool} {least : Nat} {most : Option Nat} {s t : Cursor}
    (h : t ∈ repetitionEnds step advances least most greedy s) : R s t := by
  unfold repetitionEnds at h
  split at h
  · split at h
    · exact absurd h List.not_mem_nil
    · exact hR.of_mem_anyNumber (hstep 0) h
  · rename_i n
    obtain ⟨u, hu, hut⟩ := List.mem_flatMap.mp (mem_of_mem_firsts h)
    obtain ⟨v, hv, hvu⟩ := hR.of_mem_exactly hstep hu
    obtain rfl := List.mem_singleton.mp hv
    exact hR.trans hvu (hR.of_mem_atLeastOne (hstep n) hut)
  · rename_i m
    obtain ⟨u, hu, hut⟩ := List.mem_flatMap.mp (mem_of_mem_firsts h)
    obtain ⟨v, hv, hvu⟩ := hR.of_mem_exactly hstep hu
    obtain rfl := List.mem_singleton.mp hv
    exact hR.trans hvu (hR.of_mem_upTo (fun left => hstep (least + left)) hut)

end Repetition

end IsWay

namespace IsPassage

variable {R : Cursor → Cursor → Prop}

theorem of_pass? (hR : IsPassage R) {s t : Cursor} {text : Text} (h : s.pass? text = some t) :
    R s t := by
  induction text generalizing s with
  | nil =>
    obtain rfl := Option.some.inj h
    exact hR.refl s
  | cons c r ih =>
    simp only [Cursor.pass?] at h
    split at h
    · obtain ⟨u, hu, h⟩ := Option.bind_eq_some_iff.mp h
      exact hR.trans (hR.next hu) (ih h)
    · exact nomatch h

/-- A relation that the moves of a cursor keep holds between the beginning and every end. -/
theorem of_mem_ends (hR : IsPassage R) {p : Pattern} {s t : Cursor} (h : t ∈ p.ends s) :
    R s t := by
  induction p generalizing s t with
  | empty =>
    obtain rfl := List.mem_singleton.mp h
    exact hR.refl t
  | literal text => exact hR.of_pass? (Option.mem_toList.mp h)
  | char set =>
    simp only [ends] at h
    split at h
    · exact absurd h List.not_mem_nil
    · split at h
      · exact hR.next (Option.mem_toList.mp h)
      · exact absurd h List.not_mem_nil
  | assertion a =>
    simp only [ends] at h
    split at h
    · obtain rfl := List.mem_singleton.mp h
      exact hR.refl t
    · exact absurd h List.not_mem_nil
  | group index name p ih =>
    obtain ⟨u, hu, rfl⟩ := List.mem_map.mp h
    exact hR.capture name (ih hu)
  | concat p q ihp ihq =>
    obtain ⟨u, hu, hut⟩ := List.mem_flatMap.mp (mem_of_mem_firsts h)
    exact hR.trans (hR.of_mem_within (fun _ _ => ihp) hu) (hR.of_mem_within (fun _ _ => ihq) hut)
  | either p q ihp ihq =>
    rcases List.mem_append.mp (mem_of_mem_firsts h) with h | h
    · exact hR.of_mem_within (fun _ _ => ihp) h
    · exact hR.of_mem_within (fun _ _ => ihq) h
  | repetition p least most greedy ih =>
    exact hR.of_mem_repetitionEnds (fun _ _ _ => hR.of_mem_within fun _ _ => ih) h

end IsPassage

/-! ## Stretches of the text -/

/-- From `s` the cursor `t` is reached over characters, and what is captured on the way are stretches
    of these. -/
def Reaches (s t : Cursor) : Prop :=
  ∃ w, s.rest = w ++ t.rest ∧ t.byte = s.byte + Text.byteSize w ∧
    ∀ e ∈ t.captures, e ∈ s.captures ∨ e.2.IsStretch s.byte w

theorem isPassage_reaches : IsPassage Reaches where
  refl s := ⟨[], rfl, rfl, fun _ he => .inl he⟩
  trans := by
    rintro s t u ⟨w, hw, hb, hc⟩ ⟨v, hv, hb', hc'⟩
    refine ⟨w ++ v, by rw [hw, hv, List.append_assoc], ?_, fun e he => ?_⟩
    · rw [hb', hb, Text.byteSize_append, Nat.add_assoc]
    · rcases hc' e he with he | he
      · exact (hc e he).imp_right fun h => h.append_right v
      · rw [hb] at he
        exact .inr (he.append_left w)
  next := by
    intro s t h
    obtain ⟨c, r, hr, rfl⟩ := next?_eq_some.mp h
    exact ⟨[c], hr, by simp, fun _ he => .inl he⟩
  capture := by
    rintro s t name ⟨w, hw, hb, hc⟩
    cases name with
    | none => exact ⟨w, hw, hb, hc⟩
    | some n =>
      refine ⟨w, hw, hb, List.forall_mem_cons.mpr ⟨.inr ⟨[], w, [], by simp, ?_⟩, hc⟩⟩
      show Span.between s.byte t.byte = _
      rw [hb, Span.between, Nat.add_sub_cancel_left]
      rfl
  trail _ _ h := h

/-- A cursor at a place in a text. -/
def IsIn (text : Text) (s : Cursor) : Prop := ∃ a, text = a ++ s.rest ∧ s.byte = Text.byteSize a

theorem IsIn.of_reaches {text : Text} {s t : Cursor} (hs : IsIn text s) (h : Reaches s t) :
    IsIn text t := by
  obtain ⟨a, rfl, ha⟩ := hs
  obtain ⟨w, hw, hb, -⟩ := h
  exact ⟨a ++ w, by rw [hw, List.append_assoc], by rw [hb, ha, Text.byteSize_append]⟩

/-- An occurrence has been found from the cursor `s`, at which nothing had been captured. -/
structure IsFound (p : Pattern) (text : Text) (m : Occurrence) (s : Cursor) : Prop where
  isIn : IsIn text s
  fresh : s.captures = []
  start : m.start = s.byte
  stop : m.stop ∈ p.ends s

theorem IsFound.isIn_stop {p : Pattern} {text : Text} {m : Occurrence} {s : Cursor}
    (h : IsFound p text m s) : IsIn text m.stop :=
  h.isIn.of_reaches (isPassage_reaches.of_mem_ends h.stop)

theorem exists_isFound_of_searchFrom {p : Pattern} {text : Text} {fuel : Nat} {s : Cursor}
    {m : Occurrence} (hs : IsIn text s) (hc : s.captures = []) (h : p.searchFrom fuel s = some m) :
    ∃ s, IsFound p text m s := by
  induction fuel generalizing s with
  | zero => exact nomatch h
  | succ fuel ih =>
    simp only [searchFrom] at h
    split at h
    · rename_i t l hends
      obtain rfl := Option.some.inj h
      exact ⟨s, hs, hc, rfl, hends ▸ List.mem_cons_self⟩
    · -- There is no match here, and the next place is tried.
      obtain ⟨t, ht, h⟩ := Option.bind_eq_some_iff.mp h
      have hs' := hs.of_reaches (isPassage_reaches.next ht)
      obtain ⟨c, r, -, rfl⟩ := next?_eq_some.mp ht
      exact ih hs' hc h

theorem exists_isFound_of_first? {p : Pattern} {text : Text} {s : Cursor} {m : Occurrence}
    (hs : IsIn text s) (h : p.first? s = some m) : ∃ s, IsFound p text m s :=
  exists_isFound_of_searchFrom (s := { s with captures := [], trail := none }) hs rfl h

theorem exists_isFound_of_nextAfter? {p : Pattern} {text : Text} {s : Cursor} {m : Occurrence}
    (hs : IsIn text s) (h : p.nextAfter? s = some m) : ∃ s, IsFound p text m s := by
  unfold nextAfter? at h
  split at h
  · rename_i m' hm'
    split at h
    · -- The match is empty, and the search goes on one character further.
      obtain ⟨t, ht, h⟩ := Option.bind_eq_some_iff.mp h
      exact exists_isFound_of_first? (hs.of_reaches (isPassage_reaches.next ht)) h
    · obtain rfl := Option.some.inj h
      exact exists_isFound_of_first? hs hm'
  · exact nomatch h

theorem exists_isFound_of_mem_occurrencesFrom {p : Pattern} {text : Text} {fuel : Nat}
    {next : Option Occurrence} (hn : ∀ m ∈ next, ∃ s, IsFound p text m s) {m : Occurrence}
    (h : m ∈ p.occurrencesFrom fuel next) : ∃ s, IsFound p text m s := by
  induction fuel generalizing next with
  | zero => exact absurd h List.not_mem_nil
  | succ fuel ih =>
    cases next with
    | none => exact absurd h List.not_mem_nil
    | some m' =>
      obtain ⟨s, hm'⟩ := hn m' rfl
      rcases List.mem_cons.mp h with rfl | h
      · exact ⟨s, hm'⟩
      · exact ih (fun m hm => exists_isFound_of_nextAfter? hm'.isIn_stop hm) h

theorem isIn_start (text : Text) : IsIn text (.start text) := ⟨[], rfl, rfl⟩

theorem exists_isFound_of_firstIn? {p : Pattern} {text : Text} {m : Occurrence}
    (h : p.firstIn? text = some m) : ∃ s, IsFound p text m s :=
  exists_isFound_of_first? (isIn_start text) h

/-- Every occurrence has been found from some place of the text. -/
theorem exists_isFound_of_mem_occurrences {p : Pattern} {text : Text} {m : Occurrence}
    (h : m ∈ p.occurrences text) : ∃ s, IsFound p text m s :=
  exists_isFound_of_mem_occurrencesFrom (fun _ hm => exists_isFound_of_firstIn? hm) h

/-- An occurrence holds the characters `w` of a text, after the characters `a`, and its captures are
    stretches of them. -/
structure IsOccurrence (text : Text) (m : Occurrence) (a w : Text) : Prop where
  isIn : ∃ b, text = a ++ w ++ b
  start : m.start = Text.byteSize a
  stop : m.stop.byte = Text.byteSize (a ++ w)
  captured : ∀ e ∈ m.stop.captures, e.2.IsStretch m.start w

theorem IsFound.isOccurrence {p : Pattern} {text : Text} {m : Occurrence} {s : Cursor}
    (h : IsFound p text m s) : ∃ a w, IsOccurrence text m a w := by
  obtain ⟨w, hw, hstop, hcap⟩ := isPassage_reaches.of_mem_ends h.stop
  obtain ⟨a, ha, hb⟩ := h.isIn
  refine ⟨a, w, ⟨m.stop.rest, ?_⟩, h.start.trans hb, ?_, fun e he => ?_⟩
  · rw [ha, hw, List.append_assoc]
  · rw [hstop, hb, Text.byteSize_append]
  · have hnone : e ∉ s.captures := by
      rw [h.fresh]
      exact List.not_mem_nil
    rw [h.start]
    exact (hcap e he).resolve_left hnone

theorem isOccurrence_of_first? {p : Pattern} {text : Text} {s : Cursor} {m : Occurrence}
    (hs : IsIn text s) (h : p.first? s = some m) :
    IsIn text m.stop ∧ ∃ a w, IsOccurrence text m a w := by
  obtain ⟨_, hm⟩ := exists_isFound_of_first? hs h
  exact ⟨hm.isIn_stop, hm.isOccurrence⟩

theorem isOccurrence_of_nextAfter? {p : Pattern} {text : Text} {s : Cursor} {m : Occurrence}
    (hs : IsIn text s) (h : p.nextAfter? s = some m) :
    IsIn text m.stop ∧ ∃ a w, IsOccurrence text m a w := by
  obtain ⟨_, hm⟩ := exists_isFound_of_nextAfter? hs h
  exact ⟨hm.isIn_stop, hm.isOccurrence⟩

/-- Every occurrence is a stretch of the text. -/
theorem isOccurrence_of_mem_occurrences {p : Pattern} {text : Text} {m : Occurrence}
    (h : m ∈ p.occurrences text) : ∃ a w, IsOccurrence text m a w := by
  obtain ⟨_, hm⟩ := exists_isFound_of_mem_occurrences h
  exact hm.isOccurrence

end TimePhrase.Pattern
