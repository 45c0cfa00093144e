import TimePhrase.Proofs.Pattern.Repetition

/-!
# The ends of a pattern are complete

Every pattern follows a course over the stretches that it spans, and so the search for it finds
something if there is anything to be found.

* `exists_course`  every pattern follows a course
* `exists_spans_of_isIn`, `isIn_of_spans_zero`  what searching tells about stretches
-/

namespace TimePhrase.Pattern

open Text (byteSize)

variable {text : Text}

/-! ## Patterns without parts -/

/-- The course of a pattern that has no parts and no character inside which it could be left. -/
def Course.plain (spans : Nat → Nat → Prop) (h : ∀ {i j}, spans i j → i ≤ j) : Course :=
  ⟨spans, fun way i j => way = [] ∧ i = j, h, fun h => Nat.le_of_eq h.2⟩

theorem IsAt.rest_eq {s : Cursor} (hs : IsAt text s) {a b : Text} (htext : text = a ++ b)
    (hsize : s.byte = byteSize a) : s.rest = b ∧ s.before = a.getLast? := by
  obtain ⟨c, hc, hbyte, hbefore⟩ := hs
  obtain ⟨rfl, rfl⟩ := Text.eq_of_byteSize_eq (hc.symm.trans htext) (hbyte.symm.trans hsize)
  exact ⟨rfl, hbefore⟩

theorem isAt_of_next? {s t : Cursor} (hs : IsAt text s) (h : s.next? = some t) :
    IsAt text t ∧ t.trail = some [] ∧ ∃ c, s.rest = c :: t.rest ∧ t.byte = s.byte + c.utf8Size := by
  obtain ⟨a, rfl, hbyte, -⟩ := hs
  obtain ⟨c, r, hr, rfl⟩ := next?_eq_some.mp h
  refine ⟨⟨a ++ [c], ?_, ?_, ?_⟩, rfl, c, hr, rfl⟩
  · rw [hr, List.append_assoc]
    rfl
  · simp [hbyte]
  · simp

/-- A cursor passes a text if that comes next. -/
theorem pass?_eq_some_iff {s : Cursor} (hs : IsAt text s) {w : Text} {t : Cursor}
    (h : s.pass? w = some t) : IsAt text t ∧ s.rest = w ++ t.rest ∧
      t.byte = s.byte + byteSize w ∧ t.trail = if w = [] then s.trail else some [] := by
  induction w generalizing s with
  | nil =>
    obtain rfl := Option.some.inj h
    exact ⟨hs, rfl, rfl, rfl⟩
  | cons c r ih =>
    simp only [Cursor.pass?] at h
    split at h
    · rename_i hhead
      obtain ⟨u, hu, h⟩ := Option.bind_eq_some_iff.mp h
      obtain ⟨hat, htrail, d, hrest, hbyte⟩ := isAt_of_next? hs hu
      obtain ⟨hat', hrest', hbyte', htrail'⟩ := ih hat h
      rw [hrest] at hhead
      obtain rfl : d = c := Option.some.inj hhead
      refine ⟨hat', ?_, ?_, ?_⟩
      · rw [hrest, hrest']
        rfl
      · rw [hbyte', hbyte, Text.byteSize_cons, Nat.add_assoc]
      · rw [htrail', htrail, if_neg (List.cons_ne_nil d r), ite_self]
    · cases h

theorem exists_pass? {s : Cursor} {w r : Text} (h : s.rest = w ++ r) : ∃ t, s.pass? w = some t := by
  induction w generalizing s with
  | nil => exact ⟨s, rfl⟩
  | cons c w ih =>
    obtain ⟨u, hu, hrest⟩ : ∃ u, s.next? = some u ∧ u.rest = w ++ r :=
      ⟨_, next?_eq_some.mpr ⟨c, w ++ r, h, rfl⟩, rfl⟩
    obtain ⟨t, ht⟩ := ih hrest
    refine ⟨t, ?_⟩
    simp only [Cursor.pass?]
    rw [if_pos (by rw [h]; rfl), hu]
    exact ht

/-- A literal follows the course over the stretches it spans. -/
theorem isOf_literal (w : Text) :
    (Course.plain (Spans text (.literal w)) le_of_spans).IsOf text (Pattern.literal w).ends := by
  intro s hs
  constructor
  · intro t ht
    have hpass : s.pass? w = some t := Option.mem_toList.mp ht
    obtain ⟨hat, hrest, hbyte, htrail⟩ := pass?_eq_some_iff hs hpass
    obtain ⟨a, hin, hsize, -⟩ := hs
    have hspans : Spans text (.literal w) s.byte t.byte := by
      refine ⟨a, t.rest, ?_, hsize, ?_⟩
      · rw [hin, hrest, List.append_assoc]
      · rw [Text.byteSize_append, hbyte, hsize]
    refine ⟨hat, hspans, ?_⟩
    -- Only the empty text leaves the cursor where it is.
    by_cases hw : w = []
    · subst hw
      exact .inl ⟨by simpa using hbyte, htrail⟩
    · rw [if_neg hw] at htrail
      have hpos := List.length_pos_iff.mpr hw
      have hle := Text.length_le_byteSize w
      refine .inr ⟨by omega, [], htrail, ⟨rfl, rfl⟩, ?_⟩
      rintro j ⟨-, rfl⟩
      exact hspans
  · rintro - j ⟨a, b, htext, hsize, rfl⟩
    rw [List.append_assoc] at htext
    obtain ⟨t, ht⟩ := exists_pass? (hs.rest_eq htext hsize).1
    obtain ⟨-, -, hbyte, -⟩ := pass?_eq_some_iff hs ht
    refine .inl ⟨t, Option.mem_toList.mpr ht, ?_⟩
    rw [hbyte, hsize, Text.byteSize_append]

theorem isOf_char (set : CharSet) :
    (Course.plain (Spans text (.char set)) le_of_spans).IsOf text (Pattern.char set).ends := by
  intro s hs
  constructor
  · intro t ht
    simp only [Set.mem_ofPred_eq, ends] at ht
    split at ht
    · exact absurd ht List.not_mem_nil
    · rename_i c r hr
      split at ht
      · rename_i hhas
        obtain ⟨hat, htrail, d, hrest, hbyte⟩ := isAt_of_next? hs (Option.mem_toList.mp ht)
        obtain ⟨a, hin, hsize, -⟩ := hs
        rw [hr] at hrest
        obtain ⟨rfl, rfl⟩ := List.cons.inj hrest
        have hspans : Spans text (.char set) s.byte t.byte :=
          ⟨a, c, t.rest, by rw [hin, hr], hhas, hsize, hbyte⟩
        have hpos := Char.utf8Size_pos c
        refine ⟨hat, hspans, .inr ⟨by omega, [], htrail, ⟨rfl, rfl⟩, ?_⟩⟩
        rintro j ⟨-, rfl⟩
        exact hspans
      · exact absurd ht List.not_mem_nil
  · rintro - j ⟨a, c, b, htext, hhas, hsize, rfl⟩
    have hrest := (hs.rest_eq htext hsize).1
    obtain ⟨t, ht, hbyte⟩ : ∃ t, s.next? = some t ∧ t.byte = s.byte + c.utf8Size :=
      ⟨_, next?_eq_some.mpr ⟨c, b, hrest, rfl⟩, rfl⟩
    refine .inl ⟨t, ?_, hbyte⟩
    simp only [Set.mem_ofPred_eq, ends, hrest]
    rw [if_pos hhas]
    exact Option.mem_toList.mpr ht

theorem isOf_assertion (m : Assertion) :
    (Course.plain (Spans text (.assertion m)) le_of_spans).IsOf text
      (Pattern.assertion m).ends := by
  intro s hs
  constructor
  · intro t ht
    simp only [Set.mem_ofPred_eq, ends] at ht
    split at ht
    · rename_i hholds
      obtain rfl := List.mem_singleton.mp ht
      obtain ⟨a, hin, hsize, hbefore⟩ := id hs
      rw [hbefore] at hholds
      exact ⟨hs, ⟨rfl, a, t.rest, hin, hsize, hholds⟩, .inl ⟨rfl, rfl⟩⟩
    · exact absurd ht List.not_mem_nil
  · rintro - j ⟨rfl, a, b, htext, hsize, hholds⟩
    obtain ⟨hrest, hbefore⟩ := hs.rest_eq htext hsize
    refine .inl ⟨s, ?_, rfl⟩
    simp only [Set.mem_ofPred_eq, ends]
    rw [hbefore, hrest, if_pos hholds]
    exact List.mem_singleton_self s

/-! ## All patterns -/

/-- The courses of the two parts of a pattern. -/
def Course.ofTwo (P Q : Course) (n : Nat) : Course := if n = 0 then P else Q

theorem apart_of_ne {P Q : Course} {m n : Nat} (h : m ≠ n) :
    Route.Apart (.part P m) (.part Q n) := by
  rintro k i j i' j' ⟨rfl, -⟩ ⟨rfl, -⟩
  exact h rfl

/-- Every pattern follows a course over the stretches it spans. -/
theorem exists_course (text : Text) (p : Pattern) :
    ∃ P : Course, (∀ i j, P.spans i j ↔ Spans text p i j) ∧ P.IsOf text p.ends := by
  induction p with
  | empty =>
    refine ⟨Course.plain (Spans text .empty) le_of_spans, fun _ _ => Iff.rfl, fun s hs => ?_⟩
    refine ⟨fun t ht => ?_, fun _ j hj => .inl ⟨s, List.mem_singleton_self s, hj⟩⟩
    obtain rfl := List.mem_singleton.mp ht
    exact ⟨hs, rfl, .inl ⟨rfl, rfl⟩⟩
  | literal w => exact ⟨_, fun _ _ => Iff.rfl, isOf_literal w⟩
  | char set => exact ⟨_, fun _ _ => Iff.rfl, isOf_char set⟩
  | assertion m => exact ⟨_, fun _ _ => Iff.rfl, isOf_assertion m⟩
  | group index name p ih =>
    obtain ⟨P, hspans, hof⟩ := ih
    refine ⟨P, hspans, fun s hs => ?_⟩
    -- Noting a capture leaves the cursor where it is.
    have hcapture (t : Cursor) : (t.capture name s.byte).byte = t.byte ∧
        (t.capture name s.byte).rest = t.rest ∧ (t.capture name s.byte).before = t.before ∧
        (t.capture name s.byte).trail = t.trail := by
      cases name <;> exact ⟨rfl, rfl, rfl, rfl⟩
    constructor
    · intro t ht
      obtain ⟨u, hu, rfl⟩ := List.mem_map.mp ht
      obtain ⟨hat, hland, htrail⟩ := (hof s hs).lands u hu
      obtain ⟨hbyte, hrest, hbefore, hsame⟩ := hcapture u
      refine ⟨?_, by rwa [hbyte], by rwa [hbyte, hsame]⟩
      unfold IsAt
      rwa [hbyte, hrest, hbefore]
    · intro hleft j hj
      rcases (hof s hs).complete hleft j hj with ⟨u, hu, hbyte⟩ | hresumes
      · refine .inl ⟨u.capture name s.byte, ?_, (hcapture u).1.trans hbyte⟩
        exact List.mem_map.mpr ⟨u, hu, rfl⟩
      · exact .inr hresumes
  | concat p q ihp ihq =>
    obtain ⟨P, hP, hofP⟩ := ihp
    obtain ⟨Q, hQ, hofQ⟩ := ihq
    refine ⟨((Route.part P 0).comp (.part Q 1)).course (Course.ofTwo P Q), fun i j => ?_, ?_⟩
    · show (∃ k, P.spans i k ∧ Q.spans k j) ↔ _
      simp only [hP, hQ]
      rfl
    · apply Route.isOf_course
      intro s hs
      apply Course.Ends.firsts
      have hcomp := Route.ends_comp (apart_of_ne Nat.zero_ne_one)
        (Route.ends_within (C := Course.ofTwo P Q) (P := P) rfl hofP hs)
        (fun t ht => Route.ends_within (P := Q) rfl hofQ ht)
      simpa only [List.mem_flatMap, Set.mem_ofPred_eq] using hcomp
  | either p q ihp ihq =>
    obtain ⟨P, hP, hofP⟩ := ihp
    obtain ⟨Q, hQ, hofQ⟩ := ihq
    refine ⟨((Route.part P 0).either (.part Q 1)).course (Course.ofTwo P Q), fun i j => ?_, ?_⟩
    · show P.spans i j ∨ Q.spans i j ↔ _
      rw [hP, hQ]
      rfl
    · apply Route.isOf_course
      intro s hs
      apply Course.Ends.firsts
      have heither := Route.ends_either (apart_of_ne Nat.zero_ne_one)
        (Route.ends_within (C := Course.ofTwo P Q) (P := P) rfl hofP hs)
        (Route.ends_within (P := Q) rfl hofQ hs)
      exact heither.select ⟨fun t ht => List.mem_append.mp ht,
        fun t ht => ⟨t, List.mem_append.mpr ht, rfl⟩⟩
  | repetition p least most greedy ih =>
    obtain ⟨P, hP, hof⟩ := ih
    obtain ⟨Q, hQ, hofQ⟩ :=
      Route.exists_course_repetition hof (p.advances && !p.hasVoid) least most greedy
    refine ⟨Q, fun i j => ?_, hofQ⟩
    rw [hQ]
    simp only [steps_congr hP]
    rfl

/-! ## Searching -/

theorem isAt_start (text : Text) : IsAt text (.start text) := ⟨[], rfl, rfl, rfl⟩

theorem exists_spans_of_searchFrom {p : Pattern} {fuel : Nat} {s : Cursor} {m : Occurrence}
    (hs : IsAt text s) (h : p.searchFrom fuel s = some m) :
    Spans text p m.start m.stop.byte := by
  induction fuel generalizing s with
  | zero => exact nomatch h
  | succ fuel ih =>
    simp only [searchFrom] at h
    split at h
    · rename_i t r hends
      obtain rfl := Option.some.inj h
      obtain ⟨P, hP, hof⟩ := exists_course text p
      rw [← hP]
      exact ((hof s hs).lands t (hends ▸ List.mem_cons_self)).spans
    · obtain ⟨t, ht, h⟩ := Option.bind_eq_some_iff.mp h
      exact ih (isAt_of_next? hs ht).1 h

/-- Where a pattern is found it spans a stretch of the text. -/
theorem exists_spans_of_isIn {p : Pattern} (h : p.isIn text = true) :
    ∃ i j, Spans text p i j := by
  obtain ⟨m, hm⟩ := Option.isSome_iff_exists.mp h
  exact ⟨_, _, exists_spans_of_searchFrom (isAt_start text) hm⟩

/-- A pattern that spans a stretch from the beginning of the text is found there first. -/
theorem exists_firstIn?_of_spans_zero {p : Pattern} {j : Nat} (h : Spans text p 0 j) :
    ∃ m, p.firstIn? text = some m ∧ m.start = 0 := by
  obtain ⟨P, hP, hof⟩ := exists_course text p
  have hends := hof (.start text) (isAt_start text)
  have hleft : P.IsLeft (.start text) := by
    intro way hway
    cases hway
  rcases hends.complete hleft j ((hP 0 j).mpr h) with ⟨t, ht, -⟩ | ⟨way, hway, -⟩
  · have hmem : t ∈ p.ends (.start text) := ht
    show ∃ m, p.searchFrom (text.length + 1) (.start text) = some m ∧ m.start = 0
    simp only [searchFrom]
    split
    · exact ⟨_, rfl, rfl⟩
    · rename_i hnil
      rw [hnil] at hmem
      exact absurd hmem List.not_mem_nil
  · cases hway

theorem isIn_of_spans_zero {p : Pattern} {j : Nat} (h : Spans text p 0 j) :
    p.isIn text = true := by
  obtain ⟨m, hm, -⟩ := exists_firstIn?_of_spans_zero h
  exact Option.isSome_iff_exists.mpr ⟨m, hm⟩

end TimePhrase.Pattern
