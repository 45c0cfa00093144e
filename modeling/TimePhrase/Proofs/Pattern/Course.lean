import TimePhrase.Proofs.Pattern.Spans
import TimePhrase.Proofs.Pattern.Walk

/-!
# Courses

A pattern that is entered at a place where it has been left before does not list the ends that have
been listed then. So what its list is complete for depends on the way to the character where it was
left, and on the ends to which the pattern leads on from that character. A course tells both: from
where to where a pattern leads, and to where it leads on. The parts of a pattern make routes, which
tell what can come after a part. Routes are put together as the parts are.

* `Course.IsOf`  a function that lists the ends of a course
* `Route.ends_within`  a part of a pattern
* `Route.ends_comp`, `Route.ends_either`  routes one after the other, or side by side
-/

namespace TimePhrase.Pattern

open Text (byteSize)

variable {text : Text}

/-! ## Courses -/

/-- From where to where a pattern leads, and to where it leads on from a character in it, which is
    given by the way to it. -/
structure Course where
  spans : Nat → Nat → Prop
  /-- From the character at the end of the way, matched right before the place `i`. -/
  resumes : List Nat → Nat → Nat → Prop
  le_of_spans : ∀ {i j}, spans i j → i ≤ j
  le_of_resumes : ∀ {way i j}, resumes way i j → i ≤ j

namespace Course

/-- The cursor `t` is at an end of the course that begins at `s`. Where it has advanced, its trail
    is a way by which the course can be left there, and from which it leads on to nothing but ends
    that it has from `s`, too. -/
structure Lands (P : Course) (text : Text) (s t : Cursor) : Prop where
  isAt : IsAt text t
  spans : P.spans s.byte t.byte
  trail : (t.byte = s.byte ∧ t.trail = s.trail) ∨
    (s.byte < t.byte ∧ ∃ way, t.trail = some way ∧ P.resumes way t.byte t.byte ∧
      ∀ j, P.resumes way t.byte j → P.spans s.byte j)

/-- The cursors are at the ends of the course from `s`, except for those to which it leads on from
    where it was left. `stands` says that it was. -/
structure Ends (P : Course) (text : Text) (s : Cursor) (stands : Prop) (l : Set Cursor) : Prop where
  lands : ∀ t ∈ l, P.Lands text s t
  complete : stands → ∀ j, P.spans s.byte j →
    (∃ t ∈ l, t.byte = j) ∨ ∃ way, s.trail = some way ∧ P.resumes way s.byte j

/-- The course has been left at the place of the cursor by its trail, if it has one. -/
def IsLeft (P : Course) (s : Cursor) : Prop :=
  ∀ way, s.trail = some way → P.resumes way s.byte s.byte

/-- A function lists the ends of the course. -/
def IsOf (P : Course) (text : Text) (ends : Cursor → List Cursor) : Prop :=
  ∀ s, IsAt text s → P.Ends text s (P.IsLeft s) {t | t ∈ ends s}

theorem Ends.select {P : Course} {s : Cursor} {stands : Prop} {l l' : Set Cursor}
    (h : P.Ends text s stands l) (hl : Selects l' l) : P.Ends text s stands l' where
  lands t ht := h.lands t (hl.subset ht)
  complete hs j hj := by
    rcases h.complete hs j hj with ⟨t, ht, rfl⟩ | hresumes
    · exact .inl (hl.places t ht)
    · exact .inr hresumes

theorem Ends.firsts {P : Course} {s : Cursor} {stands : Prop} {l : List Cursor}
    (h : P.Ends text s stands {t | t ∈ l}) :
    P.Ends text s stands {t | t ∈ Pattern.firsts s.byte l} :=
  h.select (selects_firsts fun t ht => P.le_of_spans (h.lands t ht).spans)

end Course

/-! ## Routes -/

/-- A route over the numbered parts of a pattern: from where to where it leads, and what comes after
    the part `k` if that ends at `i`. -/
@[ext] structure Route where
  spans : Nat → Nat → Prop
  after : Nat → Nat → Nat → Prop
  le_of_spans : ∀ {i j}, spans i j → i ≤ j
  le_of_after : ∀ {k i j}, after k i j → i ≤ j

namespace Route

/-- The parts of the pattern follow the courses `C`. A route leads on from a character in one of its
    parts to the end of the part, and from there as far as it goes. -/
def course (A : Route) (C : Nat → Course) : Course where
  spans := A.spans
  resumes way i j := ∃ k w l, way = k :: w ∧ (C k).resumes w i l ∧ A.after k l j
  le_of_spans := A.le_of_spans
  le_of_resumes := by
    rintro way i j ⟨k, w, l, -, hk, hj⟩
    exact Nat.le_trans ((C k).le_of_resumes hk) (A.le_of_after hj)

/-- The part has been left to which the trail of the cursor points. -/
def StandsIn (C : Nat → Course) (s : Cursor) : Prop :=
  ∀ k w, s.trail = some (k :: w) → (C k).resumes w s.byte s.byte

variable {C : Nat → Course} {A B : Route} {s t : Cursor}

theorem resumes_cons {k : Nat} {w : List Nat} {i j : Nat} : (A.course C).resumes (k :: w) i j ↔
    ∃ l, (C k).resumes w i l ∧ A.after k l j := by
  constructor
  · rintro ⟨k', w', l, heq, hk, hj⟩
    obtain ⟨rfl, rfl⟩ := List.cons.inj heq
    exact ⟨l, hk, hj⟩
  · rintro ⟨l, hk, hj⟩
    exact ⟨k, w, l, rfl, hk, hj⟩

/-- Where a route has been left, one of its parts has been left. -/
theorem resumes_part {k : Nat} {w : List Nat} {i : Nat} (h : (A.course C).resumes (k :: w) i i) :
    (C k).resumes w i i ∧ A.after k i i := by
  obtain ⟨l, hk, hl⟩ := resumes_cons.mp h
  have hle := (C k).le_of_resumes hk
  obtain rfl : l = i := Nat.le_antisymm (A.le_of_after hl) hle
  exact ⟨hk, hl⟩

theorem standsIn_of_isLeft (h : (A.course C).IsLeft s) : StandsIn C s :=
  fun _ _ htrail => (resumes_part (h _ htrail)).1

theorem standsIn_of_lands (h : (A.course C).Lands text s t) (hs : StandsIn C s) :
    StandsIn C t := by
  intro k w htrail
  rcases h.trail with ⟨hbyte, hsame⟩ | ⟨-, way, hway, hresumes, -⟩
  · rw [hbyte]
    exact hs k w (hsame ▸ htrail)
  · rw [htrail] at hway
    obtain rfl := Option.some.inj hway
    exact (resumes_part hresumes).1

/-- Where a route has advanced, its trail stands in one of its parts. -/
theorem standsIn_of_lt (h : (A.course C).Lands text s t) (hlt : s.byte < t.byte) :
    StandsIn C t := by
  intro k w htrail
  rcases h.trail with ⟨hbyte, -⟩ | ⟨-, way, hway, hresumes, -⟩
  · omega
  · rw [htrail] at hway
    obtain rfl := Option.some.inj hway
    exact (resumes_part hresumes).1

/-- A list for a route can be taken for one of the whole pattern. -/
theorem isOf_course {ends : Cursor → List Cursor}
    (h : ∀ s, IsAt text s → (A.course C).Ends text s (StandsIn C s) {t | t ∈ ends s}) :
    (A.course C).IsOf text ends := fun s hs =>
  ⟨(h s hs).lands, fun hleft => (h s hs).complete (standsIn_of_isLeft hleft)⟩

/-! ### Single parts -/

/-- The route that does not leave its place. -/
def stay : Route := ⟨(· = ·), fun _ _ _ => False, Nat.le_of_eq, False.elim⟩

theorem ends_stay (hs : IsAt text s) : (stay.course C).Ends text s (StandsIn C s) {s} where
  lands := by
    rintro t rfl
    exact ⟨hs, rfl, .inl ⟨rfl, rfl⟩⟩
  complete _ j hj := .inl ⟨s, rfl, hj⟩

/-- The route over the part `n`, which follows the course `P`. -/
def part (P : Course) (n : Nat) : Route :=
  ⟨P.spans, fun k i j => k = n ∧ i = j, P.le_of_spans, fun h => Nat.le_of_eq h.2⟩

theorem ends_within {n : Nat} {P : Course} (hC : C n = P) {ends : Cursor → List Cursor}
    (h : P.IsOf text ends) (hs : IsAt text s) :
    ((part P n).course C).Ends text s (StandsIn C s) {t | t ∈ within n ends s} := by
  subst hC
  -- The part sees a trail only if it is its own.
  have hinto : IsAt text (s.into n) ∧ (s.into n).byte = s.byte ∧
      ∀ w, (s.into n).trail = some w → s.trail = some (n :: w) := by
    unfold Cursor.into
    split
    · rename_i k way htrail
      refine ⟨hs, rfl, fun w hw => ?_⟩
      simp only at hw
      split at hw
      · rename_i hk
        obtain rfl := Option.some.inj hw
        rw [htrail, hk]
      · exact nomatch hw
    · exact ⟨hs, rfl, fun w hw => nomatch hw⟩
  obtain ⟨hat, hbyte, htrail⟩ := hinto
  have hends := h _ hat
  constructor
  · intro t ht
    obtain ⟨u, hu, rfl⟩ := List.mem_map.mp ht
    have hmem : u ∈ ends (s.into n) ∧ ((s.into n).trail.isSome = true → s.byte < u.byte) := by
      split at hu
      · obtain ⟨hu, hlt⟩ := List.mem_filter.mp hu
        exact ⟨hu, fun _ => by simpa using hlt⟩
      · rename_i hnone
        exact ⟨hu, fun hsome => absurd hsome hnone⟩
    have hland := hends.lands u hmem.1
    have hspans := hland.spans
    have htrails := hland.trail
    rw [hbyte] at hspans htrails
    refine ⟨hland.isAt, hspans, ?_⟩
    rcases htrails with ⟨hsame, -⟩ | ⟨hlt, way, hway, hresumes, hon⟩
    · refine .inl ⟨hsame, ?_⟩
      have hnot : ¬ s.byte < u.byte := by omega
      simp only [Cursor.outOf, if_neg hnot]
    · -- Where the part has advanced, its trail becomes one of the whole.
      refine .inr ⟨hlt, n :: way, ?_, ?_, fun j hj => ?_⟩
      · simp only [Cursor.outOf, if_pos hlt, hway, Option.map_some]
      · exact resumes_cons.mpr ⟨_, hresumes, rfl, rfl⟩
      · obtain ⟨l, hl, -, rfl⟩ := resumes_cons.mp hj
        exact hon l hl
  · intro hstands j hj
    have hleft : (C n).IsLeft (s.into n) := fun w hw => by
      rw [hbyte]
      exact hstands n w (htrail w hw)
    rw [← hbyte] at hj
    rcases hends.complete hleft j hj with ⟨u, hu, rfl⟩ | ⟨w, hw, hresumes⟩
    · by_cases hkept : (s.into n).trail.isSome = true ∧ ¬ s.byte < u.byte
      · -- The end right here has been listed when the part was left.
        obtain ⟨w, hw⟩ := Option.isSome_iff_exists.mp hkept.1
        have hle := (C n).le_of_spans hj
        have hsame : u.byte = s.byte := by omega
        refine .inr ⟨n :: w, htrail w hw, resumes_cons.mpr ⟨s.byte, ?_, rfl, hsame.symm⟩⟩
        exact hstands n w (htrail w hw)
      · refine .inl ⟨s.outOf n u, List.mem_map.mpr ⟨u, ?_, rfl⟩, rfl⟩
        split
        · rename_i hsome
          refine List.mem_filter.mpr ⟨hu, ?_⟩
          simpa [hsome] using hkept
        · exact hu
    · refine .inr ⟨n :: w, htrail w hw, resumes_cons.mpr ⟨j, ?_, rfl, rfl⟩⟩
      rw [← hbyte]
      exact hresumes

/-! ### Putting routes together -/

/-- No part belongs to both routes. -/
def Apart (A B : Route) : Prop := ∀ k i j i' j', A.after k i j → ¬ B.after k i' j'

/-- One route after the other. -/
def comp (A B : Route) : Route where
  spans i j := ∃ k, A.spans i k ∧ B.spans k j
  after k i j := (∃ l, A.after k i l ∧ B.spans l j) ∨ B.after k i j
  le_of_spans := by
    rintro i j ⟨k, hk, hj⟩
    exact Nat.le_trans (A.le_of_spans hk) (B.le_of_spans hj)
  le_of_after := by
    rintro k i j (⟨l, hl, hj⟩ | hj)
    · exact Nat.le_trans (A.le_of_after hl) (B.le_of_spans hj)
    · exact B.le_of_after hj

theorem ends_comp {l : Set Cursor} {f : Cursor → List Cursor} (hapart : Apart A B)
    (hA : (A.course C).Ends text s (StandsIn C s) l)
    (hB : ∀ t, IsAt text t → (B.course C).Ends text t (StandsIn C t) {u | u ∈ f t}) :
    ((A.comp B).course C).Ends text s (StandsIn C s) {u | ∃ t ∈ l, u ∈ f t} := by
  constructor
  · rintro u ⟨t, ht, hu⟩
    have hst := hA.lands t ht
    have htu := (hB t hst.isAt).lands u hu
    refine ⟨htu.isAt, ⟨t.byte, hst.spans, htu.spans⟩, ?_⟩
    rcases htu.trail with ⟨hbyte, htrail⟩ | ⟨hlt, way, hway, hresumes, hon⟩
    · -- The second route has not advanced, so the trail is the one of the first route.
      rcases hst.trail with ⟨hbyte', htrail'⟩ | ⟨hlt, way, hway, hresumes, hon⟩
      · exact .inl ⟨hbyte.trans hbyte', htrail.trans htrail'⟩
      · have hspans := htu.spans
        rw [hbyte] at hspans ⊢
        refine .inr ⟨hlt, way, htrail.trans hway, ?_, fun j hj => ?_⟩
        · obtain ⟨k, w, l', rfl, hk, hl⟩ := hresumes
          exact ⟨k, w, l', rfl, hk, .inl ⟨t.byte, hl, hspans⟩⟩
        · obtain ⟨k, w, l', rfl, hk, ⟨m, hm, hj⟩ | hj⟩ := hj
          · exact ⟨m, hon m ⟨k, w, l', rfl, hk, hm⟩, hj⟩
          · exact absurd hj (hapart k _ _ _ _ (resumes_part hresumes).2)
    · -- The second route has advanced, and what it leads on to can be reached through the first.
      have hle := A.le_of_spans hst.spans
      refine .inr ⟨by omega, way, hway, ?_, fun j hj => ?_⟩
      · obtain ⟨k, w, l', rfl, hk, hl⟩ := hresumes
        exact ⟨k, w, l', rfl, hk, .inr hl⟩
      · obtain ⟨k, w, l', rfl, hk, ⟨m, hm, -⟩ | hj⟩ := hj
        · exact absurd (resumes_part hresumes).2 (hapart k _ _ _ _ hm)
        · exact ⟨t.byte, hst.spans, hon j ⟨k, w, l', rfl, hk, hj⟩⟩
  · rintro hstands j ⟨m, hm, hj⟩
    rcases hA.complete hstands m hm with ⟨t, ht, rfl⟩ | ⟨way, hway, hresumes⟩
    · have hst := hA.lands t ht
      rcases (hB t hst.isAt).complete (standsIn_of_lands hst hstands) j hj with
        ⟨u, hu, hbyte⟩ | ⟨way, hway, hresumes⟩
      · exact .inl ⟨u, ⟨t, ht, hu⟩, hbyte⟩
      · -- The second route was left here already when the first one was entered.
        obtain ⟨k, w, l', rfl, hk, hl⟩ := hresumes
        rcases hst.trail with ⟨hbyte, htrail⟩ | ⟨-, way', hway', hresumes', -⟩
        · rw [hbyte] at hk
          exact .inr ⟨k :: w, htrail ▸ hway, ⟨k, w, l', rfl, hk, .inr hl⟩⟩
        · rw [hway] at hway'
          obtain rfl := Option.some.inj hway'
          exact absurd hl (hapart k _ _ _ _ (resumes_part hresumes').2)
    · -- The first route leads on to the place between, and the second one from there.
      obtain ⟨k, w, l', rfl, hk, hl⟩ := hresumes
      exact .inr ⟨k :: w, hway, ⟨k, w, l', rfl, hk, .inl ⟨m, hl, hj⟩⟩⟩

/-- Either of two routes. -/
def either (A B : Route) : Route where
  spans i j := A.spans i j ∨ B.spans i j
  after k i j := A.after k i j ∨ B.after k i j
  le_of_spans h := h.elim A.le_of_spans B.le_of_spans
  le_of_after h := h.elim A.le_of_after B.le_of_after

theorem ends_either {l l' : Set Cursor} (hapart : Apart A B)
    (hA : (A.course C).Ends text s (StandsIn C s) l)
    (hB : (B.course C).Ends text s (StandsIn C s) l') :
    ((A.either B).course C).Ends text s (StandsIn C s) (l ∪ l') := by
  -- The way of a cursor tells which of the routes it has come on.
  constructor
  · rintro t (ht | ht)
    · have hst := hA.lands t ht
      refine ⟨hst.isAt, .inl hst.spans, hst.trail.imp_right ?_⟩
      rintro ⟨hlt, way, hway, hresumes, hon⟩
      obtain ⟨k, w, l, rfl, hk, hl⟩ := hresumes
      refine ⟨hlt, k :: w, hway, ⟨k, w, l, rfl, hk, .inl hl⟩, fun j hj => ?_⟩
      obtain ⟨l', hk', hj | hj⟩ := resumes_cons.mp hj
      · exact .inl (hon j (resumes_cons.mpr ⟨l', hk', hj⟩))
      · exact absurd hj (hapart k _ _ _ _ hl)
    · have hst := hB.lands t ht
      refine ⟨hst.isAt, .inr hst.spans, hst.trail.imp_right ?_⟩
      rintro ⟨hlt, way, hway, hresumes, hon⟩
      obtain ⟨k, w, l, rfl, hk, hl⟩ := hresumes
      refine ⟨hlt, k :: w, hway, ⟨k, w, l, rfl, hk, .inr hl⟩, fun j hj => ?_⟩
      obtain ⟨l', hk', hj | hj⟩ := resumes_cons.mp hj
      · exact absurd hl (hapart k _ _ _ _ hj)
      · exact .inr (hon j (resumes_cons.mpr ⟨l', hk', hj⟩))
  · rintro hstands j (hj | hj)
    · rcases hA.complete hstands j hj with ⟨t, ht, hbyte⟩ | ⟨way, hway, k, w, l, rfl, hk, hl⟩
      · exact .inl ⟨t, .inl ht, hbyte⟩
      · exact .inr ⟨_, hway, ⟨k, w, l, rfl, hk, .inl hl⟩⟩
    · rcases hB.complete hstands j hj with ⟨t, ht, hbyte⟩ | ⟨way, hway, k, w, l, rfl, hk, hl⟩
      · exact .inl ⟨t, .inr ht, hbyte⟩
      · exact .inr ⟨_, hway, ⟨k, w, l, rfl, hk, .inr hl⟩⟩

end Route

end TimePhrase.Pattern
