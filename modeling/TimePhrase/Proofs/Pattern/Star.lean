import TimePhrase.Proofs.Pattern.Course

/-!
# Any number of iterations

A walk over iterations follows one cursor from each place. An end that an iteration from a later
place leaves out is one to which an iteration from an earlier place leads, so a walk that is closed
has found every end.

* `Route.ends_atLeastOne`  one iteration and any number of further ones
* `Route.ends_anyNumber`  any number of iterations
-/

namespace TimePhrase.Pattern.Route

variable {text : Text} {C : Nat → Course} {A : Route} {s t : Cursor}

/-- A route any number of times. -/
def star (A : Route) : Route where
  spans i j := ∃ n, Steps A.spans n i j
  after k i j := ∃ l, A.after k i l ∧ ∃ n, Steps A.spans n l j
  le_of_spans := by
    rintro i j ⟨n, hn⟩
    exact le_of_steps (fun _ _ => A.le_of_spans) hn
  le_of_after := by
    rintro k i j ⟨l, hl, n, hn⟩
    exact Nat.le_trans (A.le_of_after hl) (le_of_steps (fun _ _ => A.le_of_spans) hn)

/-- A route at least once. -/
def plus (A : Route) : Route where
  spans i j := ∃ k, A.spans i k ∧ A.star.spans k j
  after := A.star.after
  le_of_spans := by
    rintro i j ⟨k, hk, hj⟩
    exact Nat.le_trans (A.le_of_spans hk) (A.star.le_of_spans hj)
  le_of_after := A.star.le_of_after

theorem star_trans {i j k : Nat} (hij : A.star.spans i j) (hjk : A.star.spans j k) :
    A.star.spans i k := by
  obtain ⟨m, hm⟩ := hij
  obtain ⟨n, hn⟩ := hjk
  exact ⟨m + n, steps_add.mpr ⟨j, hm, hn⟩⟩

/-- From a character in an iteration the route leads on over the end of the iteration. -/
theorem resumes_star {way : List Nat} {i j : Nat} : (A.star.course C).resumes way i j ↔
    ∃ l, (A.course C).resumes way i l ∧ A.star.spans l j := by
  constructor
  · rintro ⟨k, w, l, rfl, hk, m, hm, hj⟩
    exact ⟨m, ⟨k, w, l, rfl, hk, hm⟩, hj⟩
  · rintro ⟨m, ⟨k, w, l, rfl, hk, hm⟩, hj⟩
    exact ⟨k, w, l, rfl, hk, m, hm, hj⟩

theorem lands_plus {u : Cursor} (hsu : (A.course C).Lands text s u)
    (hut : (A.star.course C).Lands text u t) : (A.plus.course C).Lands text s t := by
  refine ⟨hut.isAt, ⟨u.byte, hsu.spans, hut.spans⟩, ?_⟩
  rcases hut.trail with ⟨hbyte, htrail⟩ | ⟨hlt, way, hway, hresumes, hon⟩
  · -- The further iterations have not advanced, so the trail is that of the first one.
    rcases hsu.trail with ⟨hbyte', htrail'⟩ | ⟨hlt, way, hway, hresumes, hon⟩
    · exact .inl ⟨hbyte.trans hbyte', htrail.trans htrail'⟩
    · rw [hbyte]
      refine .inr ⟨hlt, way, htrail.trans hway, resumes_star.mpr ⟨u.byte, hresumes, 0, rfl⟩, ?_⟩
      intro j hj
      obtain ⟨l, hl, hj⟩ := resumes_star.mp hj
      exact ⟨l, hon l hl, hj⟩
  · have hle := A.le_of_spans hsu.spans
    exact .inr ⟨by omega, way, hway, hresumes, fun j hj => ⟨u.byte, hsu.spans, hon j hj⟩⟩

theorem lands_star_of_plus (h : (A.plus.course C).Lands text s t) :
    (A.star.course C).Lands text s t := by
  have hspans {i j : Nat} (h : A.plus.spans i j) : A.star.spans i j := by
    obtain ⟨k, hk, n, hn⟩ := h
    exact ⟨n + 1, k, hk, hn⟩
  refine ⟨h.isAt, hspans h.spans, h.trail.imp_right ?_⟩
  rintro ⟨hlt, way, hway, hresumes, hon⟩
  exact ⟨hlt, way, hway, hresumes, fun j hj => hspans (hon j hj)⟩

theorem lands_star_refl (hs : IsAt text s) : (A.star.course C).Lands text s s :=
  ⟨hs, ⟨0, rfl⟩, .inl ⟨rfl, rfl⟩⟩

theorem lands_star_trans {u : Cursor} (hst : (A.star.course C).Lands text s t)
    (htu : (A.star.course C).Lands text t u) : (A.star.course C).Lands text s u := by
  refine ⟨htu.isAt, star_trans hst.spans htu.spans, ?_⟩
  rcases htu.trail with ⟨hbyte, htrail⟩ | ⟨hlt, way, hway, hresumes, hon⟩
  · rcases hst.trail with ⟨hbyte', htrail'⟩ | ⟨hlt, way, hway, hresumes, hon⟩
    · exact .inl ⟨hbyte.trans hbyte', htrail.trans htrail'⟩
    · rw [hbyte]
      exact .inr ⟨hlt, way, htrail.trans hway, hresumes, hon⟩
  · have hle := A.star.le_of_spans hst.spans
    exact .inr ⟨by omega, way, hway, hresumes, fun j hj => star_trans hst.spans (hon j hj)⟩

section AtLeastOne

variable {step : Cursor → List Cursor}

theorem isForward_of_ends
    (hstep : ∀ s, IsAt text s → (A.course C).Ends text s (StandsIn C s) {t | t ∈ step s}) :
    IsForward text step := fun s hs t ht =>
  have hst := (hstep s hs).lands t ht
  ⟨hst.isAt, A.le_of_spans hst.spans⟩

/-- Where a walk has ended that began with the iterations from `s`. -/
structure HasWalked (step : Cursor → List Cursor) (s : Cursor) (V : Set Cursor)
    (found : List Cursor) : Prop where
  first : ∀ t ∈ step s, IsFollowed V found s t
  closed : ∀ v ∈ V, ∀ t ∈ step v, IsFollowed V found v t
  found : ∀ v ∈ V, v ∈ found
  reached : ∀ v ∈ V, ∃ q ∈ insert s V, v ∈ step q ∧ q.byte < v.byte

theorem exists_hasWalked (hstep : IsForward text step) (hs : IsAt text s) (greedy : Bool) :
    ∃ V, HasWalked step s V ((step s).foldl (fun w t => if s.byte < t.byte then
      walkAny step greedy s.byte (t.rest.length + 1) w t else w.find t) ⟨0, []⟩).found := by
  -- At the beginning, nothing has been followed.
  have hnothing : IsExplored step s.byte ∅ ⟨0, []⟩ :=
    ⟨fun b _ => by simp [Places.has], nofun, nofun⟩
  have hwalk : ∀ t ∈ step s, s.byte < t.byte → ∀ V w, IsExplored step s.byte V w →
      ∃ V', Grows step s.byte {t} V w V'
          (walkAny step greedy s.byte (t.rest.length + 1) w t) ∧ ∃ v ∈ V', v.byte = t.byte := by
    intro t ht hlt V w hw
    exact grows_walkAny hstep (hstep s hs t ht).1 (Nat.le_of_lt hlt) (Nat.lt_succ_self _) hw
  have hroots : ∀ t ∈ step s, s.byte < t.byte → t ∈ {t | t ∈ step s ∧ s.byte < t.byte} :=
    fun t ht hlt => ⟨ht, hlt⟩
  obtain ⟨V, hgrows, hfirst⟩ := grows_foldl hroots hwalk hnothing
  refine ⟨V, hfirst, hgrows.explored.closed, hgrows.explored.found, fun v hv => ?_⟩
  rcases hgrows.reached v hv with hv | hroot | ⟨q, hq, hvq⟩
  · exact absurd hv (Set.notMem_empty v)
  · exact ⟨s, Set.mem_insert s V, hroot⟩
  · exact ⟨q, Set.mem_insert_of_mem s hq, hvq⟩

/-- Every place that has been followed has been come to from an earlier one. -/
theorem HasWalked.lands {V : Set Cursor} {found : List Cursor} (h : HasWalked step s V found)
    (hstep : ∀ s, IsAt text s → (A.course C).Ends text s (StandsIn C s) {t | t ∈ step s})
    (hs : IsAt text s) {v : Cursor} (hv : v ∈ V) :
    ∃ q ∈ insert s V, q.byte < v.byte ∧ (A.course C).Lands text q v := by
  induction hb : v.byte using Nat.strong_induction_on generalizing v with
  | _ b ih =>
    subst hb
    obtain ⟨q, hq, hvq, hlt⟩ := h.reached v hv
    have hat : IsAt text q := by
      rcases hq with rfl | hq
      · exact hs
      · obtain ⟨_, -, -, hlands⟩ := ih q.byte hlt hq rfl
        exact hlands.isAt
    exact ⟨q, hq, hlt, (hstep q hat).lands v hvq⟩

/-- A walk that is closed has found every end, except for those to which the route leads on from
    where it was left at the beginning. -/
theorem HasWalked.complete {V : Set Cursor} {found : List Cursor} (h : HasWalked step s V found)
    (hstep : ∀ s, IsAt text s → (A.course C).Ends text s (StandsIn C s) {t | t ∈ step s})
    (hs : IsAt text s) (hstands : StandsIn C s) {n : Nat} {v : Cursor} (hv : v ∈ insert s V)
    {j : Nat} (hj : Steps A.spans (n + 1) v.byte j) : (∃ t ∈ found, t.byte = j) ∨
      ∃ way, s.trail = some way ∧ (A.plus.course C).resumes way s.byte j := by
  -- By induction on the number of iterations, and among the ends of as many on the place of `v`:
  -- what an iteration from `v` leaves out, an iteration from an earlier place leads to.
  induction n using Nat.strong_induction_on generalizing v with
  | _ n ihn =>
    induction hb : v.byte using Nat.strong_induction_on generalizing v with
    | _ b ihb =>
      subst hb
      obtain ⟨k, hvk, hkj⟩ := hj
      -- What is left to do from a place to which the iteration leads.
      have hrest (u : Cursor) (hu : u ∈ insert s V) (hbyte : u.byte = k)
          (hfound : ∃ t ∈ found, t.byte = k) : (∃ t ∈ found, t.byte = j) ∨
            ∃ way, s.trail = some way ∧ (A.plus.course C).resumes way s.byte j := by
        subst hbyte
        cases n with
        | zero =>
          obtain rfl : u.byte = j := hkj
          exact .inl hfound
        | succ n => exact ihn n (Nat.lt_succ_self n) hu hkj
      have hlisted (hfollowed : ∀ t ∈ step v, IsFollowed V found v t) (t : Cursor)
          (ht : t ∈ step v) (hbyte : t.byte = k) : (∃ t ∈ found, t.byte = j) ∨
            ∃ way, s.trail = some way ∧ (A.plus.course C).resumes way s.byte j := by
        have hle := A.le_of_spans hvk
        rcases hfollowed t ht with ⟨-, v', hv', hsame⟩ | ⟨hback, u, hu, hsame⟩
        · have hplace := hsame.trans hbyte
          exact hrest v' (Set.mem_insert_of_mem s hv') hplace ⟨v', h.found v' hv', hplace⟩
        · exact hrest v hv (by omega) ⟨u, hu, hsame.trans hbyte⟩
      rcases hv with rfl | hv
      · rcases (hstep v hs).complete hstands k hvk with ⟨t, ht, hbyte⟩ | ⟨way, hway, hresumes⟩
        · exact hlisted h.first t ht hbyte
        · exact .inr ⟨way, hway, resumes_star.mpr ⟨k, hresumes, n, hkj⟩⟩
      · obtain ⟨q, hq, hlt, hqv⟩ := h.lands hstep hs hv
        rcases (hstep v hqv.isAt).complete (standsIn_of_lt hqv hlt) k hvk with
          ⟨t, ht, hbyte⟩ | ⟨way, hway, hresumes⟩
        · exact hlisted (h.closed v hv) t ht hbyte
        · -- The end is left out, because the earlier place has led to it already.
          rcases hqv.trail with ⟨hbyte, -⟩ | ⟨-, way', hway', -, hon⟩
          · omega
          · rw [hway] at hway'
            obtain rfl := Option.some.inj hway'
            exact ihb q.byte hlt hq ⟨k, hon k hresumes, hkj⟩ rfl

theorem ends_atLeastOne
    (hstep : ∀ s, IsAt text s → (A.course C).Ends text s (StandsIn C s) {t | t ∈ step s})
    (hs : IsAt text s) (greedy : Bool) :
    (A.plus.course C).Ends text s (StandsIn C s) {t | t ∈ atLeastOne step greedy s} := by
  have hforward := isForward_of_ends hstep
  refine Course.Ends.firsts ⟨fun t ht => ?_, ?_⟩
  · -- Whatever the walk finds lies behind a first iteration and any number of further ones.
    let R (s t : Cursor) : Prop := IsAt text s → (A.star.course C).Lands text s t
    have hrefl (s : Cursor) : R s s := lands_star_refl
    have htrans {s t u : Cursor} (hst : R s t) (htu : R t u) : R s u := fun hs =>
      lands_star_trans (hst hs) (htu (hst hs).isAt)
    have hiter (s t : Cursor) (ht : t ∈ step s) : R s t := fun hs =>
      lands_star_of_plus (lands_plus ((hstep s hs).lands t ht)
        (lands_star_refl (hforward s hs t ht).1))
    obtain ⟨u, hu, hut⟩ := exists_step_of_mem_found hrefl htrans hiter (List.mem_reverse.mp ht)
    have hsu := (hstep s hs).lands u hu
    exact lands_plus hsu (hut hsu.isAt)
  · rintro hstands j ⟨k, hk, n, hn⟩
    obtain ⟨V, hV⟩ := exists_hasWalked hforward hs greedy
    refine (hV.complete hstep hs hstands (Set.mem_insert s V) ⟨k, hk, hn⟩).imp_left ?_
    rintro ⟨t, ht, hbyte⟩
    exact ⟨t, List.mem_reverse.mpr ht, hbyte⟩

theorem ends_anyNumber
    (hstep : ∀ s, IsAt text s → (A.course C).Ends text s (StandsIn C s) {t | t ∈ step s})
    (hs : IsAt text s) (greedy : Bool) :
    (A.star.course C).Ends text s (StandsIn C s) {t | t ∈ anyNumber step greedy s} := by
  have hplus := ends_atLeastOne hstep hs greedy
  -- The cursor itself stands before the others or after them.
  have hends (l : List Cursor) (hl : ∀ t, t ∈ l ↔ t = s ∨ t ∈ atLeastOne step greedy s) :
      (A.star.course C).Ends text s (StandsIn C s) {t | t ∈ firsts s.byte l} := by
    refine Course.Ends.firsts ⟨fun t ht => ?_, ?_⟩
    · rcases (hl t).mp ht with rfl | ht
      · exact lands_star_refl hs
      · exact lands_star_of_plus (hplus.lands t ht)
    · rintro hstands j ⟨n, hn⟩
      cases n with
      | zero => exact .inl ⟨s, (hl s).mpr (.inl rfl), hn⟩
      | succ n =>
        obtain ⟨k, hk, hj⟩ := hn
        rcases hplus.complete hstands j ⟨k, hk, n, hj⟩ with ⟨t, ht, hbyte⟩ | hresumes
        · exact .inl ⟨t, (hl t).mpr (.inr ht), hbyte⟩
        · exact .inr hresumes
  unfold anyNumber
  cases greedy with
  | true =>
    rw [if_pos rfl]
    apply hends
    simp [or_comm]
  | false =>
    rw [if_neg Bool.false_ne_true]
    apply hends
    simp

end AtLeastOne

end TimePhrase.Pattern.Route
