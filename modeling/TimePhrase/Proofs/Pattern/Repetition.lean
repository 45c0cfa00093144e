import TimePhrase.Proofs.Pattern.Star

/-!
# Repetitions

Each of the iterations that are counted is a part of its own. A repetition is a number of them that
has to be, with a bounded number after it or any number.

* `Route.ends_exactly`, `Route.ends_upTo`  a bounded number of iterations
* `Route.exists_course_repetition`  every repetition follows a course
-/

namespace TimePhrase.Pattern.Route

variable {text : Text} {s t : Cursor} {P : Course} {ends : Cursor → List Cursor} {top d : Nat}

/-! ## A bounded number of iterations -/

/-- The first `d` of `top` iterations. Each is a part of its own, the first one with the highest
    number. -/
def iterations (P : Course) (top d : Nat) : Route where
  spans := Steps P.spans d
  after k i j := top ≤ k + d ∧ k < top ∧ Steps P.spans (k + d - top) i j
  le_of_spans := le_of_steps fun _ _ => P.le_of_spans
  le_of_after h := le_of_steps (fun _ _ => P.le_of_spans) h.2.2

theorem iterations_zero : iterations P top 0 = stay := by
  apply Route.ext
  · rfl
  · funext k i j
    refine propext ⟨?_, False.elim⟩
    rintro ⟨hle, hlt, -⟩
    omega

theorem iterations_succ (h : d < top) :
    iterations P top (d + 1) = (iterations P top d).comp (part P (top - d - 1)) := by
  apply Route.ext
  · funext i j
    exact propext steps_succ_right
  · funext k i j
    apply propext
    constructor
    · rintro ⟨hle, hlt, hsteps⟩
      -- The part is one of the first `d`, or the one after them.
      by_cases hk : top ≤ k + d
      · rw [show k + (d + 1) - top = k + d - top + 1 by omega, steps_succ_right] at hsteps
        obtain ⟨l, hl, hj⟩ := hsteps
        exact .inl ⟨l, ⟨hk, hlt, hl⟩, hj⟩
      · rw [show k + (d + 1) - top = 0 by omega] at hsteps
        exact .inr ⟨by omega, hsteps⟩
    · rintro (⟨l, ⟨hle, hlt, hl⟩, hj⟩ | ⟨rfl, rfl⟩)
      · refine ⟨by omega, hlt, ?_⟩
        rw [show k + (d + 1) - top = k + d - top + 1 by omega, steps_succ_right]
        exact ⟨l, hl, hj⟩
      · refine ⟨by omega, by omega, ?_⟩
        rw [show top - d - 1 + (d + 1) - top = 0 by omega]
        rfl

theorem ends_iteration (hends : P.IsOf text ends) (n : Nat) (hs : IsAt text s) :
    ((part P n).course fun _ => P).Ends text s (StandsIn (fun _ => P) s)
      {t | t ∈ within n ends s} :=
  ends_within (C := fun _ => P) rfl hends hs

theorem ends_iterations_succ (hends : P.IsOf text ends) (h : d < top) {l : Set Cursor}
    (hl : ((iterations P top d).course fun _ => P).Ends text s (StandsIn (fun _ => P) s) l) :
    ((iterations P top (d + 1)).course fun _ => P).Ends text s (StandsIn (fun _ => P) s)
      {u | ∃ t ∈ l, u ∈ within (top - d - 1) ends t} := by
  rw [iterations_succ h]
  refine ends_comp ?_ hl fun t ht => ends_iteration hends _ ht
  rintro k i j i' j' ⟨hle, -, -⟩ ⟨rfl, -⟩
  omega

theorem exactly_succ (step : Nat → Cursor → List Cursor) (base n : Nat) (l : List Cursor) :
    exactly step base (n + 1) l = exactly step base n (firsts base (l.flatMap (step n))) := by
  cases l with
  | nil => cases n <;> rfl
  | cons t r => rfl

theorem ends_exactly (hends : P.IsOf text ends) {n : Nat} (hn : d + n = top) {l : List Cursor}
    (hl : ((iterations P top d).course fun _ => P).Ends text s (StandsIn (fun _ => P) s)
      {t | t ∈ l}) :
    ((iterations P top top).course fun _ => P).Ends text s (StandsIn (fun _ => P) s)
      {t | t ∈ exactly (fun k => within k ends) s.byte n l} := by
  induction n generalizing d l with
  | zero =>
    obtain rfl : d = top := hn
    exact hl
  | succ n ih =>
    rw [exactly_succ]
    refine ih (d := d + 1) (by omega) (Course.Ends.firsts ?_)
    have hsucc := ends_iterations_succ hends (by omega) hl
    rw [show top - d - 1 = n by omega] at hsucc
    simpa only [List.mem_flatMap, Set.mem_ofPred_eq] using hsucc

/-- At most `m` iterations. The numbers of their parts begin with `base`. -/
def atMost (P : Course) (base m : Nat) : Route where
  spans i j := ∃ d, d ≤ m ∧ Steps P.spans d i j
  after k i j := base ≤ k ∧ k < base + m ∧ ∃ e, e ≤ k - base ∧ Steps P.spans e i j
  le_of_spans := by
    rintro i j ⟨d, -, hd⟩
    exact le_of_steps (fun _ _ => P.le_of_spans) hd
  le_of_after := by
    rintro k i j ⟨-, -, e, -, he⟩
    exact le_of_steps (fun _ _ => P.le_of_spans) he

/-- The cursors that a walk follows with each number of iterations left. -/
theorem exists_levels {step : Nat → Cursor → List Cursor} (hstep : ∀ k, IsForward text (step k))
    (hs : IsAt text s) (greedy : Bool) (m : Nat) :
    ∃ V : Nat → Set Cursor, Selects (V m) {s} ∧
      (∀ k < m, Selects (V k) {u | ∃ t ∈ V (k + 1), u ∈ step k t}) ∧
      ∀ t, t ∈ (walkUpTo step greedy s.byte m ⟨[], []⟩ s).found ↔ ∃ k, k ≤ m ∧ t ∈ V k := by
  -- At the beginning, nothing has been followed with any number of iterations left.
  have hseen : ∀ m, HasSeen s.byte m (fun _ => ∅) [] := by
    intro m
    induction m with
    | zero => trivial
    | succ m ih => exact ⟨fun b _ => by simp [Places.has], ih⟩
  have hnothing : IsClimbed step s.byte m (fun _ => ∅) ⟨[], []⟩ :=
    ⟨hseen m, fun _ _ _ hv => absurd hv (Set.notMem_empty _),
      fun _ _ _ hv => absurd hv (Set.notMem_empty _)⟩
  obtain ⟨V, hclimbs, v, hv, hbyte⟩ := climbs_walkUpTo hstep hs (Nat.le_refl s.byte) hnothing
  have hfrom := hclimbs.reached
  refine ⟨V, ⟨fun v hv => ?_, ?_⟩, fun k hk => ⟨fun v hv => ?_, ?_⟩, fun t => ⟨fun ht => ?_, ?_⟩⟩
  · rcases hfrom m (Nat.le_refl m) v hv with hv | ⟨-, hroot⟩ | ⟨hlt, -⟩
    · exact absurd hv (Set.notMem_empty v)
    · exact hroot
    · exact absurd hlt (Nat.lt_irrefl m)
  · intro t ht
    rw [Set.mem_singleton_iff.mp ht]
    exact ⟨v, hv, hbyte⟩
  · rcases hfrom k (Nat.le_of_lt hk) v hv with hv | ⟨rfl, -⟩ | ⟨-, q, hq, hvq⟩
    · exact absurd hv (Set.notMem_empty v)
    · exact absurd hk (Nat.lt_irrefl k)
    · exact ⟨q, hq, hvq⟩
  · rintro u ⟨t, ht, hu⟩
    exact hclimbs.climbed.closed k hk t ht u hu
  · rcases hclimbs.sound t ht with ht | ⟨k, hk, ht⟩
    · exact absurd ht List.not_mem_nil
    · exact ⟨k, hk, ht⟩
  · rintro ⟨k, hk, ht⟩
    exact hclimbs.climbed.found k hk t ht

/-- One more iteration ends where at most `m` of them can. -/
theorem lands_atMost_succ (hends : P.IsOf text ends) {base m : Nat} {q v : Cursor} (hd : d + 1 ≤ m)
    (hsteps : Steps P.spans d s.byte q.byte)
    (hsq : ((atMost P base m).course fun _ => P).Lands text s q)
    (hvq : v ∈ within (base + (m - (d + 1))) ends q) :
    ((atMost P base m).course fun _ => P).Lands text s v := by
  have hqv := (ends_iteration hends _ hsq.isAt).lands v hvq
  refine ⟨hqv.isAt, ⟨d + 1, hd, steps_succ_right.mpr ⟨q.byte, hsteps, hqv.spans⟩⟩, ?_⟩
  rcases hqv.trail with ⟨hbyte, htrail⟩ | ⟨hlt, way, hway, ⟨k, w, l, rfl, hk, rfl, rfl⟩, hon⟩
  · rw [hbyte, htrail]
    exact hsq.trail
  · have hle := le_of_steps (fun _ _ => P.le_of_spans) hsteps
    refine .inr ⟨by omega, _, hway, ?_, fun j hj => ?_⟩
    · exact resumes_cons.mpr ⟨v.byte, hk, by omega, by omega, 0, Nat.zero_le _, rfl⟩
    · -- After the iteration, as many can follow as are left.
      obtain ⟨l, hl, -, -, e, he, hj⟩ := resumes_cons.mp hj
      have hql : P.spans q.byte l := hon l (resumes_cons.mpr ⟨l, hl, rfl, rfl⟩)
      refine ⟨d + 1 + e, by omega, steps_add.mpr ⟨l, ?_, hj⟩⟩
      exact steps_succ_right.mpr ⟨q.byte, hsteps, hql⟩

theorem ends_upTo (hends : P.IsOf text ends) (hs : IsAt text s) (base m : Nat) (greedy : Bool) :
    ((atMost P base m).course fun _ => P).Ends text s (StandsIn (fun _ => P) s)
      {t | t ∈ upTo (fun left => within (base + left) ends) greedy m s} := by
  have hforward (k : Nat) : IsForward text (within (base + k) ends) :=
    isForward_of_ends fun s => ends_iteration hends (base + k)
  obtain ⟨V, htop, hlevel, hfound⟩ := exists_levels hforward hs greedy m
  -- The cursors followed with `m - d` iterations left are the ends of `d` iterations.
  have hiter : ∀ d ≤ m, ((iterations P (base + m) d).course fun _ => P).Ends text s
      (StandsIn (fun _ => P) s) (V (m - d)) := by
    intro d hd
    induction d with
    | zero =>
      rw [iterations_zero]
      exact (ends_stay hs).select htop
    | succ d ih =>
      have hsucc := ends_iterations_succ hends (by omega) (ih (by omega))
      refine hsucc.select ?_
      have hselects := hlevel (m - (d + 1)) (by omega)
      rw [show m - (d + 1) + 1 = m - d by omega] at hselects
      rw [show base + m - d - 1 = base + (m - (d + 1)) by omega]
      exact hselects
  have hlands : ∀ d ≤ m, ∀ v ∈ V (m - d), ((atMost P base m).course fun _ => P).Lands text s v := by
    intro d hd
    induction d with
    | zero =>
      intro v hv
      obtain rfl := htop.subset hv
      exact ⟨hs, ⟨0, Nat.zero_le m, rfl⟩, .inl ⟨rfl, rfl⟩⟩
    | succ d ih =>
      intro v hv
      obtain ⟨q, hq, hvq⟩ := (hlevel (m - (d + 1)) (by omega)).subset hv
      rw [show m - (d + 1) + 1 = m - d by omega] at hq
      exact lands_atMost_succ hends hd ((hiter d (by omega)).lands q hq).spans
        (ih (by omega) q hq) hvq
  refine Course.Ends.firsts ⟨fun t ht => ?_, ?_⟩
  · obtain ⟨k, hk, ht⟩ := (hfound t).mp (List.mem_reverse.mp ht)
    refine hlands (m - k) (Nat.sub_le m k) t ?_
    rwa [show m - (m - k) = k by omega]
  · rintro hstands j ⟨d, hd, hj⟩
    rcases (hiter d hd).complete hstands j hj with ⟨t, ht, hbyte⟩ | ⟨way, hway, hresumes⟩
    · refine .inl ⟨t, List.mem_reverse.mpr ?_, hbyte⟩
      exact (hfound t).mpr ⟨m - d, Nat.sub_le m d, ht⟩
    · obtain ⟨k, w, l, rfl, hk, hle, hlt, hsteps⟩ := hresumes
      refine .inr ⟨_, hway, resumes_cons.mpr ⟨l, hk, by omega, hlt, _, ?_, hsteps⟩⟩
      omega

/-! ## Repetitions -/

/-- What follows after iterations that have to be. -/
theorem isOf_exactly_then (hends : P.IsOf text ends) (n : Nat) {B : Route}
    (hapart : Apart (iterations P n n) B) {further : Cursor → List Cursor}
    (hB : ∀ t, IsAt text t → (B.course fun _ => P).Ends text t (StandsIn (fun _ => P) t)
      {u | u ∈ further t}) :
    (((iterations P n n).comp B).course fun _ => P).IsOf text fun s =>
      firsts s.byte ((exactly (fun k => within k ends) s.byte n [s]).flatMap further) := by
  apply isOf_course
  intro s hs
  apply Course.Ends.firsts
  have hfirst : ((iterations P n n).course fun _ => P).Ends text s (StandsIn (fun _ => P) s)
      {t | t ∈ exactly (fun k => within k ends) s.byte n [s]} := by
    apply ends_exactly hends (Nat.zero_add n)
    rw [iterations_zero]
    simpa using ends_stay hs
  simpa only [List.mem_flatMap, Set.mem_ofPred_eq] using ends_comp hapart hfirst hB

/-- A repetition follows a course. -/
theorem exists_course_repetition (hends : P.IsOf text ends) (advances : Bool) (least : Nat)
    (most : Option Nat) (greedy : Bool) :
    ∃ Q : Course, (∀ i j, Q.spans i j ↔
        ∃ more, (∀ m ∈ most, more ≤ m - least) ∧ Steps P.spans (least + more) i j) ∧
      Q.IsOf text (repetitionEnds (fun n => within n ends) advances least most greedy) := by
  match least, most with
  | 0, none =>
    refine ⟨(part P 0).star.course fun _ => P, fun i j => ?_, fun s hs => ?_⟩
    · constructor
      · rintro ⟨n, hn⟩
        exact ⟨n, nofun, by rwa [Nat.zero_add]⟩
      · rintro ⟨n, -, hn⟩
        exact ⟨n, by rwa [Nat.zero_add] at hn⟩
    · simp only [repetitionEnds]
      split
      · -- From the place where the repetition was left it leads on to all of its ends.
        rename_i hskip
        obtain ⟨way, hway⟩ := Option.isSome_iff_exists.mp (Bool.and_eq_true_iff.mp hskip).2
        refine ⟨nofun, fun hleft j hj => .inr ⟨way, hway, ?_⟩⟩
        obtain ⟨k, w, l, rfl, hk, hl⟩ := hleft way hway
        have hpart := (resumes_part (A := (part P 0).star) (C := fun _ => P)
          (resumes_cons.mpr ⟨l, hk, hl⟩)).1
        obtain ⟨m, ⟨rfl, rfl⟩, -⟩ := hl
        exact resumes_star.mpr ⟨s.byte, resumes_cons.mpr ⟨s.byte, hpart, rfl, rfl⟩, hj⟩
      · have hany := ends_anyNumber (fun s hs => ends_iteration hends 0 hs) hs greedy
        exact ⟨hany.lands, fun hleft => hany.complete (standsIn_of_isLeft hleft)⟩
  | n + 1, none =>
    -- The last iteration that has to be is the first one of any number.
    have hapart : Apart (iterations P n n) (part P n).plus := by
      rintro k i j i' j' ⟨-, hlt, -⟩ ⟨l, ⟨rfl, -⟩, -⟩
      exact Nat.lt_irrefl k hlt
    refine ⟨_, fun i j => ?_, isOf_exactly_then hends n hapart fun t ht =>
      ends_atLeastOne (fun s hs => ends_iteration hends n hs) ht greedy⟩
    constructor
    · rintro ⟨k, hk, l, hl, more, hmore⟩
      refine ⟨more, nofun, ?_⟩
      rw [Nat.add_assoc, steps_add]
      exact ⟨k, hk, steps_add.mpr ⟨l, steps_one.mpr hl, hmore⟩⟩
    · rintro ⟨more, -, hsteps⟩
      rw [Nat.add_assoc, steps_add] at hsteps
      obtain ⟨k, hk, hsteps⟩ := hsteps
      obtain ⟨l, hl, hmore⟩ := steps_add.mp hsteps
      exact ⟨k, hk, l, steps_one.mp hl, more, hmore⟩
  | n, some m =>
    -- After the iterations that have to be, those follow that can be.
    have hapart : Apart (iterations P n n) (atMost P n (m - n)) := by
      rintro k i j i' j' ⟨-, hlt, -⟩ ⟨hle, -, -⟩
      exact absurd hlt (Nat.not_lt.mpr hle)
    refine ⟨((iterations P n n).comp (atMost P n (m - n))).course fun _ => P, fun i j => ?_, ?_⟩
    · constructor
      · rintro ⟨k, hk, more, hle, hmore⟩
        exact ⟨more, by simpa using hle, steps_add.mpr ⟨k, hk, hmore⟩⟩
      · rintro ⟨more, hle, hsteps⟩
        obtain ⟨k, hk, hmore⟩ := steps_add.mp hsteps
        exact ⟨k, hk, more, hle m rfl, hmore⟩
    · have hof := isOf_exactly_then hends n hapart fun t ht =>
        ends_upTo hends ht n (m - n) greedy
      cases n <;> exact hof

end TimePhrase.Pattern.Route
