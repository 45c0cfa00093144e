import TimePhrase.Pattern.Compose
import TimePhrase.Proofs.Fallible

/-!
# Properties that composed patterns inherit

What holds of all parts of a sequence or a choice holds of its simplest form as well, if it can be
told part by part: no matter which sequences have been taken apart, which literals have become one,
or which members have been taken out of the alternatives.

* `IsHereditary`  such a property
* `IsHereditary.sequence`, `IsHereditary.choice`  composed patterns inherit it
* `sharedMembers_prefix`  what is taken out of alternatives
-/

namespace TimePhrase.Pattern

/-- A property that can be told part by part: of a sequence and of alternatives by their parts, and
    of a literal or a set by the pieces that it is put together from. -/
structure IsHereditary (P : Pattern → Prop) : Prop where
  empty : P .empty
  concat : ∀ {p q}, P (.concat p q) ↔ P p ∧ P q
  either : ∀ {p q}, P (.either p q) ↔ P p ∧ P q
  literal : ∀ {s t}, P (.literal s) → P (.literal t) → P (.literal (s ++ t))
  single : ∀ {c}, P (.literal [c]) → P (.char (.single c))
  unions : ∀ {ss}, (∀ s ∈ ss, P (.char s)) → P (ofSet (.unions ss))

/-! ## Shared members -/

theorem commonPrefix_prefix (l r : List Pattern) :
    commonPrefix l r <+: l ∧ commonPrefix l r <+: r := by
  induction l generalizing r with
  | nil => exact ⟨List.prefix_rfl, List.nil_prefix⟩
  | cons p l ih =>
    cases r with
    | nil => exact ⟨List.nil_prefix, List.prefix_rfl⟩
    | cons q r =>
      simp only [commonPrefix]
      split
      · rename_i heq
        subst heq
        simp only [List.cons_prefix_cons, true_and]
        exact ih r
      · exact ⟨List.nil_prefix, List.nil_prefix⟩

theorem foldl_commonPrefix_prefix (others : List (List Pattern)) (first : List Pattern) :
    ∀ l ∈ first :: others, others.foldl commonPrefix first <+: l := by
  induction others generalizing first with
  | nil => exact List.forall_mem_singleton.mpr List.prefix_rfl
  | cons l r ih =>
    obtain ⟨hcommon, hr⟩ := List.forall_mem_cons.mp (ih (commonPrefix first l))
    obtain ⟨hfirst, hl⟩ := commonPrefix_prefix first l
    refine List.forall_mem_cons.mpr ⟨hcommon.trans hfirst, ?_⟩
    exact List.forall_mem_cons.mpr ⟨hcommon.trans hl, hr⟩

theorem members_mem_of_mapM {l : List Pattern} {r : List (List Pattern)}
    (h : l.mapM members? = some r) : ∀ p ∈ l, p.members ∈ r := by
  rw [Option.mapM_eq_some_iff] at h
  induction h with
  | nil => exact nofun
  | cons hp _ ih =>
    refine List.forall_mem_cons.mpr ⟨?_, fun q hq => List.mem_cons_of_mem _ (ih q hq)⟩
    unfold members? at hp
    split at hp
    · obtain rfl := Option.some.inj hp
      exact List.mem_cons_self
    · exact nomatch hp

/-- Every alternative is a sequence that begins with the shared members. -/
theorem sharedMembers_prefix {l : List Pattern} : ∀ p ∈ l, sharedMembers l <+: p.members := by
  intro p hp
  unfold sharedMembers
  split
  · rename_i first others hmembers
    exact foldl_commonPrefix_prefix others first p.members (members_mem_of_mapM hmembers p hp)
  · exact List.nil_prefix

/-- The common set of alternatives unites their sets and the sets of their letters. -/
theorem exists_of_commonSet? {l : List Pattern} {s : CharSet} (h : commonSet? l = some s) :
    ∃ ss, s = .unions ss ∧
      ∀ t ∈ ss, .char t ∈ l ∨ ∃ c, .literal [c] ∈ l ∧ t = .single c := by
  unfold commonSet? at h
  split at h
  · rename_i sets hsets
    obtain rfl := Option.some.inj h
    refine ⟨sets, rfl, fun t ht => .inr ?_⟩
    obtain ⟨p, hp, hpt⟩ := Option.exists_of_mapM_eq_some hsets t ht
    unfold letter? at hpt
    split at hpt
    · rename_i c
      exact ⟨c, hp, (Option.some.inj hpt).symm⟩
    · exact nomatch hpt
  · obtain ⟨sets, hsets, rfl⟩ := Option.map_eq_some_iff.mp h
    refine ⟨sets, rfl, fun t ht => .inl ?_⟩
    obtain ⟨p, hp, hpt⟩ := Option.exists_of_mapM_eq_some hsets t ht
    unfold charSet? at hpt
    split at hpt
    · obtain rfl := Option.some.inj hpt
      exact hp
    · exact nomatch hpt

namespace IsHereditary

variable {P : Pattern → Prop} {p : Pattern} {l : List Pattern}

/-! ## Sequences -/

theorem membersBefore (hP : IsHereditary P) (hp : P p) (hl : ∀ q ∈ l, P q) :
    ∀ q ∈ p.membersBefore l, P q := by
  induction p generalizing l with
  | empty => exact hl
  | concat p q ihp _ =>
    obtain ⟨hp, hq⟩ := hP.concat.mp hp
    exact ihp hp (List.forall_mem_cons.mpr ⟨hq, hl⟩)
  | _ => exact List.forall_mem_cons.mpr ⟨hp, hl⟩

theorem members (hP : IsHereditary P) (hp : P p) : ∀ q ∈ p.members, P q :=
  hP.membersBefore hp nofun

theorem ofMembers (hP : IsHereditary P) (hl : ∀ p ∈ l, P p) : P (ofMembers l) := by
  have hfold : ∀ (r : List Pattern) (p : Pattern), P p → (∀ q ∈ r, P q) →
      P (r.foldl .concat p) := by
    intro r
    induction r with
    | nil => exact fun p hp _ => hp
    | cons q r ih =>
      intro p hp hr
      obtain ⟨hq, hr⟩ := List.forall_mem_cons.mp hr
      exact ih (.concat p q) (hP.concat.mpr ⟨hp, hq⟩) hr
  cases l with
  | nil => exact hP.empty
  | cons p r =>
    obtain ⟨hp, hr⟩ := List.forall_mem_cons.mp hl
    exact hfold r p hp hr

theorem consMember (hP : IsHereditary P) (hp : P p) (hl : ∀ q ∈ l, P q) :
    ∀ q ∈ consMember p l, P q := by
  unfold Pattern.consMember
  split
  · obtain ⟨hq, hr⟩ := List.forall_mem_cons.mp hl
    exact List.forall_mem_cons.mpr ⟨hP.literal hp hq, hr⟩
  · exact List.forall_mem_cons.mpr ⟨hp, hl⟩

theorem sequence (hP : IsHereditary P) (hl : ∀ p ∈ l, P p) : P (sequence l) := by
  have hfold : ∀ r : List Pattern, (∀ p ∈ r, P p) → ∀ p ∈ r.foldr Pattern.consMember [], P p := by
    intro r hr
    induction r with
    | nil => exact nofun
    | cons p r ih =>
      obtain ⟨hp, hr⟩ := List.forall_mem_cons.mp hr
      exact hP.consMember hp (ih hr)
  apply hP.ofMembers
  apply hfold
  intro p hp
  obtain ⟨q, hq, hpq⟩ := List.mem_flatMap.mp hp
  exact hP.members (hl q hq) p hpq

/-! ## Choices -/

theorem alternatives (hP : IsHereditary P) (hp : P p) : ∀ q ∈ p.alternatives, P q := by
  induction p with
  | either p q _ ihq =>
    obtain ⟨hp, hq⟩ := hP.either.mp hp
    exact List.forall_mem_cons.mpr ⟨hp, ihq hq⟩
  | _ => exact List.forall_mem_singleton.mpr hp

theorem none (hP : IsHereditary P) : P (.char .none) := by
  have hunions : P (ofSet (.unions [])) := hP.unions nofun
  exact hunions

theorem ofAlternatives (hP : IsHereditary P) (hl : ∀ p ∈ l, P p) : P (ofAlternatives l) := by
  induction l with
  | nil => exact hP.none
  | cons p r ih =>
    obtain ⟨hp, hr⟩ := List.forall_mem_cons.mp hl
    cases r with
    | nil => exact hp
    | cons q r => exact hP.either.mpr ⟨hp, ih hr⟩

theorem commonSet? (hP : IsHereditary P) (hl : ∀ p ∈ l, P p) {s : CharSet}
    (h : commonSet? l = some s) : P (ofSet s) := by
  obtain ⟨ss, rfl, hss⟩ := exists_of_commonSet? h
  refine hP.unions fun t ht => ?_
  rcases hss t ht with hmem | ⟨c, hmem, rfl⟩
  · exact hl _ hmem
  · exact hP.single (hl _ hmem)

theorem sharedMembers (hP : IsHereditary P) (hl : ∀ p ∈ l, P p) : ∀ m ∈ sharedMembers l, P m := by
  intro m hm
  cases l with
  | nil => exact absurd hm List.not_mem_nil
  | cons p r =>
    obtain ⟨hp, -⟩ := List.forall_mem_cons.mp hl
    have hpre := sharedMembers_prefix p (List.mem_cons_self (l := r))
    exact hP.members hp m (hpre.subset hm)

theorem chooseFrom (hP : IsHereditary P) {fuel : Nat} (hl : ∀ p ∈ l, P p) :
    P (chooseFrom fuel l) := by
  induction fuel generalizing l with
  | zero => exact hP.ofAlternatives hl
  | succ fuel ih =>
    have halts : ∀ q ∈ l.flatMap Pattern.alternatives, P q := by
      intro q hq
      obtain ⟨p, hp, hpq⟩ := List.mem_flatMap.mp hq
      exact hP.alternatives (hl p hp) q hpq
    rw [Pattern.chooseFrom]
    generalize l.flatMap Pattern.alternatives = l at halts ⊢
    split
    · exact hP.none
    · rename_i p
      exact halts p (List.mem_singleton_self p)
    · split
      · rename_i hset
        exact hP.commonSet? halts hset
      · split
        · exact hP.ofAlternatives halts
        · -- What is left of the alternatives after the shared members are members of them, too.
          apply hP.sequence
          refine List.forall_mem_append.mpr ⟨hP.sharedMembers halts, ?_⟩
          refine List.forall_mem_singleton.mpr (ih fun q hq => ?_)
          obtain ⟨p, hp, rfl⟩ := List.mem_map.mp hq
          apply hP.ofMembers
          intro m hm
          exact hP.members (halts p hp) m (List.mem_of_mem_drop hm)

theorem choice (hP : IsHereditary P) (hl : ∀ p ∈ l, P p) : P (choice l) := hP.chooseFrom hl

end IsHereditary

end TimePhrase.Pattern
