import Mathlib.Data.List.Perm.Basic

/-!
# Computations that can fail

What a successful computation says about its steps, and lists that are mapped by a computation that
can fail.
-/

namespace Except

variable {ε α β : Type}

@[simp] theorem pure_eq_ok {a b : α} : (pure a : Except ε α) = .ok b ↔ a = b := by
  simp [pure, Except.pure]

@[simp] theorem throw_ne_ok {e : ε} {a : α} : (throw e : Except ε α) ≠ .ok a := by
  simp [throw, throwThe, MonadExceptOf.throw]

/-- A computation succeeds if both of its steps do. -/
theorem bind_eq_ok {x : Except ε α} {f : α → Except ε β} {b : β} :
    (x >>= f) = .ok b ↔ ∃ a, x = .ok a ∧ f a = .ok b := by
  cases x with
  | error e => simp [bind, Except.bind]
  | ok a => simp [bind, Except.bind]

/-- A computation fails if one of its steps does, and no step before that has. -/
theorem bind_eq_error {x : Except ε α} {f : α → Except ε β} {e : ε} :
    (x >>= f) = .error e ↔ x = .error e ∨ ∃ a, x = .ok a ∧ f a = .error e := by
  cases x with
  | error e' => simp [bind, Except.bind]
  | ok a => simp [bind, Except.bind]

theorem map_eq_error {x : Except ε α} {f : α → β} {e : ε} : x.map f = .error e ↔ x = .error e := by
  cases x <;> simp [Except.map]

theorem map_eq_ok {x : Except ε α} {f : α → β} {b : β} :
    x.map f = .ok b ↔ ∃ a, x = .ok a ∧ f a = b := by
  cases x <;> simp [Except.map]

/-- All faults that a computation can end with satisfy `p`. -/
def FailsOnly (p : ε → Prop) (x : Except ε α) : Prop := ∀ e, x = .error e → p e

namespace FailsOnly

variable {p q : ε → Prop}

protected theorem ok (a : α) : FailsOnly p (.ok a : Except ε α) := by
  intro e h
  cases h

protected theorem error {e : ε} (h : p e) : FailsOnly p (.error e : Except ε α) := by
  intro e' he'
  rwa [← Except.error.inj he']

theorem mono {x : Except ε α} (hx : x.FailsOnly p) (h : ∀ e, p e → q e) : x.FailsOnly q :=
  fun e he => h e (hx e he)

theorem map {x : Except ε α} (hx : x.FailsOnly p) (f : α → β) : (x.map f).FailsOnly p :=
  fun e he => hx e (map_eq_error.mp he)

/-- What all faults of both steps satisfy. The second step is taken after a successful one. -/
theorem bind_of_ok {x : Except ε α} {f : α → Except ε β} (hx : x.FailsOnly p)
    (hf : ∀ a, x = .ok a → (f a).FailsOnly p) : (x >>= f).FailsOnly p := by
  intro e h
  rcases bind_eq_error.mp h with h | ⟨a, ha, h⟩
  · exact hx e h
  · exact hf a ha e h

theorem bind {x : Except ε α} {f : α → Except ε β} (hx : x.FailsOnly p)
    (hf : ∀ a, (f a).FailsOnly p) : (x >>= f).FailsOnly p :=
  hx.bind_of_ok fun a _ => hf a

end FailsOnly

theorem eq_ok_of_toOption {x : Except ε α} {a : α} (h : x.toOption = some a) : x = .ok a := by
  cases x with
  | error e => exact nomatch h
  | ok b => exact congrArg Except.ok (Option.some.inj h)

/-- Two functions that agree on the members of a list map it alike. -/
theorem mapM_congr {f g : α → Except ε β} {l : List α} (h : ∀ x ∈ l, f x = g x) :
    l.mapM f = l.mapM g := by
  induction l with
  | nil => rfl
  | cons x r ih =>
    have hr := ih fun y hy => h y (List.mem_cons_of_mem _ hy)
    rw [List.mapM_cons, List.mapM_cons, h x (List.mem_cons_self ..), hr]

/-- Undoing what was done to each element of a list gives the list back. -/
theorem mapM_map_eq_ok {f : β → Except ε α} {g : α → β} {l : List α}
    (h : ∀ a ∈ l, f (g a) = .ok a) : (l.map g).mapM f = .ok l := by
  induction l with
  | nil => rfl
  | cons a r ih =>
    rw [List.map_cons, List.mapM_cons, h a (List.mem_cons_self ..),
      ih fun b hb => h b (List.mem_cons_of_mem _ hb)]
    rfl

/-- The results stand for the members of the list, one for each. -/
theorem mapM_eq_ok_iff {f : α → Except ε β} {l : List α} {r : List β} :
    l.mapM f = .ok r ↔ List.Forall₂ (fun a b => f a = .ok b) l r := by
  induction l generalizing r with
  | nil =>
    rw [List.mapM_nil, pure_eq_ok, List.forall₂_nil_left_iff, eq_comm]
  | cons x l ih =>
    rw [List.mapM_cons, List.forall₂_cons_left_iff]
    constructor
    · intro h
      obtain ⟨b, hb, h⟩ := bind_eq_ok.mp h
      obtain ⟨bs, hbs, h⟩ := bind_eq_ok.mp h
      exact ⟨b, bs, hb, ih.mp hbs, (pure_eq_ok.mp h).symm⟩
    · rintro ⟨b, bs, hb, hbs, rfl⟩
      rw [hb, ih.mpr hbs]
      rfl

/-- A list in another order has the same results, in another order. -/
theorem mapM_perm {f : α → Except ε β} {l l' : List α} {r : List β} (h : l.Perm l')
    (hr : l.mapM f = .ok r) : ∃ r', l'.mapM f = .ok r' ∧ r'.Perm r := by
  obtain ⟨r', hr', hperm⟩ := List.perm_comp_forall₂ h.symm (mapM_eq_ok_iff.mp hr)
  exact ⟨r', mapM_eq_ok_iff.mpr hr', hperm⟩

/-- The results are those of the members of the list. -/
theorem mem_iff_of_mapM_eq_ok {f : α → Except ε β} {l : List α} {r : List β}
    (h : l.mapM f = .ok r) {b : β} : b ∈ r ↔ ∃ a ∈ l, f a = .ok b := by
  rw [mapM_eq_ok_iff] at h
  induction h with
  | nil => simp
  | cons hb _ ih => rw [List.mem_cons, List.exists_mem_cons_iff, ih, hb, Except.ok.injEq, eq_comm]

/-- Each result comes from a member of the list. -/
theorem exists_of_mapM_eq_ok {f : α → Except ε β} {l : List α} {r : List β}
    (h : l.mapM f = .ok r) : ∀ b ∈ r, ∃ a ∈ l, f a = .ok b :=
  fun _ hb => (mem_iff_of_mapM_eq_ok h).mp hb

/-- Each member of the list has a result. -/
theorem exists_result_of_mapM_eq_ok {f : α → Except ε β} {l : List α} {r : List β}
    (h : l.mapM f = .ok r) : ∀ a ∈ l, ∃ b, f a = .ok b := by
  rw [mapM_eq_ok_iff] at h
  induction h with
  | nil => simp
  | cons hb _ ih => exact List.forall_mem_cons.mpr ⟨⟨_, hb⟩, ih⟩

/-- A function that has the same results maps a list to the same. -/
theorem mapM_eq_ok_of_imp {f g : α → Except ε β} {l : List α} {r : List β}
    (h : ∀ a ∈ l, ∀ b, f a = .ok b → g a = .ok b) (hr : l.mapM f = .ok r) :
    l.mapM g = .ok r := by
  rw [mapM_eq_ok_iff] at hr ⊢
  induction hr with
  | nil => exact .nil
  | cons hb _ ih =>
    obtain ⟨ha, hl⟩ := List.forall_mem_cons.mp h
    exact .cons (ha _ hb) (ih hl)

/-- A fault comes from a member of the list. -/
theorem exists_of_mapM_eq_error {f : α → Except ε β} {l : List α} {e : ε}
    (h : l.mapM f = .error e) : ∃ a ∈ l, f a = .error e := by
  induction l with
  | nil =>
    rw [List.mapM_nil] at h
    exact nomatch h
  | cons x l ih =>
    rw [List.mapM_cons] at h
    rcases bind_eq_error.mp h with h | ⟨b, -, h⟩
    · exact ⟨x, List.mem_cons_self, h⟩
    · rcases bind_eq_error.mp h with h | ⟨bs, -, h⟩
      · obtain ⟨a, ha, hae⟩ := ih h
        exact ⟨a, List.mem_cons_of_mem x ha, hae⟩
      · exact nomatch h

theorem FailsOnly.mapM {p : ε → Prop} {f : α → Except ε β} {l : List α}
    (h : ∀ a ∈ l, (f a).FailsOnly p) : (l.mapM f).FailsOnly p := by
  intro e he
  obtain ⟨a, ha, hae⟩ := exists_of_mapM_eq_error he
  exact h a ha e hae

/-- If the results for a member of a list are kept or left out together, leaving out members comes
    to the same as leaving out their results. -/
theorem flatten_mapM_filter {f : α → Except ε (List β)} {p : β → Bool} {q : α → Bool}
    {l : List α} {found : List β} (h : (l.mapM f).map List.flatten = .ok found)
    (hp : ∀ a ∈ l, ∀ bs, f a = .ok bs → ∀ b ∈ bs, p b = q a) :
    ((l.filter q).mapM f).map List.flatten = .ok (found.filter p) := by
  obtain ⟨founds, hfounds, rfl⟩ := map_eq_ok.mp h
  clear h
  rw [mapM_eq_ok_iff] at hfounds
  simp only [map_eq_ok, mapM_eq_ok_iff]
  induction hfounds with
  | nil => exact ⟨[], .nil, rfl⟩
  | @cons a bs l founds ha _ ih =>
    obtain ⟨hfirst, hrest⟩ := List.forall_mem_cons.mp hp
    obtain ⟨kept, hkept, hflat⟩ := ih hrest
    rw [List.flatten_cons, List.filter_append, ← hflat]
    by_cases hq : q a = true
    · have hall : bs.filter p = bs :=
        List.filter_eq_self.mpr fun b hb => (hfirst bs ha b hb).trans hq
      rw [List.filter_cons_of_pos hq, hall]
      exact ⟨bs :: kept, .cons ha hkept, List.flatten_cons⟩
    · have hnone : bs.filter p = [] := by
        refine List.filter_eq_nil_iff.mpr fun b hb => ?_
        rwa [hfirst bs ha b hb]
      rw [List.filter_cons_of_neg hq, hnone]
      exact ⟨kept, hkept, rfl⟩

end Except

namespace Option

variable {α β : Type}

/-- The results stand for the members of the list, one for each. -/
theorem mapM_eq_some_iff {f : α → Option β} {l : List α} {r : List β} :
    l.mapM f = some r ↔ List.Forall₂ (fun a b => f a = some b) l r := by
  induction l generalizing r with
  | nil =>
    rw [List.mapM_nil, List.forall₂_nil_left_iff]
    exact Option.some_inj.trans eq_comm
  | cons x l ih =>
    rw [List.mapM_cons, List.forall₂_cons_left_iff]
    constructor
    · intro h
      obtain ⟨b, hb, h⟩ := Option.bind_eq_some_iff.mp h
      obtain ⟨bs, hbs, h⟩ := Option.bind_eq_some_iff.mp h
      exact ⟨b, bs, hb, ih.mp hbs, (Option.some.inj h).symm⟩
    · rintro ⟨b, bs, hb, hbs, rfl⟩
      rw [hb, ih.mpr hbs]
      rfl

/-- Each result comes from a member of the list. -/
theorem exists_of_mapM_eq_some {f : α → Option β} {l : List α} {r : List β}
    (h : l.mapM f = some r) : ∀ b ∈ r, ∃ a ∈ l, f a = some b := by
  rw [mapM_eq_some_iff] at h
  induction h with
  | nil => exact nofun
  | cons hb _ ih =>
    refine List.forall_mem_cons.mpr ⟨⟨_, List.mem_cons_self, hb⟩, fun c hc => ?_⟩
    obtain ⟨a, ha, hac⟩ := ih c hc
    exact ⟨a, List.mem_cons_of_mem _ ha, hac⟩

end Option
