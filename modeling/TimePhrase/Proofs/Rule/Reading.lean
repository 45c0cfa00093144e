import TimePhrase.Proofs.Fallible
import TimePhrase.Proofs.Text.Digits
import TimePhrase.Rule.Phrase

/-!
# What is read of a node

A node of a rule is read in one of a few ways, which are told once, so that nobody has to look into
the reader. Its group takes a number before those inside it, and so the numbers of all groups of a
phrase are different.

* `exists_of_ofNode`  the ways in which a node is read
* `IsInherited.of_ofNodes`  what holds of words and fragments and is inherited holds of all phrases
* `nodup_groups`  no number is given to two groups
-/

namespace TimePhrase.Phrase

variable {ruleId : Text} {fragments : Fragments}

/-! ## One node -/

/-- The body of a node and the number after those of the groups in it, where `first` is the number of
    the first of them. -/
inductive HasBody (ruleId : Text) (fragments : Fragments) (e : Element) (first : Nat) :
    Phrase → Nat → Prop
  | reference {body : Phrase} : e.name = "ruleref" → ofReference ruleId fragments e = .ok body →
      HasBody ruleId fragments e first body first
  | item {members : List Phrase} {after : Nat} : e.name = "item" →
      ofNodes ruleId fragments e.children first = .ok (members, after) →
      HasBody ruleId fragments e first (.sequence members) after
  | oneOf {members : List Phrase} {after : Nat} : e.name = "one-of" → members ≠ [] →
      ofNodes ruleId fragments e.children first = .ok (members, after) →
      HasBody ruleId fragments e first (.choice members) after

/-- What a node with a body contributes. -/
def contributed (next : Nat) (mark : Mark) (body : Phrase) : Option Phrase :=
  if mark.isPlain then
    match body with
    | .sequence [] => none
    | body => some body
  else some (.group next mark body)

theorem isStructural_iff {name : Text} : isStructural name = true ↔
    name = ("item" : Text) ∨ name = ("one-of" : Text) ∨ name = ("ruleref" : Text) := by
  simp only [isStructural, decide_eq_true_eq]

theorem eq_contributed_of_ok {next after after' : Nat} {mark : Mark} {body : Phrase}
    {p : Option Phrase}
    (h : (if mark.isPlain then
        match body with
        | .sequence [] => pure (none, after')
        | body => pure (some body, after')
      else pure (some (.group next mark body), after') :
        Except LoadError (Option Phrase × Nat)) = .ok (p, after)) :
    after' = after ∧ contributed next mark body = p := by
  unfold contributed
  split at h
  · rename_i hplain
    rw [if_pos hplain]
    split at h
    all_goals
      obtain ⟨rfl, rfl⟩ := Prod.mk.inj (Except.pure_eq_ok.mp h)
      exact ⟨rfl, rfl⟩
  · rename_i hplain
    rw [if_neg hplain]
    obtain ⟨rfl, rfl⟩ := Prod.mk.inj (Except.pure_eq_ok.mp h)
    exact ⟨rfl, rfl⟩

/-- An element contributes nothing, or it has a mark and a body. -/
theorem exists_of_ofNode {name : Text} {attributes : Dictionary} {children : List Node}
    {next after : Nat} {p : Option Phrase}
    (h : ofNode ruleId fragments (.element name attributes children) next = .ok (p, after)) :
    (isStructural name = false ∧ p = none ∧ after = next) ∨
      (isStructural name = true ∧ ∃ mark body,
        Mark.ofElement? ruleId ⟨name, attributes, children⟩ = .ok mark ∧
        HasBody ruleId fragments ⟨name, attributes, children⟩
          (if mark.isPlain then next else next + 1) body after ∧
        p = contributed next mark body) := by
  simp only [ofNode] at h
  by_cases hs : isStructural name = true
  · refine .inr ⟨hs, ?_⟩
    rw [hs] at h
    simp only [Bool.not_true, Bool.false_eq_true, if_false] at h
    obtain ⟨mark, hmark, h⟩ := Except.bind_eq_ok.mp h
    refine ⟨mark, ?_⟩
    split at h
    · rename_i hname
      obtain ⟨body, hbody, h⟩ := Except.bind_eq_ok.mp h
      obtain ⟨rfl, rfl⟩ := eq_contributed_of_ok h
      exact ⟨body, hmark, .reference hname hbody, rfl⟩
    · rename_i href
      obtain ⟨⟨members, after'⟩, hmembers, h⟩ := Except.bind_eq_ok.mp h
      split at h
      · rename_i hitem
        obtain ⟨rfl, rfl⟩ := eq_contributed_of_ok h
        exact ⟨.sequence members, hmark, .item hitem hmembers, rfl⟩
      · rename_i hitem
        split at h
        · obtain ⟨_, hthrow, -⟩ := Except.bind_eq_ok.mp h
          exact absurd hthrow Except.throw_ne_ok
        · rename_i hne
          obtain ⟨rfl, rfl⟩ := eq_contributed_of_ok h
          have hname := ((isStructural_iff.mp hs).resolve_left hitem).resolve_right href
          exact ⟨.choice members, hmark, .oneOf hname (by simpa using hne) hmembers, rfl⟩
  · rw [Bool.not_eq_true] at hs
    rw [hs] at h
    simp only [Bool.not_false, if_true] at h
    obtain ⟨rfl, rfl⟩ := Prod.mk.inj (Except.ok.inj h)
    exact .inl ⟨hs, rfl, rfl⟩

theorem exists_of_ofNodes_cons {n : Node} {r : List Node} {next after : Nat} {ps : List Phrase}
    (h : ofNodes ruleId fragments (n :: r) next = .ok (ps, after)) :
    ∃ p mid qs, ofNode ruleId fragments n next = .ok (p, mid) ∧
      ofNodes ruleId fragments r mid = .ok (qs, after) ∧ ps = p.toList ++ qs := by
  simp only [ofNodes] at h
  obtain ⟨⟨p, mid⟩, hp, h⟩ := Except.bind_eq_ok.mp h
  obtain ⟨⟨qs, after'⟩, hqs, h⟩ := Except.bind_eq_ok.mp h
  obtain ⟨rfl, rfl⟩ := Prod.mk.inj (Except.pure_eq_ok.mp h)
  exact ⟨p, mid, qs, hp, hqs, rfl⟩

theorem exists_of_ofChildren {children : List Node} {p : Phrase}
    (h : ofChildren ruleId fragments children = .ok p) :
    ∃ members after, ofNodes ruleId fragments children 0 = .ok (members, after) ∧
      members ≠ [] ∧ p = .sequence members := by
  unfold ofChildren at h
  obtain ⟨⟨members, after⟩, hmembers, h⟩ := Except.bind_eq_ok.mp h
  refine ⟨members, after, hmembers, ?_⟩
  by_cases hnil : members = []
  · simp only [hnil, List.isEmpty_nil, if_true] at h
    obtain ⟨_, hthrow, -⟩ := Except.bind_eq_ok.mp h
    exact absurd hthrow Except.throw_ne_ok
  · have hne : members.isEmpty = false := by simpa using hnil
    simp only [hne, Bool.false_eq_true, if_false] at h
    exact ⟨hnil, (Except.pure_eq_ok.mp h).symm⟩

theorem exists_of_ofReference {e : Element} {body : Phrase}
    (h : ofReference ruleId fragments e = .ok body) :
    ∃ f ∈ fragments, body = .fragment f.expression := by
  unfold ofReference at h
  split at h
  · exact nomatch h
  · simp only at h
    split at h
    · rename_i f hf
      exact ⟨f, List.mem_of_find?_eq_some hf, (Except.ok.inj h).symm⟩
    · exact nomatch h

/-! ## Inherited properties -/

/-- A property of words and of the fragments at hand that phrases inherit from their parts. -/
structure IsInherited (fragments : Fragments) (P : Phrase → Prop) : Prop where
  words : ∀ ws, P (.words ws)
  fragment : ∀ f ∈ fragments, P (.fragment f.expression)
  sequence : ∀ ps, (∀ p ∈ ps, P p) → P (.sequence ps)
  choice : ∀ ps, (∀ p ∈ ps, P p) → P (.choice ps)
  group : ∀ part mark body, P body → P (.group part mark body)

section IsInherited

variable {P : Phrase → Prop}

theorem IsInherited.contributed (hP : IsInherited fragments P) {next : Nat} {mark : Mark}
    {body : Phrase} (hbody : P body) : ∀ q ∈ (contributed next mark body).toList, P q := by
  unfold Phrase.contributed
  split
  · split
    · exact nofun
    · exact List.forall_mem_singleton.mpr hbody
  · exact List.forall_mem_singleton.mpr (hP.group next mark body hbody)

mutual

/-- A property that is inherited holds of what a node contributes. -/
theorem IsInherited.of_ofNode (hP : IsInherited fragments P) {n : Node} {next after : Nat}
    {p : Option Phrase} (h : ofNode ruleId fragments n next = .ok (p, after)) :
    ∀ q ∈ p.toList, P q := by
  match n with
  | .text content =>
    obtain ⟨rfl, rfl⟩ := Prod.mk.inj (Except.ok.inj h)
    unfold ofText?
    split
    · exact nofun
    · exact List.forall_mem_singleton.mpr (hP.words _)
  | .element name attributes children =>
    rcases exists_of_ofNode h with ⟨-, rfl, rfl⟩ | ⟨-, mark, body, -, hbody, rfl⟩
    · exact nofun
    · apply hP.contributed
      cases hbody with
      | reference _ hb =>
        obtain ⟨f, hf, rfl⟩ := exists_of_ofReference hb
        exact hP.fragment f hf
      | item _ hmembers => exact hP.sequence _ (IsInherited.of_ofNodes hP hmembers)
      | oneOf _ _ hmembers => exact hP.choice _ (IsInherited.of_ofNodes hP hmembers)

/-- So it does of what the nodes of a list contribute. -/
theorem IsInherited.of_ofNodes (hP : IsInherited fragments P) {ns : List Node} {next after : Nat}
    {ps : List Phrase} (h : ofNodes ruleId fragments ns next = .ok (ps, after)) :
    ∀ q ∈ ps, P q := by
  match ns with
  | [] =>
    obtain ⟨rfl, rfl⟩ := Prod.mk.inj (Except.ok.inj h)
    exact nofun
  | n :: r =>
    obtain ⟨p, mid, qs, hp, hqs, rfl⟩ := exists_of_ofNodes_cons h
    exact List.forall_mem_append.mpr
      ⟨IsInherited.of_ofNode hP hp, IsInherited.of_ofNodes hP hqs⟩

end

theorem IsInherited.of_ofChildren (hP : IsInherited fragments P) {children : List Node} {p : Phrase}
    (h : ofChildren ruleId fragments children = .ok p) : P p := by
  obtain ⟨members, after, hmembers, -, rfl⟩ := exists_of_ofChildren h
  exact hP.sequence members (hP.of_ofNodes hmembers)

end IsInherited

/-! ## Numbers of groups -/

/-- Groups that have taken numbers from `next` on, before the number `after`, each of them once. -/
structure Numbered (next after : Nat) (gs : List (Nat × Mark)) : Prop where
  le : next ≤ after
  bounds : ∀ g ∈ gs, next ≤ g.1 ∧ g.1 < after
  nodup : (gs.map Prod.fst).Nodup

namespace Numbered

variable {next mid after : Nat} {gs hs : List (Nat × Mark)}

theorem nil (next : Nat) : Numbered next next [] := ⟨Nat.le_refl next, by simp, List.nodup_nil⟩

theorem append (hg : Numbered next mid gs) (hh : Numbered mid after hs) :
    Numbered next after (gs ++ hs) := by
  have hle₁ := hg.le
  have hle₂ := hh.le
  refine ⟨Nat.le_trans hle₁ hle₂, fun g hmem => ?_, ?_⟩
  · rcases List.mem_append.mp hmem with hmem | hmem
    · have := hg.bounds g hmem
      omega
    · have := hh.bounds g hmem
      omega
  · rw [List.map_append, List.nodup_append]
    refine ⟨hg.nodup, hh.nodup, fun a ha b hb => ?_⟩
    obtain ⟨x, hx, rfl⟩ := List.mem_map.mp ha
    obtain ⟨y, hy, rfl⟩ := List.mem_map.mp hb
    have := hg.bounds x hx
    have := hh.bounds y hy
    omega

/-- The group of a node has the number before those inside it. -/
theorem group (mark : Mark) (h : Numbered (next + 1) after gs) :
    Numbered next after (gs ++ [(next, mark)]) := by
  have hle := h.le
  refine ⟨by omega, fun g hmem => ?_, ?_⟩
  · rcases List.mem_append.mp hmem with hmem | hmem
    · have := h.bounds g hmem
      omega
    · obtain rfl := List.mem_singleton.mp hmem
      exact ⟨Nat.le_refl next, by omega⟩
  · rw [List.map_append, List.nodup_append]
    refine ⟨h.nodup, by simp, fun a ha b hb => ?_⟩
    obtain ⟨x, hx, rfl⟩ := List.mem_map.mp ha
    obtain rfl : b = next := by simpa using hb
    have := h.bounds x hx
    omega

end Numbered

theorem groupsOf_append (ps qs : List Phrase) : groupsOf (ps ++ qs) = groupsOf ps ++ groupsOf qs := by
  induction ps with
  | nil => rfl
  | cons p r ih => simp only [List.cons_append, groupsOf, ih, List.append_assoc]

theorem numbered_contributed {next after : Nat} {mark : Mark} {body : Phrase}
    (h : Numbered (if mark.isPlain then next else next + 1) after body.groups) :
    Numbered next after (groupsOf (contributed next mark body).toList) := by
  unfold contributed
  split at h
  · rename_i hplain
    rw [if_pos hplain]
    split
    · exact h
    · simpa only [Option.toList_some, groupsOf, List.append_nil] using h
  · rename_i hplain
    rw [if_neg hplain]
    simpa only [Option.toList_some, groupsOf, groups, List.append_nil] using h.group mark

theorem groups_of_ofReference {e : Element} {body : Phrase}
    (h : ofReference ruleId fragments e = .ok body) : body.groups = [] := by
  obtain ⟨f, -, rfl⟩ := exists_of_ofReference h
  rfl

mutual

theorem numbered_of_ofNode {n : Node} {next after : Nat} {p : Option Phrase}
    (h : ofNode ruleId fragments n next = .ok (p, after)) :
    Numbered next after (groupsOf p.toList) := by
  match n with
  | .text content =>
    obtain ⟨rfl, rfl⟩ := Prod.mk.inj (Except.ok.inj h)
    unfold ofText?
    split <;> exact Numbered.nil next
  | .element name attributes children =>
    rcases exists_of_ofNode h with ⟨-, rfl, rfl⟩ | ⟨-, mark, body, -, hbody, rfl⟩
    · exact Numbered.nil after
    · refine numbered_contributed ?_
      cases hbody with
      | reference _ hb =>
        rw [groups_of_ofReference hb]
        exact Numbered.nil _
      | item _ hmembers => exact numbered_of_ofNodes hmembers
      | oneOf _ _ hmembers => exact numbered_of_ofNodes hmembers

theorem numbered_of_ofNodes {ns : List Node} {next after : Nat} {ps : List Phrase}
    (h : ofNodes ruleId fragments ns next = .ok (ps, after)) :
    Numbered next after (groupsOf ps) := by
  match ns with
  | [] =>
    obtain ⟨rfl, rfl⟩ := Prod.mk.inj (Except.ok.inj h)
    exact Numbered.nil next
  | n :: r =>
    obtain ⟨p, mid, qs, hp, hqs, rfl⟩ := exists_of_ofNodes_cons h
    rw [groupsOf_append]
    exact (numbered_of_ofNode hp).append (numbered_of_ofNodes hqs)

end

/-- No number is given to two groups of a phrase. -/
theorem nodup_groups {children : List Node} {p : Phrase}
    (h : ofChildren ruleId fragments children = .ok p) : (p.groups.map Prod.fst).Nodup := by
  obtain ⟨members, after, hmembers, -, rfl⟩ := exists_of_ofChildren h
  exact (numbered_of_ofNodes hmembers).nodup

/-- Where some marks say something, it is said of groups in the order of the groups. -/
theorem map_fst_filterMap_sublist {α : Type} (f : Mark → Option α) (gs : List (Nat × Mark)) :
    ((gs.filterMap fun g => (f g.2).map (g.1, ·)).map Prod.fst).Sublist (gs.map Prod.fst) := by
  induction gs with
  | nil => exact List.Sublist.refl _
  | cons g r ih =>
    rw [List.filterMap_cons]
    cases f g.2 with
    | none => exact ih.cons g.1
    | some source => exact ih.cons_cons g.1

/-- The tags of a phrase belong to different groups. -/
theorem nodup_tags {children : List Node} {p : Phrase}
    (h : ofChildren ruleId fragments children = .ok p) : (p.tags.map Prod.fst).Nodup :=
  (nodup_groups h).sublist (map_fst_filterMap_sublist Mark.tag p.groups)

end TimePhrase.Phrase
