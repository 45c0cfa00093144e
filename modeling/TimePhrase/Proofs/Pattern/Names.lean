import Mathlib.Data.List.Flatten
import TimePhrase.Pattern.Reader
import TimePhrase.Proofs.Pattern.Hereditary
import TimePhrase.Proofs.Pattern.Reach

/-!
# The names of groups

The reader refuses a name that comes a second time, and the simplest form of a pattern has no more
groups than the written one. So a pattern that has been read has different names for its groups, and
what is captured under a name comes from one place of the pattern.

* `names`  the names of the groups in a pattern
* `nodup_names_of_read?`  no name is given to two groups
* `exists_leads_of_mem_ends`  what is captured on the way has one of the names
-/

namespace TimePhrase.Pattern

open Text (byteSize)

/-- The names of the groups in a pattern. -/
def names : Pattern → List Text
  | .empty | .literal _ | .char _ | .assertion _ => []
  | .group _ name p => name.toList ++ p.names
  | .concat p q => p.names ++ q.names
  | .either p q => p.names ++ q.names
  | .repetition p _ _ _ => p.names

/-- The names of the groups in patterns, one pattern after the other. -/
def namesOf (l : List Pattern) : List Text := l.flatMap names

theorem namesOf_cons (p : Pattern) (l : List Pattern) : namesOf (p :: l) = p.names ++ namesOf l :=
  List.flatMap_cons

theorem namesOf_append (l r : List Pattern) : namesOf (l ++ r) = namesOf l ++ namesOf r :=
  List.flatMap_append

theorem namesOf_singleton (p : Pattern) : namesOf [p] = p.names := List.flatMap_singleton ..

/-! ## Sequences -/

theorem namesOf_membersBefore (p : Pattern) (l : List Pattern) :
    namesOf (p.membersBefore l) = p.names ++ namesOf l := by
  induction p generalizing l with
  | concat p q ihp _ =>
    rw [membersBefore, ihp, namesOf_cons, ← List.append_assoc]
    rfl
  | _ => rfl

theorem namesOf_members (p : Pattern) : namesOf p.members = p.names := by
  rw [members, namesOf_membersBefore]
  exact List.append_nil _

theorem names_ofMembers (l : List Pattern) : (ofMembers l).names = namesOf l := by
  have hfold : ∀ (r : List Pattern) (p : Pattern),
      (r.foldl .concat p).names = p.names ++ namesOf r := by
    intro r
    induction r with
    | nil => exact fun p => (List.append_nil _).symm
    | cons q r ih =>
      intro p
      rw [List.foldl_cons, ih, namesOf_cons, ← List.append_assoc]
      rfl
  cases l with
  | nil => rfl
  | cons p r => exact hfold r p

theorem names_sequence (l : List Pattern) : (sequence l).names = namesOf l := by
  have hcons (p : Pattern) (l : List Pattern) :
      namesOf (consMember p l) = p.names ++ namesOf l := by
    unfold consMember
    split <;> rfl
  have hfold : ∀ r : List Pattern, namesOf (r.foldr consMember []) = namesOf r := by
    intro r
    induction r with
    | nil => rfl
    | cons p r ih => rw [List.foldr_cons, hcons, ih, namesOf_cons]
  rw [sequence, names_ofMembers, hfold]
  induction l with
  | nil => rfl
  | cons p l ih => rw [List.flatMap_cons, namesOf_append, namesOf_members, ih, namesOf_cons]

/-! ## Choices -/

theorem namesOf_alternatives (p : Pattern) : namesOf p.alternatives = p.names := by
  induction p with
  | either p q _ ihq =>
    rw [alternatives, namesOf_cons, ihq]
    rfl
  | _ => exact namesOf_singleton _

theorem names_ofAlternatives (l : List Pattern) : (ofAlternatives l).names = namesOf l := by
  induction l with
  | nil => rfl
  | cons p r ih =>
    cases r with
    | nil => exact (namesOf_singleton p).symm
    | cons q r =>
      rw [namesOf_cons, ← ih]
      rfl

@[simp] theorem names_ofSet (s : CharSet) : (ofSet s).names = [] := by
  unfold ofSet
  split <;> rfl

/-- Dropping members drops names. -/
theorem sublist_namesOf_drop (n : Nat) (l : List Pattern) :
    (namesOf (l.map fun p => ofMembers (p.members.drop n))).Sublist (namesOf l) := by
  rw [namesOf, List.flatMap_map]
  refine List.Sublist.flatMap_right l fun p _ => ?_
  rw [names_ofMembers, ← namesOf_members p]
  exact (List.drop_sublist n p.members).flatMap names

/-- Members that are shared by all alternatives have their names only once in a choice. -/
theorem sublist_namesOf_shared {shared l : List Pattern} (hne : l ≠ [])
    (h : ∀ p ∈ l, shared <+: p.members) :
    (namesOf shared ++ namesOf (l.map fun p => ofMembers (p.members.drop shared.length))).Sublist
      (namesOf l) := by
  cases l with
  | nil => exact absurd rfl hne
  | cons p r =>
    have hp := h p List.mem_cons_self
    have hmembers : p.names = namesOf shared ++ namesOf (p.members.drop shared.length) := by
      rw [← namesOf_append, List.prefix_iff_eq_append.mp hp, namesOf_members]
    -- The first alternative keeps the shared members, and the others lose theirs.
    rw [List.map_cons, namesOf_cons, namesOf_cons, names_ofMembers, hmembers, List.append_assoc]
    exact ((sublist_namesOf_drop shared.length r).append_left _).append_left _

theorem names_chooseFrom (fuel : Nat) (l : List Pattern) :
    (chooseFrom fuel l).names.Sublist (namesOf l) := by
  induction fuel generalizing l with
  | zero =>
    rw [chooseFrom, names_ofAlternatives]
  | succ fuel ih =>
    have halts : namesOf (l.flatMap alternatives) = namesOf l := by
      induction l with
      | nil => rfl
      | cons p r ihl =>
        rw [List.flatMap_cons, namesOf_append, namesOf_alternatives, ihl, namesOf_cons]
    rw [chooseFrom, ← halts]
    generalize l.flatMap alternatives = l
    split
    · exact List.nil_sublist _
    · rw [namesOf_singleton]
    · rename_i hne _
      split
      · rw [names_ofSet]
        exact List.nil_sublist _
      · split
        · rw [names_ofAlternatives]
        · rw [names_sequence, namesOf_append, namesOf_singleton]
          refine ((ih _).append_left _).trans (sublist_namesOf_shared ?_ sharedMembers_prefix)
          exact fun h => hne h

theorem names_choice (l : List Pattern) : (choice l).names.Sublist (namesOf l) :=
  names_chooseFrom _ l

theorem names_repeated (p : Pattern) (least : Nat) (most : Option Nat) (greedy : Bool) :
    (p.repeated least most greedy).names.Sublist p.names := by
  have hcases (least : Nat) (most : Option Nat) :
      (if least = 0 ∧ most = some 0 then Pattern.empty else
        if least = 1 ∧ most = some 1 then p else
          .repetition p least most greedy).names.Sublist p.names := by
    split
    · exact List.nil_sublist _
    · split <;> exact List.Sublist.refl _
  exact hcases _ _

/-! ## Reading -/

theorem names_of_readAtom [PropertyTable] {flags : Flags} {s r : Text} {w : Written}
    (h : readAtom flags s = some (w, r)) : w.pattern.names = [] := by
  have hletter (c : Char) : (letter flags c).names = [] := by
    unfold letter
    split <;> rfl
  unfold readAtom at h
  split at h
  · exact nomatch h
  · split at h
    · obtain ⟨rfl, -⟩ := Prod.mk.inj (Option.some.inj h)
      exact hletter _
    · obtain ⟨rfl, -⟩ := Prod.mk.inj (Option.some.inj h)
      exact names_ofSet _
    · obtain ⟨rfl, -⟩ := Prod.mk.inj (Option.some.inj h)
      rfl
    · exact nomatch h
  · obtain ⟨⟨b, r'⟩, -, hb⟩ := Option.map_eq_some_iff.mp h
    obtain ⟨rfl, -⟩ := Prod.mk.inj hb
    exact names_ofSet _
  · obtain ⟨set, -, hset⟩ := Option.map_eq_some_iff.mp h
    obtain ⟨rfl, -⟩ := Prod.mk.inj hset
    rfl
  · obtain ⟨rfl, -⟩ := Prod.mk.inj (Option.some.inj h)
    rfl
  · obtain ⟨rfl, -⟩ := Prod.mk.inj (Option.some.inj h)
    rfl
  · obtain ⟨rfl, -⟩ := Prod.mk.inj (Option.some.inj h)
    exact hletter _

theorem names_of_readRepetitions {flags : Flags} {fuel : Nat} {w x : Written} {s r : Text}
    (h : readRepetitions flags fuel w s = some (x, r)) :
    x.pattern.names.Sublist w.pattern.names := by
  induction fuel generalizing w s with
  | zero =>
    obtain ⟨rfl, -⟩ := Prod.mk.inj (Option.some.inj h)
    exact List.Sublist.refl _
  | succ fuel ih =>
    simp only [readRepetitions] at h
    split at h
    · exact nomatch h
    · obtain ⟨rfl, -⟩ := Prod.mk.inj (Option.some.inj h)
      exact List.Sublist.refl _
    · exact (ih h).trans (names_repeated ..)

/-- The names of the groups in what has been read of a body. -/
def Body.names (b : Body) : List Text :=
  namesOf ((b.alternatives.reverse ++ b.members.reverse).map Written.pattern)

theorem Body.names_add (b : Body) (w : Written) : (b.add w).names = b.names ++ w.pattern.names := by
  simp [Body.names, Body.add, namesOf]

theorem Body.names_close (b : Body) : b.close.names = b.names := by
  simp [Body.names, Body.close, namesOf_append, namesOf_singleton, Written.sequence,
    names_sequence]

theorem Body.names_value (b : Body) : b.value.pattern.names.Sublist b.names := by
  rw [← b.names_close]
  simpa [Body.names, Body.close, Body.value, Written.choice] using
    names_choice (b.close.alternatives.reverse.map Written.pattern)

/-- Names that have come up between two times of reading, each of them once. -/
structure Fresh (old new names : List Text) : Prop where
  nodup : names.Nodup
  subset : old ⊆ new
  known : names ⊆ new
  disjoint : ∀ n ∈ names, n ∉ old

namespace Fresh

variable {a b c ns ms : List Text}

theorem nil (a : List Text) : Fresh a a [] := ⟨List.nodup_nil, fun _ h => h, nofun, nofun⟩

theorem append (hn : Fresh a b ns) (hm : Fresh b c ms) : Fresh a c (ns ++ ms) where
  nodup := by
    refine List.nodup_append.mpr ⟨hn.nodup, hm.nodup, ?_⟩
    rintro n hns _ hms rfl
    exact hm.disjoint n hms (hn.known hns)
  subset := fun _ h => hm.subset (hn.subset h)
  known := List.append_subset.mpr ⟨fun _ h => hm.subset (hn.known h), hm.known⟩
  disjoint := by
    refine List.forall_mem_append.mpr ⟨hn.disjoint, fun n hms hold => ?_⟩
    exact hm.disjoint n hms (hn.subset hold)

theorem sublist (h : Fresh a b ns) (hsub : ms.Sublist ns) : Fresh a b ms :=
  ⟨h.nodup.sublist hsub, h.subset, fun _ hm => h.known (hsub.subset hm),
    fun n hm => h.disjoint n (hsub.subset hm)⟩

theorem of_add? {groups inside : Groups} {name : Option Text} (h : groups.add? name = some inside) :
    Fresh groups.names inside.names name.toList := by
  unfold Groups.add? at h
  split at h
  · exact nomatch h
  · rename_i hnew
    obtain rfl := Option.some.inj h
    cases name with
    | none => exact nil groups.names
    | some n =>
      refine ⟨List.pairwise_singleton _ n, List.subset_append_right _ _,
        List.subset_append_left _ _, ?_⟩
      refine List.forall_mem_singleton.mpr fun hmem => hnew ?_
      simpa using hmem

end Fresh

/-- What is read of a body adds fresh names only. -/
theorem fresh_of_readBody [PropertyTable] {fuel : Nat} {flags : Flags} {groups groups' : Groups}
    {s r : Text} {w : Written} {old : List Text}
    (h : readBody fuel flags groups body s = some (w, groups', r))
    (hbody : Fresh old groups.names body.names) : Fresh old groups'.names w.pattern.names := by
  induction fuel generalizing flags groups groups' body s r w old with
  | zero => exact nomatch h
  | succ fuel ih =>
    -- A member with fresh names comes after those that there are.
    have hmember {groups' : Groups} {p : Pattern} {depth : Nat} {x : Written} {t t' : Text}
        (hsigns : readRepetitions flags fuel ⟨p, depth⟩ t = some (x, t'))
        (hp : Fresh groups.names groups'.names p.names) :
        Fresh old groups'.names (body.add x).names := by
      rw [Body.names_add]
      exact hbody.append (hp.sublist (names_of_readRepetitions hsigns))
    simp only [readBody] at h
    split at h
    · obtain ⟨rfl, rfl, -⟩ : _ ∧ _ ∧ _ := by simpa using h
      exact hbody.sublist body.names_value
    · obtain ⟨rfl, rfl, -⟩ : _ ∧ _ ∧ _ := by simpa using h
      exact hbody.sublist body.names_value
    · refine ih h ?_
      rw [Body.names_close]
      exact hbody
    · exact nomatch h
    · exact nomatch h
    · exact nomatch h
    · exact nomatch h
    · split at h
      · exact nomatch h
      · refine ih h ?_
        rw [Body.names_add]
        exact hbody.append (.nil groups.names)
      · split at h
        · rename_i hinner
          split at h
          · rename_i hsigns
            exact ih h (hmember hsigns (ih hinner (.nil groups.names)))
          · exact nomatch h
        · exact nomatch h
      · split at h
        · exact nomatch h
        · rename_i hinside
          split at h
          · rename_i hinner
            split at h
            · rename_i hsigns
              -- The name of the group comes before those inside it.
              have hgroup := (Fresh.of_add? hinside).append (ih hinner (.nil _))
              exact ih h (hmember hsigns hgroup)
            · exact nomatch h
          · exact nomatch h
    · split at h
      · exact nomatch h
      · rename_i hatom
        split at h
        · rename_i hsigns
          refine ih h (hmember hsigns ?_)
          rw [names_of_readAtom hatom]
          exact .nil groups.names
        · exact nomatch h

/-- No name is given to two groups of a pattern. -/
theorem nodup_names_of_read? [PropertyTable] {caseless : Bool} {s : Text} {p : Pattern}
    (h : read? caseless s = some p) : p.names.Nodup := by
  unfold read? at h
  split at h
  · rename_i hread
    split at h
    · obtain rfl := Option.some.inj h
      exact (fresh_of_readBody hread (.nil _)).nodup
    · exact nomatch h
  · exact nomatch h

/-! ## Captures -/

/-- From `s` the cursor `t` is reached over the characters `w`, and what groups with some of the
    names have captured on the way is `new`. -/
structure Leads (names : List Text) (s : Cursor) (w : Text) (new : List (Text × Span))
    (t : Cursor) : Prop where
  rest : s.rest = w ++ t.rest
  byte : t.byte = s.byte + byteSize w
  captures : t.captures = new ++ s.captures
  named : ∀ e ∈ new, e.1 ∈ names

namespace Leads

variable {names names' : List Text} {s t u : Cursor} {v w : Text} {new more : List (Text × Span)}

theorem refl (names : List Text) (s : Cursor) : Leads names s [] [] s := ⟨rfl, rfl, rfl, nofun⟩

theorem trans (h : Leads names s w new t) (h' : Leads names t v more u) :
    Leads names s (w ++ v) (more ++ new) u where
  rest := by rw [h.rest, h'.rest, List.append_assoc]
  byte := by rw [h'.byte, h.byte, Text.byteSize_append, Nat.add_assoc]
  captures := by rw [h'.captures, h.captures, List.append_assoc]
  named := List.forall_mem_append.mpr ⟨h'.named, h.named⟩

theorem mono (h : Leads names s w new t) (hsub : names ⊆ names') : Leads names' s w new t :=
  { h with named := fun e he => hsub (h.named e he) }

/-- The trail does not matter. -/
theorem trail {a b : Option (List Nat)} (h : Leads names { s with trail := a } w new t) :
    Leads names s w new { t with trail := b } := ⟨h.rest, h.byte, h.captures, h.named⟩

theorem next (h : s.next? = some t) : ∃ c, s.rest.head? = some c ∧ Leads names s [c] [] t := by
  obtain ⟨c, r, hr, rfl⟩ := next?_eq_some.mp h
  exact ⟨c, by rw [hr, List.head?_cons], hr, by simp, rfl, nofun⟩

theorem pass (h : s.pass? w = some t) : Leads names s w [] t := by
  induction w generalizing s with
  | nil =>
    obtain rfl := Option.some.inj h
    exact refl names s
  | cons c r ih =>
    simp only [Cursor.pass?] at h
    split at h
    · rename_i hc
      obtain ⟨u, hu, h⟩ := Option.bind_eq_some_iff.mp h
      obtain ⟨d, hd, hnext⟩ : ∃ d, s.rest.head? = some d ∧ Leads names s [d] [] u := next hu
      obtain rfl : c = d := Option.some.inj (hc.symm.trans hd)
      exact hnext.trans (ih h)
    · cases h

theorem capture (h : Leads names s w new t) (n : Text) :
    Leads (n :: names) s w ((n, .between s.byte t.byte) :: new) (t.capture (some n) s.byte) where
  rest := h.rest
  byte := h.byte
  captures := congrArg ((n, Span.between s.byte t.byte) :: ·) h.captures
  named := by
    refine List.forall_mem_cons.mpr ⟨List.mem_cons_self, fun e he => ?_⟩
    exact List.mem_cons_of_mem n (h.named e he)

end Leads

/-- Iterations can follow each other, if nothing more is asked than that the characters are of some
    kind. -/
theorem isWay_leads (names : List Text) (ok : Char → Prop) :
    IsWay fun s t => ∃ w new, Leads names s w new t ∧ ∀ c ∈ w, ok c where
  refl s := ⟨[], [], .refl names s, nofun⟩
  trans := by
    rintro s t u ⟨w, new, h, hw⟩ ⟨v, more, h', hv⟩
    exact ⟨w ++ v, more ++ new, h.trans h', List.forall_mem_append.mpr ⟨hw, hv⟩⟩
  trail := by
    rintro s t a b ⟨w, new, h, hw⟩
    exact ⟨w, new, ⟨h.rest, h.byte, h.captures, h.named⟩, hw⟩

/-- What is captured on the way to an end has one of the names of the pattern. -/
theorem exists_leads_of_mem_ends {p : Pattern} {s t : Cursor} (h : t ∈ p.ends s) :
    ∃ w new, Leads p.names s w new t := by
  induction p generalizing s t with
  | empty =>
    obtain rfl := List.mem_singleton.mp h
    exact ⟨[], [], .refl _ t⟩
  | literal text => exact ⟨text, [], .pass (Option.mem_toList.mp h)⟩
  | char set =>
    simp only [ends] at h
    split at h
    · exact absurd h List.not_mem_nil
    · split at h
      · obtain ⟨c, -, hnext⟩ := Leads.next (Option.mem_toList.mp h)
        exact ⟨[c], [], hnext⟩
      · exact absurd h List.not_mem_nil
  | assertion a =>
    simp only [ends] at h
    split at h
    · obtain rfl := List.mem_singleton.mp h
      exact ⟨[], [], .refl _ t⟩
    · exact absurd h List.not_mem_nil
  | group index name p ih =>
    obtain ⟨u, hu, rfl⟩ := List.mem_map.mp h
    obtain ⟨w, new, hlead⟩ := ih hu
    cases name with
    | none => exact ⟨w, new, hlead⟩
    | some n => exact ⟨w, _, hlead.capture n⟩
  | concat p q ihp ihq =>
    obtain ⟨u, hu, hut⟩ := List.mem_flatMap.mp (mem_of_mem_firsts h)
    obtain ⟨_, _, x, hx, rfl⟩ := exists_of_mem_within hu
    obtain ⟨_, _, y, hy, rfl⟩ := exists_of_mem_within hut
    obtain ⟨w, new, hw⟩ := ihp hx
    obtain ⟨v, more, hv⟩ := ihq hy
    exact ⟨w ++ v, more ++ new, (hw.mono (List.subset_append_left _ _)).trail.trans
      (hv.mono (List.subset_append_right _ _)).trail⟩
  | either p q ihp ihq =>
    rcases List.mem_append.mp (mem_of_mem_firsts h) with h | h
    · obtain ⟨_, _, u, hu, rfl⟩ := exists_of_mem_within h
      obtain ⟨w, new, hw⟩ := ihp hu
      exact ⟨w, new, (hw.mono (List.subset_append_left _ _)).trail⟩
    · obtain ⟨_, _, u, hu, rfl⟩ := exists_of_mem_within h
      obtain ⟨w, new, hw⟩ := ihq hu
      exact ⟨w, new, (hw.mono (List.subset_append_right _ _)).trail⟩
  | repetition p least most greedy ih =>
    have hway := isWay_leads p.names fun _ => True
    have hends : ∀ s, ∀ t ∈ p.ends s, ∃ w new, Leads p.names s w new t ∧ ∀ c ∈ w, True := by
      intro s t ht
      obtain ⟨w, new, hw⟩ := ih ht
      exact ⟨w, new, hw, fun _ _ => trivial⟩
    obtain ⟨w, new, hw, -⟩ :=
      hway.of_mem_repetitionEnds (fun _ _ _ => hway.of_mem_within hends) h
    exact ⟨w, new, hw⟩

end TimePhrase.Pattern
