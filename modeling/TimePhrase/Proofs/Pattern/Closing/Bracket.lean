import TimePhrase.Pattern.Bracket
import TimePhrase.Proofs.Pattern.Closing.Escape

/-!
# Bracketed classes before a closing

A class ends at a bracket of its own, so that the closing after an expression is no part of it.

* `readNamed_append`  classes with names, which are refused with the closing if they are without it
* `exists_of_readClassStart`  the beginning of a class
* `prolongs_readRange`, `prolongs_readMembers`  its members
* `prolongs_readBracket`  whole classes
-/

namespace TimePhrase.Pattern

variable {flags : Flags} {fuel fuel' : Nat} {s s' r : Text} {c : Char}

/-! ## Classes with names -/

theorem splitOnce_append_closing (hc : c ∉ closing) (s : Text) :
    Text.splitOnce c (s ++ closing) = (Text.splitOnce c s).map fun p => (p.1, p.2 ++ closing) := by
  induction s with
  | nil => exact Text.splitOnce_eq_none fun d hd => ne_of_mem_of_not_mem hd hc
  | cons d s ih =>
    rw [List.cons_append]
    unfold Text.splitOnce
    split
    · rfl
    · rw [ih]
      cases Text.splitOnce c s <;> rfl

theorem readClassName_append (negative : Bool) (s : Text) :
    readClassName negative (s ++ closing) =
      (readClassName negative s).map fun p => (p.1, p.2 ++ closing) := by
  unfold readClassName
  rw [splitOnce_append_closing (by decide)]
  cases Text.splitOnce ':' s with
  | none => rfl
  | some p =>
    obtain ⟨name, rest⟩ := p
    cases rest with
    | nil => rfl
    | cons d rest =>
      by_cases hd : d = ']'
      · subst hd
        simp only [Option.map_some, List.cons_append, Option.map_map]
        rfl
      · simp [hd]

/-- The name of a class ends in the text, so that the closing makes no difference. -/
theorem readNamed_append (s : Text) :
    readNamed (s ++ closing) = (readNamed s).map fun p => (p.1, p.2 ++ closing) := by
  fun_cases readNamed s with
  | case1 r => exact readClassName_append true r
  | case2 r hcaret =>
    have hcaret' := (continues_append r).ne_cons (by decide) hcaret
    simp only [List.cons_append, readNamed]
    exact readClassName_append false r
  | case3 _ _ hcolon =>
    have hcolon' := (continues_append s).ne_cons (by decide) hcolon
    have hcaret' (r : Text) : s ++ closing = ':' :: '^' :: r → False := hcolon' _
    simp only [readNamed, Option.map_none]

/-! ## The beginning of a class -/

theorem readMinuses_of_ne_cons {m : Members} (h : ∀ r, s = '-' :: r → False) :
    readMinuses flags fuel m s = (m, s) := by
  unfold readMinuses
  split
  · exact (h _ rfl).elim
  · rfl

theorem continues_readMinuses {m : Members} (h : Continues s s') (hfuel : s.length ≤ fuel)
    (hfuel' : s'.length ≤ fuel') :
    (readMinuses flags fuel' m s').1 = (readMinuses flags fuel m s).1 ∧
      Continues (readMinuses flags fuel m s).2 (readMinuses flags fuel' m s').2 := by
  induction fuel generalizing fuel' m s s' with
  | zero =>
    obtain rfl : s = [] := List.eq_nil_of_length_eq_zero (Nat.le_zero.mp hfuel)
    rw [readMinuses_of_ne_cons (h.ne_cons (by decide) nofun)]
    exact ⟨rfl, h⟩
  | succ n ih =>
    by_cases hs : ∃ r, s = '-' :: r
    · obtain ⟨r, rfl⟩ := hs
      obtain ⟨r', rfl, hr⟩ := h.of_cons
      obtain ⟨n', rfl⟩ := Nat.exists_eq_add_of_le' (Nat.le_trans (Nat.le_add_left 1 _) hfuel')
      have hskip := length_skip_le flags r
      have hskip' := length_skip_le flags r'
      simp only [List.length_cons] at hfuel hfuel'
      exact ih hr.skip (by omega) (by omega)
    · have hne : ∀ r, s = '-' :: r → False := fun r hr => hs ⟨r, hr⟩
      rw [readMinuses_of_ne_cons hne, readMinuses_of_ne_cons (h.ne_cons (by decide) hne)]
      exact ⟨rfl, h⟩

theorem exists_of_readFirstMembers {first : Members} (h : Continues s s')
    (hfirst : readFirstMembers flags s = (first, r)) :
    ∃ r', readFirstMembers flags s' = (first, r') ∧ Continues r r' := by
  have hminuses := @continues_readMinuses flags s.length s'.length s s' .none h
  obtain ⟨hm, hr⟩ := hminuses (Nat.le_refl _) (Nat.le_refl _)
  unfold readFirstMembers at hfirst ⊢
  generalize readMinuses flags s.length .none s = p at hm hr hfirst
  generalize readMinuses flags s'.length .none s' = p' at hm hr
  obtain ⟨m, u⟩ := p
  obtain ⟨m', u'⟩ := p'
  obtain rfl : m' = m := hm
  replace hr : Continues u u' := hr
  split at hfirst
  · rename_i heq
    obtain ⟨rfl, rfl⟩ := Prod.mk.inj heq
    obtain ⟨v, rfl, hv⟩ := hr.of_cons
    obtain ⟨rfl, rfl⟩ := Prod.mk.inj hfirst
    exact ⟨_, rfl, hv.skip⟩
  · rename_i hother heq
    obtain ⟨rfl, rfl⟩ := Prod.mk.inj heq
    obtain ⟨rfl, rfl⟩ := Prod.mk.inj hfirst
    refine ⟨u', ?_, hr⟩
    split
    · rename_i heq
      obtain ⟨rfl, rfl⟩ := Prod.mk.inj heq
      obtain ⟨v, rfl, -⟩ := hr.of_cons_right (by decide)
      exact (hother _ _ _ rfl rfl).elim
    · rename_i heq
      exact heq.symm

/-- A class begins with the same members. -/
theorem exists_of_readClassStart {negative : Bool} {first : Members} (h : Continues s s')
    (hstart : readClassStart flags s = (negative, first, r)) :
    ∃ r', readClassStart flags s' = (negative, first, r') ∧ Continues r r' := by
  have hskip : Continues (flags.skip s) (flags.skip s') := h.skip
  unfold readClassStart at hstart ⊢
  generalize flags.skip s = t at hskip hstart
  generalize flags.skip s' = t' at hskip
  split at hstart
  · obtain ⟨u, rfl, hu⟩ := hskip.of_cons
    obtain ⟨rfl, hfirst⟩ := Prod.mk.inj hstart
    obtain ⟨r', hr', hr⟩ := exists_of_readFirstMembers hu.skip hfirst
    exact ⟨r', Prod.ext rfl hr', hr⟩
  · rename_i hcaret
    have hcaret' := hskip.ne_cons (by decide) hcaret
    obtain ⟨rfl, hfirst⟩ := Prod.mk.inj hstart
    obtain ⟨r', hr', hr⟩ := exists_of_readFirstMembers hskip hfirst
    simp only
    exact ⟨r', Prod.ext rfl hr', hr⟩

variable [PropertyTable]

/-! ## Single members -/

theorem prolongs_readMember (h : Continues s s') :
    Prolongs (readMember flags s) (readMember flags s') := by
  unfold readMember
  split
  · exact prolongs_none _
  · rename_i r
    obtain ⟨r', rfl, hr⟩ := h.of_cons
    simp only
    split
    · rename_i heq
      obtain ⟨t, ht, hcont⟩ := prolongs_readEscape hr _ _ heq
      rw [ht]
      exact hcont.prolongs _
    · rename_i heq
      obtain ⟨t, ht, hcont⟩ := prolongs_readEscape hr _ _ heq
      rw [ht]
      exact hcont.prolongs _
    · exact prolongs_none _
  · rename_i c r hslash
    obtain ⟨r', rfl, hr⟩ := h.of_cons
    simp only
    exact hr.prolongs _

theorem prolongs_readRange (h : Continues s s') :
    Prolongs (readRange flags s) (readRange flags s') := by
  unfold readRange
  split
  · exact prolongs_none _
  · rename_i first r hfirst
    obtain ⟨t, ht, hr⟩ := prolongs_readMember h _ _ hfirst
    simp only [ht]
    have hskip : Continues (flags.skip r) (flags.skip t) := hr.skip
    generalize flags.skip r = u at hskip
    generalize flags.skip t = u' at hskip
    split
    · rename_i v
      obtain rfl := hskip.eq_of_cons
      -- The parenthesis of the closing, which can come next, is neither of the two signs.
      have hlast : (flags.peek (v ++ closing) = some ']' ∨
          flags.peek (v ++ closing) = some '-') ↔
          (flags.peek v = some ']' ∨ flags.peek v = some '-') := by
        rw [peek_append]
        cases flags.peek v <;> simp
      simp only [hlast]
      split
      · exact hskip.map_prolongs _ id
      · split
        · rename_i lo hi w hmember
          obtain ⟨w', hw', hw⟩ := prolongs_readMember (continues_append v).skip _ _ hmember
          simp only [hw']
          split
          · exact hw.map_prolongs _ id
          · exact prolongs_none _
        · exact prolongs_none _
    · rename_i hminus
      have hminus' := hskip.ne_cons (by decide) hminus
      simp only
      exact hskip.map_prolongs _ id

/-! ## Whole classes -/

theorem prolongs_readMembers {negative : Bool} {operands : Operands} (h : Continues s s')
    (hfuel : fuel ≤ fuel') :
    Prolongs (readMembers flags fuel negative operands s)
      (readMembers flags fuel' negative operands s') := by
  induction fuel generalizing fuel' negative operands s s' with
  | zero => exact prolongs_none _
  | succ n ih =>
    obtain ⟨n', rfl⟩ := Nat.exists_eq_add_of_le' (Nat.le_trans (Nat.le_add_left 1 n) hfuel)
    have hle : n ≤ n' := Nat.le_of_succ_le_succ hfuel
    have hskip : Continues (flags.skip s) (flags.skip s') := h.skip
    simp only [readMembers]
    generalize flags.skip s = t at hskip
    generalize flags.skip s' = t' at hskip
    split
    · exact prolongs_none _
    · obtain ⟨r', rfl, hr⟩ := hskip.of_cons
      exact hr.map_prolongs _ fun set => (⟨set, (operands.value flags).depth + 1⟩ : Bracket)
    -- A bracket opens a class with a name or a class of its own.
    · rename_i r
      obtain rfl := hskip.eq_of_cons
      simp only [readNamed_append]
      split
      · rename_i isNegated named u hnamed
        simp only [hnamed, Option.map_some]
        split
        · exact ih (continues_append u) hle
        · exact prolongs_none _
      · rename_i hnamed
        simp only [hnamed, Option.map_none]
        generalize hstart : readClassStart flags r = start
        obtain ⟨inner, first, u⟩ := start
        obtain ⟨u', hu', hu⟩ := exists_of_readClassStart (continues_append r) hstart
        simp only [hu']
        split
        · rename_i b v hinner
          obtain ⟨v', hv', hv⟩ := ih hu hle _ _ hinner
          simp only [hv']
          exact ih hv hle
        · exact prolongs_none _
    -- The three operators are alike.
    · rename_i r
      obtain rfl := hskip.eq_of_cons
      exact ih (continues_append r) hle
    · rename_i r
      obtain rfl := hskip.eq_of_cons
      exact ih (continues_append r) hle
    · rename_i r
      obtain rfl := hskip.eq_of_cons
      exact ih (continues_append r) hle
    · rename_i hnil hclose hopen hinter hdifference hsymmDiff
      split
      · rename_i set u hrange
        obtain ⟨u', hu', hu⟩ := prolongs_readRange hskip _ _ hrange
        -- What the text does not begin with, it does not begin with before the closing either.
        have hnil' := hskip.ne_nil hnil
        have hclose' := hskip.ne_cons (by decide) hclose
        have hopen' := hskip.ne_cons (by decide) hopen
        have hinter' := hskip.ne_cons_cons (by decide) (by decide) hinter
        have hdifference' := hskip.ne_cons_cons (by decide) (by decide) hdifference
        have hsymmDiff' := hskip.ne_cons_cons (by decide) (by decide) hsymmDiff
        simp only [hu']
        exact ih hu hle
      · exact prolongs_none _

theorem prolongs_readBracket (h : Continues s s') :
    Prolongs (readBracket flags s) (readBracket flags s') := by
  unfold readBracket
  generalize hstart : readClassStart flags s = start
  obtain ⟨negative, first, r⟩ := start
  obtain ⟨r', hr', hr⟩ := exists_of_readClassStart h hstart
  rw [hr']
  exact prolongs_readMembers hr (Nat.succ_le_succ h.length_le)

end TimePhrase.Pattern
