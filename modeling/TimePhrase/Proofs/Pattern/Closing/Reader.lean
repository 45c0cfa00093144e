import TimePhrase.Proofs.Pattern.Closing.Bracket
import TimePhrase.Proofs.Pattern.Written

/-!
# Expressions before a closing

A text that is a pattern by itself is read in the same way in the middle of the pattern for whole
texts: its last character is followed by the parenthesis that ends its group, and the settings that
it has changed hold no further. So the pattern for whole texts is the pattern of the text with an
anchor at both ends.

* `prolongs_readAtom`, `prolongs_readOpening`  atoms, and what opens a group
* `exists_of_readRepetitions`  the signs after an atom
* `exists_of_readSigned`, `exists_of_readEnclosed`, `exists_of_readBody`  members and whole bodies
* `eq_of_read?_anchored`, `spans_of_read?_anchored`  the pattern for whole texts
-/

namespace TimePhrase.Pattern

open Text (byteSize)

variable {caseless : Bool} {flags : Flags} {fuel fuel' : Nat} {groups groups' : Groups}
  {body : Body} {w : Written} {e s s' r : Text}

/-! ## Repetitions -/

theorem prolongs_readCount (h : Continues s s') :
    Prolongs (readCount flags s) (readCount flags s') := by
  have hparen : isBlank ')' = false := by decide
  have hdigits : (takeSpacedWhile flags Char.isDigit s'.length (s'.dropWhile isBlank)).1 =
      (takeSpacedWhile flags Char.isDigit s.length (s.dropWhile isBlank)).1 ∧
      Continues (takeSpacedWhile flags Char.isDigit s.length (s.dropWhile isBlank)).2
        (takeSpacedWhile flags Char.isDigit s'.length (s'.dropWhile isBlank)).2 :=
    continues_takeSpacedWhile (h.dropWhile hparen) (.inl (by decide))
      (List.dropWhile_sublist isBlank).length_le (List.dropWhile_sublist isBlank).length_le
  obtain ⟨htaken, hrest⟩ := hdigits
  unfold readCount
  simp only [htaken]
  split
  · split
    · exact (hrest.dropWhile hparen).skip.prolongs _
    · exact prolongs_none _
  · exact prolongs_none _

theorem prolongs_readBounds (h : Continues s s') :
    Prolongs (readBounds flags s) (readBounds flags s') := by
  unfold readBounds
  split
  · exact prolongs_none _
  · rename_i least r hcount
    obtain ⟨t, ht, hcont⟩ := prolongs_readCount h.skip _ _ hcount
    obtain ⟨r', rfl, hr⟩ := hcont.of_cons
    rw [ht]
    exact hr.prolongs _
  · rename_i least r hcount
    obtain ⟨t, ht, hcont⟩ := prolongs_readCount h.skip _ _ hcount
    obtain ⟨r', rfl, hr⟩ := hcont.of_cons
    simp only [ht]
    have hskip : Continues (flags.skip r) (flags.skip r') := hr.skip
    generalize flags.skip r = u at hskip
    generalize flags.skip r' = u' at hskip
    split
    · obtain ⟨v', rfl, hv⟩ := hskip.of_cons
      exact hv.prolongs _
    · rename_i hbrace
      have hbrace' := hskip.ne_cons (by decide) hbrace
      split
      · rename_i most v hmost
        obtain ⟨w, hw, hcont⟩ := prolongs_readCount hskip _ _ hmost
        obtain ⟨v', rfl, hv⟩ := hcont.of_cons
        simp only [hw]
        split
        · exact hv.prolongs _
        · exact prolongs_none _
      · exact prolongs_none _
  · exact prolongs_none _

theorem exists_of_readSign {bounds : Nat × Option Nat} (h : Continues s s')
    (hsign : readSign flags s = some (some (bounds, r))) :
    ∃ r', readSign flags s' = some (some (bounds, r')) ∧ Continues r r' := by
  unfold readSign at hsign
  split at hsign
  case h_4 t =>
    obtain ⟨t', rfl, ht⟩ := h.of_cons
    obtain ⟨⟨b, u⟩, hbounds, heq⟩ := Option.map_eq_some_iff.mp hsign
    obtain ⟨rfl, rfl⟩ := Prod.mk.inj (Option.some.inj heq)
    obtain ⟨u', hu', hu⟩ := prolongs_readBounds ht _ _ hbounds
    exact ⟨flags.skip u', by simp only [readSign, hu', Option.map_some], hu.skip⟩
  case h_5 => exact nomatch hsign
  all_goals
    obtain ⟨t, rfl, ht⟩ := h.of_cons
    cases hsign
    exact ⟨t, rfl, ht⟩

theorem readSign_eq_some_none (h : Continues s s') (hsign : readSign flags s = some none) :
    readSign flags s' = some none := by
  unfold readSign at hsign
  split at hsign
  case h_4 =>
    obtain ⟨_, -, heq⟩ := Option.map_eq_some_iff.mp hsign
    exact nomatch heq
  case h_5 hstar hplus hmark hbrace =>
    have hstar' := h.ne_cons (by decide) hstar
    have hplus' := h.ne_cons (by decide) hplus
    have hmark' := h.ne_cons (by decide) hmark
    have hbrace' := h.ne_cons (by decide) hbrace
    simp only [readSign]
  all_goals exact nomatch hsign

/-- After the signs no further one comes, which the closing does not change. -/
theorem exists_of_readRepetitions {w x : Written} (h : Continues s s') (hfuel : fuel ≤ fuel')
    (hsigns : readRepetitions flags fuel w s = some (x, r))
    (hend : readSign flags (flags.skip r) = some none) :
    ∃ r', readRepetitions flags fuel' w s' = some (x, r') ∧ Continues r r' := by
  -- The induction is on the fuel, which can run out on the text alone, but only where it would stop
  -- anyway: no sign is left there.
  induction fuel generalizing fuel' w s s' with
  | zero =>
    cases hsigns
    have hend' : readSign flags (flags.skip s') = some none := readSign_eq_some_none h.skip hend
    refine ⟨s', ?_, h⟩
    cases fuel' with
    | zero => rfl
    | succ n => simp only [readRepetitions, hend']
  | succ n ih =>
    obtain ⟨n', rfl⟩ := Nat.exists_eq_add_of_le' (Nat.le_trans (Nat.le_add_left 1 n) hfuel)
    have hle : n ≤ n' := Nat.le_of_succ_le_succ hfuel
    simp only [readRepetitions] at hsigns ⊢
    split at hsigns
    · cases hsigns
    · rename_i hnone
      cases hsigns
      rw [readSign_eq_some_none h.skip hnone]
      exact ⟨s', rfl, h⟩
    · rename_i least most t hsome
      obtain ⟨t', ht', ht⟩ := exists_of_readSign h.skip hsome
      simp only [ht']
      split at hsigns
      · obtain ⟨u, rfl, hu⟩ := ht.of_cons
        exact ih hu hle hsigns
      · rename_i hmark
        have hmark' := ht.ne_cons (by decide) hmark
        simp only
        exact ih ht hle hsigns

/-! ## Groups -/

theorem prolongs_readName (h : Continues s s') : Prolongs (readName s) (readName s') := by
  intro name r hname
  obtain rfl | ⟨rfl, rfl⟩ := h
  · unfold readName at hname ⊢
    rw [splitOnce_append_closing (by decide)]
    split at hname
    · rename_i c n rest hsplit
      simp only [hsplit, Option.map_some]
      split at hname
      · rename_i hchars
        cases hname
        rw [if_pos hchars]
        exact ⟨_, rfl, continues_append _⟩
      · exact nomatch hname
    · exact nomatch hname
  · exact nomatch hname

theorem prolongs_readFlags {seen : List Char} (h : Continues s s') :
    Prolongs (readFlags flags seen s) (readFlags flags seen s') := by
  induction s generalizing flags seen s' with
  | nil => exact prolongs_none _
  | cons c s ih =>
    obtain ⟨t, rfl, ht⟩ := h.of_cons
    by_cases hcolon : c = ':'
    · subst hcolon
      simp only [readFlags]
      split
      · exact prolongs_none _
      · exact ht.prolongs _
    by_cases hclose : c = ')'
    · subst hclose
      simp only [readFlags]
      split
      · exact prolongs_none _
      · exact ht.prolongs _
    simp only [readFlags]
    split
    · exact prolongs_none _
    · split
      · exact ih ht
      · split
        · exact ih ht
        · exact prolongs_none _

theorem prolongs_readOpening (h : Continues s s') :
    Prolongs (readOpening flags s) (readOpening flags s') := by
  have hskip : Continues (flags.skip s) (flags.skip s') := h.skip
  unfold readOpening
  generalize flags.skip s = t at hskip
  generalize flags.skip s' = t' at hskip
  split
  · obtain rfl := hskip.eq_of_cons
    exact (prolongs_readName (continues_append _)).map fun name => Opening.numbered (some name)
  · obtain rfl := hskip.eq_of_cons
    exact (prolongs_readName (continues_append _)).map fun name => Opening.numbered (some name)
  · rename_i r hlong hshort
    obtain ⟨r', rfl, hr⟩ := hskip.of_cons
    have hlong' := hr.ne_cons_cons (by decide) (by decide) hlong
    have hshort' := hr.ne_cons (by decide) hshort
    simp only
    exact prolongs_readFlags hr
  · rename_i hlong hshort hmark
    have hmark' := hskip.ne_cons (by decide) hmark
    have hshort' (r : Text) : t' = '?' :: '<' :: r → False := hmark' _
    have hlong' (r : Text) : t' = '?' :: 'P' :: '<' :: r → False := hmark' _
    simp only
    exact hskip.prolongs _

variable [PropertyTable]

/-! ## Atoms -/

theorem prolongs_readAtom (h : Continues s s') :
    Prolongs (readAtom flags s) (readAtom flags s') := by
  unfold readAtom
  split
  · exact prolongs_none _
  · rename_i r
    obtain ⟨r', rfl, hr⟩ := h.of_cons
    simp only
    split
    all_goals first
      | exact prolongs_none _
      | rename_i hescape
        obtain ⟨t, ht, hcont⟩ := prolongs_readEscape hr _ _ hescape
        rw [ht]
        exact hcont.prolongs _
  · rename_i r
    obtain ⟨r', rfl, hr⟩ := h.of_cons
    exact (prolongs_readBracket hr).map fun b => (⟨.ofSet b.set, b.depth⟩ : Written)
  · obtain ⟨r', rfl, hr⟩ := h.of_cons
    exact hr.map_prolongs _ fun set => (⟨.char set, 0⟩ : Written)
  · obtain ⟨r', rfl, hr⟩ := h.of_cons
    exact hr.prolongs _
  · obtain ⟨r', rfl, hr⟩ := h.of_cons
    exact hr.prolongs _
  · rename_i c r hescape hclass hdot hstart hstop
    obtain ⟨r', rfl, hr⟩ := h.of_cons
    simp only
    exact hr.prolongs _

/-! ## Bodies -/

/-- Every sign after an atom is read together with it. -/
theorem readSign_of_readBody {result : Written × Groups × Text}
    (h : readBody fuel flags groups body s = some result) :
    readSign flags (flags.skip s) = some none := by
  cases fuel with
  | zero => exact nomatch h
  | succ n =>
    unfold readSign
    split
    case h_5 => rfl
    all_goals
      rename_i hskip
      simp [readBody, hskip] at h

/-- Reads the signs of a member of a body, and what comes after it. -/
def readSigned (fuel : Nat) (flags : Flags) (groups : Groups) (body : Body) (w : Written)
    (s : Text) : Option (Written × Groups × Text) :=
  match readRepetitions flags fuel w s with
  | some (w, r) => readBody fuel flags groups (body.add w) r
  | none => none

/-- Reads the inside of a group up to its parenthesis, makes a member of it, and reads on. -/
def readEnclosed (fuel : Nat) (flags inner : Flags) (groups : Groups) (body : Body)
    (make : Written → Written) (s : Text) : Option (Written × Groups × Text) :=
  match readBody fuel inner groups .none s with
  | some (w, groups, ')' :: r) => readSigned fuel flags groups body (make w) r
  | _ => none

/-- Every body that is read with the fuel `n` is read before the closing with the fuel `n'`. -/
def ProlongsBodies (n n' : Nat) : Prop :=
  ∀ {flags : Flags} {groups groups' : Groups} {body : Body} {w : Written} {s s' r : Text},
    Continues s s' → readBody n flags groups body s = some (w, groups', r) →
    ∃ r', readBody n' flags groups body s' = some (w, groups', r') ∧ Continues r r'

section Members

variable {n n' : Nat} {inner : Flags} {x : Written}

theorem exists_of_readSigned (ih : ProlongsBodies n n') (hle : n ≤ n') (h : Continues s s')
    (hread : readSigned n flags groups body x s = some (w, groups', r)) :
    ∃ r', readSigned n' flags groups body x s' = some (w, groups', r') ∧ Continues r r' := by
  unfold readSigned at hread ⊢
  split at hread
  · rename_i hsigns
    obtain ⟨t, ht, hcont⟩ := exists_of_readRepetitions h hle hsigns (readSign_of_readBody hread)
    simp only [ht]
    exact ih hcont hread
  · exact nomatch hread

theorem exists_of_readEnclosed (ih : ProlongsBodies n n') (hle : n ≤ n')
    {make : Written → Written} (h : Continues s s')
    (hread : readEnclosed n flags inner groups body make s = some (w, groups', r)) :
    ∃ r', readEnclosed n' flags inner groups body make s' = some (w, groups', r') ∧
      Continues r r' := by
  unfold readEnclosed at hread ⊢
  split at hread
  · rename_i hinner
    obtain ⟨t, ht, hcont⟩ := ih h hinner
    obtain ⟨u, rfl, hu⟩ := hcont.of_cons
    simp only [ht]
    exact exists_of_readSigned ih hle hu hread
  · exact nomatch hread

end Members

/-- What is read of a body is read of it before the closing. The induction is on the fuel, of which
    the bodies inside a body have less. -/
theorem exists_of_readBody (h : Continues s s') (hfuel : fuel ≤ fuel')
    (hread : readBody fuel flags groups body s = some (w, groups', r)) :
    ∃ r', readBody fuel' flags groups body s' = some (w, groups', r') ∧ Continues r r' := by
  induction fuel generalizing fuel' flags groups groups' body w r s s' with
  | zero => cases hread
  | succ n ih =>
    obtain ⟨n', rfl⟩ := Nat.exists_eq_add_of_le' (Nat.le_trans (Nat.le_add_left 1 n) hfuel)
    have hle : n ≤ n' := Nat.le_of_succ_le_succ hfuel
    have hbodies : ProlongsBodies n n' := fun hcont hbody => ih hcont hle hbody
    have hskip : Continues (flags.skip s) (flags.skip s') := h.skip
    simp only [readBody] at hread ⊢
    generalize flags.skip s = t at hskip hread
    generalize flags.skip s' = t' at hskip
    split at hread
    -- The body ends with the text: with the closing, at its parenthesis.
    · cases hread
      obtain rfl | ⟨-, rfl⟩ := hskip
      · exact ⟨closing, rfl, .inl rfl⟩
      · exact ⟨[], rfl, .inr ⟨rfl, rfl⟩⟩
    · cases hread
      obtain rfl := hskip.eq_of_cons
      exact ⟨_, rfl, hskip⟩
    · obtain ⟨u, rfl, hu⟩ := hskip.of_cons
      exact hbodies hu hread
    · cases hread
    · cases hread
    · cases hread
    · cases hread
    -- A parenthesis opens settings, a plain group or a numbered one.
    · obtain ⟨u, rfl, hu⟩ := hskip.of_cons
      simp only
      split at hread
      · cases hread
      · rename_i hopen
        obtain ⟨v, hv, hcont⟩ := prolongs_readOpening hu _ _ hopen
        simp only [hv]
        exact hbodies hcont hread
      · rename_i hopen
        obtain ⟨v, hv, hcont⟩ := prolongs_readOpening hu _ _ hopen
        simp only [hv]
        exact exists_of_readEnclosed hbodies hle hcont hread
      · rename_i hopen
        obtain ⟨v, hv, hcont⟩ := prolongs_readOpening hu _ _ hopen
        simp only [hv]
        split at hread
        · cases hread
        · exact exists_of_readEnclosed hbodies hle hcont hread
    · rename_i hnil hclose hbar hstar hplus hmark hbrace hopen
      split at hread
      · cases hread
      · rename_i hatom
        obtain ⟨v, hv, hcont⟩ := prolongs_readAtom hskip _ _ hatom
        -- What is no sign of its own in the text is none before the closing either.
        have hnil' := hskip.ne_nil hnil
        have hclose' := hskip.ne_cons_of_ne_nil hnil hclose
        have hbar' := hskip.ne_cons (by decide) hbar
        have hstar' := hskip.ne_cons (by decide) hstar
        have hplus' := hskip.ne_cons (by decide) hplus
        have hmark' := hskip.ne_cons (by decide) hmark
        have hbrace' := hskip.ne_cons (by decide) hbrace
        have hopen' := hskip.ne_cons (by decide) hopen
        simp only [hv]
        exact exists_of_readSigned hbodies hle hcont hread

/-! ## Whole texts -/

theorem readBody_textStart (hr : Unrepeated r) :
    readBody (fuel + 1) (.initial caseless) groups body ('^' :: r) =
      readBody fuel (.initial caseless) groups (body.add ⟨.assertion .textStart, 0⟩) r := by
  have hskip : (Flags.initial caseless).skip ('^' :: r) = '^' :: r := rfl
  have hatom : readAtom (.initial caseless) ('^' :: r) =
      some (⟨.assertion .textStart, 0⟩, r) := rfl
  simp [readBody, hskip, hatom, readRepetitions_of_unrepeated hr]

theorem readBody_textEnd (hr : Unrepeated r) :
    readBody (fuel + 1) (.initial caseless) groups body ('$' :: r) =
      readBody fuel (.initial caseless) groups (body.add ⟨.assertion .textEnd, 0⟩) r := by
  have hskip : (Flags.initial caseless).skip ('$' :: r) = '$' :: r := rfl
  have hatom : readAtom (.initial caseless) ('$' :: r) =
      some (⟨.assertion .textEnd, 0⟩, r) := rfl
  simp [readBody, hskip, hatom, readRepetitions_of_unrepeated hr]

/-- The pattern for whole texts has the pattern of its expression between two anchors. -/
theorem eq_of_read?_anchored {p q : Pattern} (hp : read? caseless e = some p)
    (hq : read? caseless ("^(?:" ++ e ++ ")$") = some q) :
    q = choice [sequence [.assertion .textStart, p, .assertion .textEnd]] := by
  unfold read? at hp hq
  split at hp
  · rename_i w g hread
    obtain ⟨-, heq⟩ := Option.ite_none_right_eq_some.mp hp
    obtain rfl := Option.some.inj heq
    have htext : (("^(?:" : Text) ++ e ++ (")$" : Text)) =
        '^' :: '(' :: '?' :: ':' :: (e ++ closing) := by
      simp [closing]
    -- Two steps lead into the group, so that the fuel is enough for what is inside.
    have hlen : (("^(?:" : Text) ++ e ++ (")$" : Text)).length + 1 = e.length + 7 := by simp
    have hskip : (Flags.initial caseless).skip ('(' :: '?' :: ':' :: (e ++ closing)) =
        '(' :: '?' :: ':' :: (e ++ closing) := rfl
    have hopen : readOpening (.initial caseless) ('?' :: ':' :: (e ++ closing)) =
        some (.plain (.initial caseless), e ++ closing) := rfl
    have hfuel : e.length + 1 ≤ e.length + 5 := by omega
    obtain ⟨r', hinner, hr'⟩ := exists_of_readBody (continues_append e) hfuel hread
    rw [hlen, htext, readBody_textStart (unrepeated_cons (by decide)), readBody] at hq
    simp only [hskip, hopen, hinner] at hq
    -- If a comment took the closing with it, the group would have no end.
    obtain rfl | ⟨-, rfl⟩ := hr'
    · have hstop : Unrepeated ['$'] := unrepeated_cons (by decide)
      simp only [closing, List.nil_append, readRepetitions_of_unrepeated hstop,
        readBody_textEnd unrepeated_nil] at hq
      obtain ⟨-, heq⟩ := Option.ite_none_right_eq_some.mp hq
      exact (Option.some.inj heq).symm
    · cases hq
  · cases hp

/-- The pattern for whole texts spans exactly those texts that the pattern of the expression spans
    from one end to the other. -/
theorem spans_of_read?_anchored {p q : Pattern} (hp : read? caseless e = some p)
    (hq : read? caseless ("^(?:" ++ e ++ ")$") = some q) {text : Text} {i j : Nat} :
    Spans text q i j ↔ i = 0 ∧ j = byteSize text ∧ Spans text p 0 (byteSize text) := by
  rw [eq_of_read?_anchored hp hq, spans_anchored]

end TimePhrase.Pattern
