import Mathlib.Data.List.Forall2
import TimePhrase.Proofs.Pattern.Sign

/-!
# Reading a pattern part by part

A pattern is read from its text in one pass, so a part of the text is a pattern by itself only if
the reader comes out of it where the part ends. From such parts others are put together: one after
the other, with a repetition sign, with bars between them, or in parentheses. The settings are
always those at the beginning of a pattern.

* `ReadsAs`  a part of a body that is read as members of some kind
* `ReadsAtomAs`, `ReadsBodyAs`  an atom, and a whole body
* `exists_of_read?`, `exists_of_read?_anchored`  whole texts
-/

namespace TimePhrase.Pattern

variable {caseless : Bool} {fuel least : Nat} {most : Option Nat} {groups : Groups} {body : Body}
  {w : Written} {s e f rest : Text} {P Q : Pattern → Prop} {A B : List Pattern → Prop}
  {result : Written × Groups × Text}

/-! ## Names of groups -/

theorem readName_append {c : Char} {t : Text} (hc : isNameChar true c = true)
    (ht : ∀ d ∈ t, isNameChar false d = true) :
    readName (c :: t ++ '>' :: rest) = some (c :: t, rest) := by
  have hne : ∀ d ∈ c :: t, d ≠ '>' := by
    refine List.forall_mem_cons.mpr ⟨?_, fun d hd => ?_⟩
    · rintro rfl
      exact absurd hc (by decide +kernel)
    · rintro rfl
      exact absurd (ht '>' hd) (by decide +kernel)
  have hall : t.all (isNameChar false) = true := List.all_eq_true.mpr ht
  simp only [readName, Text.splitOnce_append hne, hc, hall, Bool.and_self, if_true]

variable [PropertyTable]

/-! ## Steps of the reader -/

theorem exists_of_readBody_atom {c : Char} {t r : Text}
    (hc : c ∉ ['(', ')', '|', '*', '+', '?', '\x7b'])
    (hatom : readAtom (.initial caseless) (c :: t) = some (w, r))
    (h : readBody fuel (.initial caseless) groups body (c :: t) = some result) :
    ∃ fuel' x r', readRepetitions (.initial caseless) fuel' w r = some (x, r') ∧
      readBody fuel' (.initial caseless) groups (body.add x) r' = some result := by
  cases fuel with
  | zero => exact nomatch h
  | succ fuel =>
    have hskip : (Flags.initial caseless).skip (c :: t) = c :: t := rfl
    simp only [readBody, hskip] at h
    split at h
    case h_1 heq => exact nomatch heq
    case h_9 =>
      simp only [hatom] at h
      split at h
      · rename_i x r' hsigns
        exact ⟨fuel, x, r', hsigns, h⟩
      · exact nomatch h
    -- All other cases are told by a character of their own.
    all_goals
      rename_i heq
      obtain ⟨rfl, -⟩ := List.cons.inj heq
      simp at hc

/-- In parentheses that group and nothing else, a body has the settings around it, and the signs
    after the closing one repeat what the body is. -/
theorem exists_of_readBody_parens
    (h : readBody fuel (.initial caseless) groups body ('(' :: '?' :: ':' :: f) = some result) :
    ∃ fuel' w groups' r x r',
      readBody fuel' (.initial caseless) groups .none f = some (w, groups', ')' :: r) ∧
      readRepetitions (.initial caseless) fuel' ⟨w.pattern, w.depth + 1⟩ r = some (x, r') ∧
      readBody fuel' (.initial caseless) groups' (body.add x) r' = some result := by
  cases fuel with
  | zero => exact nomatch h
  | succ fuel =>
    have hskip : (Flags.initial caseless).skip ('(' :: '?' :: ':' :: f) = '(' :: '?' :: ':' :: f :=
      rfl
    have hopen : readOpening (.initial caseless) ('?' :: ':' :: f) =
        some (.plain (.initial caseless), f) := rfl
    simp only [readBody, hskip, hopen] at h
    split at h
    · rename_i w groups' r hinner
      split at h
      · rename_i x r' hsigns
        exact ⟨fuel, w, groups', r, x, r', hinner, hsigns, h⟩
      · exact nomatch h
    · exact nomatch h

/-- Parentheses with a name make a group of the body. -/
theorem exists_of_readBody_named {name : Text}
    (hname : ∀ rest, readName (name ++ '>' :: rest) = some (name, rest))
    (h : readBody fuel (.initial caseless) groups body
      ('(' :: '?' :: 'P' :: '<' :: (name ++ '>' :: f)) = some result) :
    ∃ fuel' index inside w groups' r x r',
      readBody fuel' (.initial caseless) inside .none f = some (w, groups', ')' :: r) ∧
      readRepetitions (.initial caseless) fuel'
        ⟨.group index (some name) w.pattern, w.depth + 1⟩ r = some (x, r') ∧
      readBody fuel' (.initial caseless) groups' (body.add x) r' = some result := by
  cases fuel with
  | zero => exact nomatch h
  | succ fuel =>
    have hskip : (Flags.initial caseless).skip ('(' :: '?' :: 'P' :: '<' :: (name ++ '>' :: f)) =
        '(' :: '?' :: 'P' :: '<' :: (name ++ '>' :: f) := rfl
    have hopen : readOpening (.initial caseless) ('?' :: 'P' :: '<' :: (name ++ '>' :: f)) =
        some (.numbered (some name), f) := by
      show (readName (name ++ '>' :: f)).map _ = _
      rw [hname]
      rfl
    simp only [readBody, hskip, hopen] at h
    split at h
    · exact nomatch h
    · rename_i inside hinside
      split at h
      · rename_i w groups' r hinner
        split at h
        · rename_i x r' hsigns
          exact ⟨fuel, inside.count, inside, w, groups', r, x, r', hinner, hsigns, h⟩
        · exact nomatch h
      · exact nomatch h

/-! ## Parts -/

/-- A text is read as an atom of some kind; the signs after it have not been read yet. -/
structure ReadsAtomAs (caseless : Bool) (P : Pattern → Prop) (e : Text) : Prop where
  unrepeated : ∀ rest, Unrepeated (e ++ rest)
  read : ∀ {fuel groups body rest result},
    readBody fuel (.initial caseless) groups body (e ++ rest) = some result →
    ∃ fuel' groups' w x r, P w.pattern ∧
      readRepetitions (.initial caseless) fuel' w rest = some (x, r) ∧
      readBody fuel' (.initial caseless) groups' (body.add x) r = some result

/-- The body with further members after those that it has. -/
def Body.addAll (b : Body) (ws : List Written) : Body := ⟨b.alternatives, ws.reverse ++ b.members⟩

/-- A text is read as members of a body that are of some kind together. -/
structure ReadsAs (caseless : Bool) (A : List Pattern → Prop) (e : Text) : Prop where
  unrepeated : ∀ {rest}, Unrepeated rest → Unrepeated (e ++ rest)
  read : ∀ {fuel groups body rest result}, Unrepeated rest →
    readBody fuel (.initial caseless) groups body (e ++ rest) = some result →
    ∃ fuel' groups' ws, A (ws.map Written.pattern) ∧
      readBody fuel' (.initial caseless) groups' (body.addAll ws) rest = some result

theorem ReadsAtomAs.reads (h : ReadsAtomAs caseless P e) (hA : ∀ p, P p → A [p]) :
    ReadsAs caseless A e where
  unrepeated _ := h.unrepeated _
  read hrest hread := by
    obtain ⟨fuel', groups', w, x, r, hw, hsigns, hread⟩ := h.read hread
    rw [readRepetitions_of_unrepeated hrest] at hsigns
    obtain ⟨rfl, rfl⟩ := Prod.mk.inj (Option.some.inj hsigns)
    exact ⟨fuel', groups', [w], hA w.pattern hw, hread⟩

theorem ReadsAtomAs.repeated (h : ReadsAtomAs caseless P e) (hs : IsSign s least most)
    (hA : (∀ m ∈ most, least ≤ m) → ∀ p, P p → A [p.repeated least most true]) :
    ReadsAs caseless A (e ++ s) where
  unrepeated _ := by
    rw [List.append_assoc]
    exact h.unrepeated _
  read hrest hread := by
    rw [List.append_assoc] at hread
    obtain ⟨fuel', groups', w, x, r, hw, hsigns, hbody⟩ := h.read hread
    cases fuel' with
    | zero => exact nomatch hbody
    | succ fuel' =>
      obtain ⟨hpattern, rfl, hbounds⟩ := pattern_of_readRepetitions hs hrest hsigns
      refine ⟨fuel' + 1, groups', [x], ?_, hbody⟩
      rw [List.map_singleton, hpattern]
      exact hA hbounds w.pattern hw

theorem ReadsAs.nil (hA : A []) : ReadsAs caseless A [] where
  unrepeated hrest := hrest
  read _ hread := ⟨_, _, [], hA, hread⟩

theorem ReadsAs.append {C : List Pattern → Prop} (he : ReadsAs caseless A e)
    (hf : ReadsAs caseless B f) (hC : ∀ ps qs, A ps → B qs → C (ps ++ qs)) :
    ReadsAs caseless C (e ++ f) where
  unrepeated hrest := by
    rw [List.append_assoc]
    exact he.unrepeated (hf.unrepeated hrest)
  read hrest hread := by
    rw [List.append_assoc] at hread
    obtain ⟨_, _, ws, hws, hread⟩ := he.read (hf.unrepeated hrest) hread
    obtain ⟨fuel', groups', xs, hxs, hread⟩ := hf.read hrest hread
    refine ⟨fuel', groups', ws ++ xs, ?_, ?_⟩
    · rw [List.map_append]
      exact hC _ _ hws hxs
    · simpa only [Body.addAll, List.reverse_append, List.append_assoc] using hread

/-! ## Whole bodies -/

/-- A text is read as the whole body of a group. -/
def ReadsBodyAs (caseless : Bool) (P : Pattern → Prop) (e : Text) : Prop :=
  ∀ fuel groups rest result,
    readBody fuel (.initial caseless) groups .none (e ++ ')' :: rest) = some result →
    ∃ w groups', P w.pattern ∧ result = (w, groups', ')' :: rest)

section Alternatives

variable {α : Type} {A : α → List Pattern → Prop}

/-- Parts with bars between them are alternatives, and come after those before them. -/
theorem readBody_join {es : List Text} {as : List α}
    (h : List.Forall₂ (fun e a => ReadsAs caseless (A a) e) es as) (hne : es ≠ [])
    {alternatives : List Written}
    (hread : readBody fuel (.initial caseless) groups ⟨alternatives, []⟩
      (Text.join ['|'] es ++ ')' :: rest) = some result) :
    ∃ ws groups', List.Forall₂ (fun p a => ∃ ps, A a ps ∧ p = Pattern.sequence ps)
        (ws.map Written.pattern) as ∧
      result = (.choice (alternatives.reverse ++ ws), groups', ')' :: rest) := by
  induction h generalizing fuel groups alternatives with
  | nil => exact absurd rfl hne
  | @cons e a es as he hes ih =>
    cases hes with
    | nil =>
      -- The body ends behind the last part.
      obtain ⟨fuel', groups', ws, hws, hread⟩ := he.read (unrepeated_cons (by decide)) hread
      cases fuel' with
      | zero => cases hread
      | succ fuel' =>
        obtain rfl := Option.some.inj hread
        refine ⟨[.sequence ws], groups', .cons ⟨_, hws, rfl⟩ .nil, ?_⟩
        simp [Body.value, Body.close, Body.addAll]
    | @cons f b fs bs hf hfs =>
      -- The bar behind a part makes what has been read an alternative.
      have hsplit : Text.join ['|'] (e :: f :: fs) ++ ')' :: rest =
          e ++ '|' :: (Text.join ['|'] (f :: fs) ++ ')' :: rest) := by
        simp [Text.join]
      rw [hsplit] at hread
      obtain ⟨fuel', groups', ws, hws, hread⟩ := he.read (unrepeated_cons (by decide)) hread
      cases fuel' with
      | zero => cases hread
      | succ fuel' =>
        obtain ⟨xs, groups'', hxs, rfl⟩ := ih (List.cons_ne_nil f fs) hread
        refine ⟨.sequence ws :: xs, groups'', .cons ⟨_, hws, rfl⟩ hxs, ?_⟩
        simp [Body.addAll]

theorem readsBodyAs_join {es : List Text} {as : List α}
    (h : List.Forall₂ (fun e a => ReadsAs caseless (A a) e) es as) (hne : es ≠ [])
    (hP : ∀ ps, List.Forall₂ (fun p a => ∃ qs, A a qs ∧ p = Pattern.sequence qs) ps as →
      P (Pattern.choice ps)) : ReadsBodyAs caseless P (Text.join ['|'] es) := by
  intro fuel groups rest result hread
  obtain ⟨ws, groups', hws, rfl⟩ := readBody_join h hne hread
  exact ⟨_, groups', hP _ hws, rfl⟩

end Alternatives

/-- A single part is the only alternative. -/
theorem ReadsAs.readsBody (h : ReadsAs caseless A e)
    (hP : ∀ ps, A ps → P (Pattern.choice [Pattern.sequence ps])) : ReadsBodyAs caseless P e := by
  have hone : List.Forall₂ (fun e (_ : Unit) => ReadsAs caseless A e) [e] [()] := .cons h .nil
  refine readsBodyAs_join (A := fun _ => A) hone (List.cons_ne_nil e []) fun ps hps => ?_
  obtain ⟨p, qs, ⟨rs, hrs, rfl⟩, hnil, rfl⟩ := List.forall₂_cons_right_iff.mp hps
  obtain rfl := List.forall₂_nil_right_iff.mp hnil
  exact hP rs hrs

/-! ## Characters -/

/-- An atom of the text, if nothing but an atom can begin with its first character. -/
theorem readsAtomAs_of_readAtom {c : Char} {t : Text}
    (hc : c ∉ ['(', ')', '|', '*', '+', '?', '\x7b']) (hw : P w.pattern)
    (h : ∀ rest, readAtom (.initial caseless) (c :: t ++ rest) = some (w, rest)) :
    ReadsAtomAs caseless P (c :: t) where
  unrepeated rest := by
    apply unrepeated_cons
    simp only [List.mem_cons, List.not_mem_nil, or_false, not_or] at hc
    simp [isSignStart, hc]
  read hread := by
    obtain ⟨fuel', x, r, hsigns, hbody⟩ := exists_of_readBody_atom hc (h _) hread
    exact ⟨fuel', _, w, x, r, hw, hsigns, hbody⟩

/-- Every character with a meaning of its own stands for itself after a backslash. -/
theorem readsAtomAs_escaped {c : Char} (hc : isMeta c = true)
    (hP : P (letter (.initial caseless) c)) : ReadsAtomAs caseless P ['\\', c] := by
  refine readsAtomAs_of_readAtom (w := ⟨letter (.initial caseless) c, 0⟩) (by decide) hP ?_
  intro rest
  have hescape : isEscapable c = true := by simp [isEscapable, hc]
  simp [readAtom, readEscape, hescape]

/-- Every other character stands for itself. -/
theorem readsAtomAs_letter {c : Char} (hc : isMeta c = false)
    (hP : P (letter (.initial caseless) c)) : ReadsAtomAs caseless P [c] := by
  have hspecial : ∀ d ∈ ['(', ')', '|', '*', '+', '?', '\x7b'], isMeta d = true := by decide
  refine readsAtomAs_of_readAtom (w := ⟨letter (.initial caseless) c, 0⟩) ?_ hP ?_
  · intro hmem
    rw [hspecial c hmem] at hc
    exact nomatch hc
  · intro rest
    unfold readAtom
    split
    case h_1 heq => exact nomatch heq
    case h_7 heq =>
      obtain ⟨rfl, rfl⟩ := List.cons.inj heq
      rfl
    -- All other cases are told by a character with a meaning of its own.
    all_goals
      rename_i heq
      obtain ⟨rfl, -⟩ := List.cons.inj heq
      exact absurd hc (by decide)

/-- Where a backslash stands before the characters with a meaning of their own, every character
    stands for itself. -/
theorem readsAtomAs_escape {c : Char} (hP : P (letter (.initial caseless) c)) :
    ReadsAtomAs caseless P (if isMeta c then ['\\', c] else [c]) := by
  split
  · rename_i hmeta
    exact readsAtomAs_escaped hmeta hP
  · rename_i hmeta
    exact readsAtomAs_letter (by simpa using hmeta) hP

theorem readsAtomAs_blank (hP : P (.ofSet .blanks)) : ReadsAtomAs caseless P ['\\', 's'] :=
  readsAtomAs_of_readAtom (w := ⟨.ofSet .blanks, 0⟩) (by decide) hP fun _ => rfl

/-! ## Parentheses -/

/-- Parentheses that group and nothing else. -/
theorem readsAtomAs_parens (h : ReadsBodyAs caseless P e) :
    ReadsAtomAs caseless P ("(?:" ++ e ++ ")") where
  unrepeated _ := unrepeated_cons (by decide)
  read := by
    intro fuel groups body rest result hread
    have htext : (("(?:" : Text) ++ e ++ (")" : Text)) ++ rest =
        '(' :: '?' :: ':' :: (e ++ ')' :: rest) := by
      simp
    rw [htext] at hread
    obtain ⟨fuel', w, groups', r, x, r', hinner, hsigns, hbody⟩ := exists_of_readBody_parens hread
    obtain ⟨w', groups'', hw, heq⟩ := h _ _ _ _ hinner
    obtain ⟨rfl, rfl, hr⟩ : w = w' ∧ groups' = groups'' ∧ r = rest := by simpa using heq
    subst hr
    exact ⟨fuel', groups', ⟨w.pattern, w.depth + 1⟩, x, r', hw, hsigns, hbody⟩

/-- Parentheses with a name. -/
theorem readsAtomAs_named {name : Text}
    (hname : ∀ rest, readName (name ++ '>' :: rest) = some (name, rest))
    (h : ReadsBodyAs caseless P e) (hQ : ∀ index p, P p → Q (.group index (some name) p)) :
    ReadsAtomAs caseless Q ("(?P<" ++ name ++ ">" ++ e ++ ")") where
  unrepeated _ := unrepeated_cons (by decide)
  read := by
    intro fuel groups body rest result hread
    have htext : (("(?P<" : Text) ++ name ++ (">" : Text) ++ e ++ (")" : Text)) ++ rest =
        '(' :: '?' :: 'P' :: '<' :: (name ++ '>' :: (e ++ ')' :: rest)) := by
      simp
    rw [htext] at hread
    obtain ⟨fuel', index, inside, w, groups', r, x, r', hinner, hsigns, hbody⟩ :=
      exists_of_readBody_named hname hread
    obtain ⟨w', groups'', hw, heq⟩ := h _ _ _ _ hinner
    obtain ⟨rfl, rfl, hr⟩ : w = w' ∧ groups' = groups'' ∧ r = rest := by simpa using heq
    subst hr
    exact ⟨fuel', groups', _, x, r', hQ index w.pattern hw, hsigns, hbody⟩

/-! ## Whole texts -/

theorem exists_of_read? {p : Pattern} (h : read? caseless e = some p) (he : ReadsAs caseless A e) :
    ∃ ps, A ps ∧ p = choice [sequence ps] := by
  unfold read? at h
  split at h
  · rename_i w groups hread
    split at h
    · obtain rfl := Option.some.inj h
      rw [← List.append_nil e] at hread
      obtain ⟨fuel', _, ws, hws, hread⟩ := he.read unrepeated_nil hread
      cases fuel' with
      | zero => exact nomatch hread
      | succ fuel' =>
        obtain ⟨rfl, -⟩ := Prod.mk.inj (Option.some.inj hread)
        refine ⟨ws.map Written.pattern, hws, ?_⟩
        simp [Body.value, Body.close, Body.addAll, Body.none, Written.choice, Written.sequence]
    · exact nomatch h
  · exact nomatch h

/-- A pattern with an anchor at both ends is a sequence of what stands between, with the anchors. -/
theorem exists_of_read?_anchored {p : Pattern}
    (h : read? caseless ("^(?:" ++ e ++ ")$") = some p) (he : ReadsBodyAs caseless P e) :
    ∃ q, P q ∧ p = choice [sequence [.assertion .textStart, q, .assertion .textEnd]] := by
  have hstart : ReadsAtomAs caseless (· = .assertion .textStart) ['^'] :=
    readsAtomAs_of_readAtom (w := ⟨.assertion .textStart, 0⟩) (by decide) rfl fun _ => rfl
  have hend : ReadsAtomAs caseless (· = .assertion .textEnd) ['$'] :=
    readsAtomAs_of_readAtom (w := ⟨.assertion .textEnd, 0⟩) (by decide) rfl fun _ => rfl
  -- First comes the anchor at the beginning, then the group, then the anchor at the end.
  have hgroup : ReadsAs caseless (fun ps => ∃ q, P q ∧ ps = [.assertion .textStart, q])
      (['^'] ++ ("(?:" ++ e ++ ")")) := by
    refine (hstart.reads (A := (· = [.assertion .textStart])) ?_).append
      ((readsAtomAs_parens he).reads (A := fun ps => ∃ q, P q ∧ ps = [q]) ?_) ?_
    · rintro _ rfl
      rfl
    · exact fun q hq => ⟨q, hq, rfl⟩
    · rintro _ _ rfl ⟨q, hq, rfl⟩
      exact ⟨q, hq, rfl⟩
  have hwhole : ReadsAs caseless
      (fun ps => ∃ q, P q ∧ ps = [.assertion .textStart, q, .assertion .textEnd])
      (['^'] ++ ("(?:" ++ e ++ ")") ++ ['$']) := by
    refine hgroup.append (hend.reads (A := (· = [.assertion .textEnd])) ?_) ?_
    · rintro _ rfl
      rfl
    · rintro _ _ ⟨q, hq, rfl⟩ rfl
      exact ⟨q, hq, rfl⟩
  have htext : (("^(?:" : Text) ++ e ++ (")$" : Text)) =
      ['^'] ++ (("(?:" : Text) ++ e ++ (")" : Text)) ++ ['$'] := by
    simp
  rw [htext] at h
  obtain ⟨_, ⟨q, hq, rfl⟩, rfl⟩ := exists_of_read? h hwhole
  exact ⟨q, hq, rfl⟩

end TimePhrase.Pattern
