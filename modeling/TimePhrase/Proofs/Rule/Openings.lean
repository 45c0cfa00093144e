import TimePhrase.Proofs.Rule.Expression
import TimePhrase.Proofs.Rule.Reading

/-!
# Where the groups of a phrase open

In the text of a pattern a named group opens with its name between angle brackets. The text that is
written for a phrase opens the groups of the phrase, a group before those inside it, and no others:
signs in words are escaped, and a fragment opens a group only if its own text says so.

* `Pattern.openings`  the names of the groups that open in the text of a pattern
* `Phrase.opened`  the groups of a phrase, those inside a group after it
* `openings_expression`  the groups of a phrase open in its pattern text, and no others do
-/

namespace TimePhrase

namespace Pattern

/-! ## Openings in a text -/

/-- The name of the group that opens right where a text begins. -/
def opening? (s : Text) : Option Text :=
  (s.after? "(?P<").bind fun rest => (rest.splitOnce '>').map (·.1)

/-- The names of the groups that open in a text, from left to right. -/
def openings : Text → List Text
  | [] => []
  | c :: r => (opening? (c :: r)).toList ++ openings r

theorem openings_cons_of_ne {c : Char} (h : c ≠ '(') (r : Text) :
    openings (c :: r) = openings r := by
  have hnone : Text.after? (c :: r) "(?P<" = none := if_neg (Ne.symm h)
  rw [openings, opening?, hnone]
  rfl

theorem openings_append_of_ne {s : Text} (h : ∀ c ∈ s, c ≠ '(') (r : Text) :
    openings (s ++ r) = openings r := by
  induction s with
  | nil => rfl
  | cons c s ih =>
    obtain ⟨hc, hs⟩ := List.forall_mem_cons.mp h
    exact (openings_cons_of_ne hc (s ++ r)).trans (ih hs)

/-- A parenthesis opens a named group only if a question mark follows. -/
theorem openings_paren {r : Text} (h : r.head? ≠ some '?') : openings ('(' :: r) = openings r := by
  have hnone : Text.after? ('(' :: r) "(?P<" = none := by
    cases r with
    | nil => rfl
    | cons d r =>
      have hd : '?' ≠ d := fun hd => h (congrArg some hd.symm)
      exact if_neg hd
  rw [openings, opening?, hnone]
  rfl

theorem openings_parens (r : Text) : openings ("(?:" ++ r) = openings r := by
  have hnone : Text.after? ("(?:" ++ r) "(?P<" = none := rfl
  show (opening? ("(?:" ++ r)).toList ++ openings ("?:" ++ r) = openings r
  rw [opening?, hnone, openings_append_of_ne (by decide)]
  rfl

theorem openings_named {name : Text} (h : ∀ c ∈ name, c ≠ '(' ∧ c ≠ '>') (r : Text) :
    openings ("(?P<" ++ name ++ '>' :: r) = name :: openings r := by
  have hopen : opening? ("(?P<" ++ name ++ '>' :: r) = some name := by
    rw [opening?, List.append_assoc, Text.after?_append, Option.bind_some,
      Text.splitOnce_append fun c hc => (h c hc).2]
    rfl
  have hrest : openings ("?P<" ++ name ++ '>' :: r) = openings r := by
    rw [List.append_assoc, openings_append_of_ne (by decide),
      openings_append_of_ne fun c hc => (h c hc).1]
    exact openings_cons_of_ne (by decide) r
  show (opening? ("(?P<" ++ name ++ '>' :: r)).toList ++ openings ("?P<" ++ name ++ '>' :: r) = _
  rw [hopen, hrest]
  rfl

/-- A text without such an opening has none in front of a parenthesis either. -/
theorem openings_append_of_not_infix {s : Text} (h : ¬ ("(?P<" : Text) <:+: s) (r : Text) :
    openings (s ++ ')' :: r) = openings r := by
  induction s with
  | nil => exact openings_cons_of_ne (by decide) r
  | cons c s ih =>
    have hnone : Text.after? (c :: s ++ ')' :: r) "(?P<" = none := by
      rw [Option.eq_none_iff_forall_ne_some]
      intro rest hrest
      have hprefix : ("(?P<" : Text) <+: c :: s ++ ')' :: r :=
        ⟨rest, (Text.eq_append_of_after? hrest).symm⟩
      -- The opening has no closing parenthesis in it, so it ends before that one.
      rcases Nat.lt_or_ge (c :: s).length ("(?P<" : Text).length with hlt | hle
      · have hshort : c :: s ++ [')'] <+: c :: s ++ ')' :: r := ⟨r, by simp⟩
        have hmem : ')' ∈ ("(?P<" : Text) := by
          refine (List.prefix_of_prefix_length_le hshort hprefix ?_).subset (by simp)
          rw [List.length_append]
          exact hlt
        exact absurd hmem (by decide)
      · exact h (List.prefix_of_prefix_length_le hprefix (List.prefix_append ..) hle).isInfix
    have hinfix : ¬ ("(?P<" : Text) <:+: s := fun hs => h (hs.trans (List.suffix_cons c s).isInfix)
    show (opening? (c :: s ++ ')' :: r)).toList ++ openings (s ++ ')' :: r) = openings r
    rw [opening?, hnone, ih hinfix]
    rfl

/-! ## Texts in front of others -/

/-- A text opens groups of some names, whatever comes behind it. A question mark may not, since it
    could belong to a parenthesis at the end of the text. -/
def Opens (s : Text) (names : List Text) : Prop :=
  ∀ r : Text, r.head? ≠ some '?' → openings (s ++ r) = names ++ openings r

namespace Opens

variable {s t : Text} {ns ms : List Text}

theorem of_ne (h : ∀ c ∈ s, c ≠ '(') : Opens s [] := fun r _ => openings_append_of_ne h r

theorem append (hs : Opens s ns) (ht : Opens t ms) (hhead : t.head? ≠ some '?') :
    Opens (s ++ t) (ns ++ ms) := by
  intro r hr
  have hnext : (t ++ r).head? ≠ some '?' := by
    cases t with
    | nil => exact hr
    | cons c t => exact hhead
  rw [List.append_assoc, hs (t ++ r) hnext, ht r hr, List.append_assoc]

theorem parens (h : Opens s ns) : Opens ("(?:" ++ s ++ ")") ns := by
  intro r _
  have hclose : openings (")" ++ r) = openings r := openings_append_of_ne (by decide) r
  rw [List.append_assoc, List.append_assoc, openings_parens, h _ (by simp), hclose]

theorem named {name : Text} (hname : ∀ c ∈ name, c ≠ '(' ∧ c ≠ '>') (h : Opens s ns) :
    Opens ("(?P<" ++ name ++ ">" ++ s ++ ")") (name :: ns) := by
  intro r _
  have hclose : openings (")" ++ r) = openings r := openings_append_of_ne (by decide) r
  have hopen : openings ("(?P<" ++ name ++ ">" ++ s ++ ")" ++ r) =
      name :: openings (s ++ (")" ++ r)) := by
    rw [← openings_named hname]
    simp
  rw [hopen, h _ (by simp), hclose]
  rfl

/-- Texts with a separator between neighbours that does not begin with a question mark. -/
theorem join {sep : Text} {es : List Text} {nss : List (List Text)} (hsep : ∀ c ∈ sep, c ≠ '(')
    (hne : sep ≠ []) (hhead : sep.head? ≠ some '?') (h : List.Forall₂ Opens es nss) :
    Opens (Text.join sep es) nss.flatten := by
  induction h with
  | nil => exact fun _ _ => rfl
  | @cons e ns es nss he h ih =>
    cases h with
    | nil =>
      rw [List.flatten_singleton]
      exact he
    | @cons e' ns' es nss he' h =>
      have hstart : (sep ++ Text.join sep (e' :: es)).head? ≠ some '?' := by
        cases sep with
        | nil => exact absurd rfl hne
        | cons c sep => exact hhead
      have hrest : Opens (sep ++ Text.join sep (e' :: es)) (ns' :: nss).flatten := by
        intro r hr
        rw [List.append_assoc, openings_append_of_ne hsep]
        exact ih r hr
      have hall := he.append hrest hstart
      rwa [← List.append_assoc] at hall

end Opens

end Pattern

namespace Phrase

open Pattern

/-! ## The groups of a phrase -/

mutual

/-- The groups of a phrase with their marks and bodies, in the order in which they open. -/
def opened : Phrase → List (Nat × Mark × Phrase)
  | .words _ => []
  | .sequence ps => openedOf ps
  | .choice ps => openedOf ps
  | .fragment _ => []
  | .group part mark body => (part, mark, body) :: body.opened

/-- The groups of the phrases of a list. -/
def openedOf : List Phrase → List (Nat × Mark × Phrase)
  | [] => []
  | p :: r => p.opened ++ openedOf r

end

theorem openedOf_append (ps qs : List Phrase) : openedOf (ps ++ qs) = openedOf ps ++ openedOf qs := by
  induction ps with
  | nil => rfl
  | cons p r ih => simp only [List.cons_append, openedOf, ih, List.append_assoc]

/-- The names of the groups that open in a phrase. -/
def openedNames (p : Phrase) : List Text := p.opened.map fun g => Part.name g.1

theorem opens_escaped (w : Text) : Opens (escaped w) [] := by
  induction w with
  | nil => exact fun _ _ => rfl
  | cons c w ih =>
    have hhead : (escaped w).head? ≠ some '?' := by
      cases w with
      | nil => exact nofun
      | cons d w =>
        rw [escaped, List.flatMap_cons]
        split
        · simp
        · rename_i hd
          rintro hd'
          obtain rfl : d = '?' := by simpa using hd'
          exact absurd (by decide) hd
    have hchar : Opens (if isMeta c then ['\\', c] else [c]) [] := by
      by_cases hc : c = '('
      · subst hc
        intro r hr
        rw [if_pos (by decide)]
        exact (openings_cons_of_ne (by decide) _).trans (openings_paren hr)
      · refine Opens.of_ne fun d hd => ?_
        split at hd
        · rcases List.mem_cons.mp hd with rfl | hd
          · decide
          · rwa [List.mem_singleton.mp hd]
        · rwa [List.mem_singleton.mp hd]
    exact hchar.append ih hhead

theorem opens_words (ws : List Text) : Opens (words ws).expression [] := by
  have hwords : List.Forall₂ Opens (ws.map escaped) (ws.map fun _ => []) := by
    rw [List.forall₂_map_left_iff, List.forall₂_map_right_iff, List.forall₂_same]
    exact fun w _ => opens_escaped w
  have hnone : (ws.map fun _ => ([] : List Text)).flatten = [] := by simp
  have hsep : ∀ c ∈ ("\\s+" : Text), c ≠ '(' := by decide
  have hjoin := Opens.join hsep (by decide) (by decide) hwords
  rw [hnone] at hjoin
  exact hjoin.parens

theorem opens_fragment {e : Text} (h : ¬ ("(?P<" : Text) <:+: e) : Opens (fragment e).expression [] := by
  intro r _
  show openings ("(?:" ++ e ++ ")" ++ r) = openings r
  rw [List.append_assoc, List.append_assoc, openings_parens]
  exact openings_append_of_not_infix h r

theorem opens_join {ps : List Phrase} {sep : Text} (hsep : ∀ c ∈ sep, c ≠ '(') (hne : sep ≠ [])
    (hhead : sep.head? ≠ some '?') (h : ∀ p ∈ ps, Opens p.expression p.openedNames) :
    Opens (Text.join sep (expressions ps)) ((openedOf ps).map fun g => Part.name g.1) := by
  have hnames : (ps.map openedNames).flatten = (openedOf ps).map fun g => Part.name g.1 := by
    clear h
    induction ps with
    | nil => rfl
    | cons p r ih =>
      rw [List.map_cons, List.flatten_cons, ih, openedOf, List.map_append]
      rfl
  rw [← hnames]
  refine Opens.join hsep hne hhead ?_
  rw [expressions_eq_map, List.forall₂_map_left_iff, List.forall₂_map_right_iff, List.forall₂_same]
  exact h

theorem ne_of_mem_name {part : Nat} : ∀ c ∈ Part.name part, c ≠ '(' ∧ c ≠ '>' := by
  refine List.forall_mem_append.mpr ⟨by decide, fun c hc => ?_⟩
  have hdigit := Text.isDigit_of_mem_ofNat c hc
  constructor
  · rintro rfl
    exact absurd hdigit (by decide)
  · rintro rfl
    exact absurd hdigit (by decide)

theorem ne_of_mem_sign (range : Repeat) : ∀ c ∈ range.sign, c ≠ '(' := by
  have hdigit (n : Nat) : ∀ c ∈ Text.ofNat n, c ≠ '(' := by
    intro c hc
    rintro rfl
    exact absurd (Text.isDigit_of_mem_ofNat _ hc) (by decide)
  cases range <;>
    simp only [Repeat.sign, List.cons_append, List.forall_mem_cons, List.forall_mem_append]
  case exactly n => exact ⟨by decide, hdigit n, by decide⟩
  case atLeast m => exact ⟨by decide, hdigit m, by decide⟩
  case between m n => exact ⟨by decide, ⟨hdigit m, by decide, hdigit n⟩, by decide⟩

/-- A group opens before those inside it. -/
theorem opens_group (part : Nat) (m : Mark) {body : Phrase}
    (h : Opens body.expression body.openedNames) :
    Opens (group part m body).expression (group part m body).openedNames := by
  show Opens _ (Part.name part :: body.openedNames)
  cases hm : m.range with
  | none =>
    rw [expression_group_none part body hm]
    exact h.named ne_of_mem_name
  | some range =>
    have hsign : Opens (inParens body.expression ++ range.sign) (body.openedNames ++ []) := by
      refine h.parens.append (Opens.of_ne (ne_of_mem_sign range)) ?_
      cases range <;> simp [Repeat.sign]
    rw [List.append_nil] at hsign
    rw [expression_group_some part body hm]
    exact hsign.named ne_of_mem_name

/-- The groups of a phrase open in what is written for it, if no fragment opens a group. -/
theorem isInherited_opens {fragments : Fragments}
    (h : ∀ f ∈ fragments, ¬ ("(?P<" : Text) <:+: f.expression) :
    IsInherited fragments fun p => Opens p.expression p.openedNames where
  words ws := opens_words ws
  fragment f hf := opens_fragment (h f hf)
  sequence _ hps := opens_join (by decide) (by decide) (by decide) hps
  choice _ hps := (opens_join (by decide) (by decide) (by decide) hps).parens
  group part mark _ hbody := opens_group part mark hbody

/-- The groups of a phrase open in its pattern text, one after the other, and no others do. -/
theorem openings_expression {ruleId : Text} {fragments : Fragments} {children : List Node}
    {p : Phrase} (hp : ofChildren ruleId fragments children = .ok p)
    (h : ∀ f ∈ fragments, ¬ ("(?P<" : Text) <:+: f.expression) :
    openings p.expression = p.opened.map fun g => Part.name g.1 := by
  have hopens := (isInherited_opens h).of_ofChildren hp [] nofun
  rw [List.append_nil] at hopens
  exact hopens.trans (List.append_nil _)

end Phrase

end TimePhrase
