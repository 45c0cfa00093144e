import TimePhrase.Proofs.Pattern.Hidden
import TimePhrase.Proofs.Rule.Expression

/-!
# What is read of a phrase

The text that is written for a phrase is read back as patterns of some kind, wherever it stands, if
the fragments in it do not break out of the parentheses around them. A phrase without words or
references outside of excluded groups becomes a pattern that hides what it matches.

* `IsClosed`  fragments that keep to their parentheses
* `Yields`  the patterns that a phrase is read back as
* `yields_any`  some pattern or other
* `yields_hides`  a pattern that hides what it matches
-/

namespace TimePhrase.Phrase

open Pattern

/-! ## Phrases -/

/-- Whether the reader comes out of a text between parentheses right before the closing one,
    whatever stands behind that. -/
def IsClosed [PropertyTable] (caseless : Bool) (e : Text) : Prop :=
  ∀ fuel groups rest w groups' rest',
    readBody fuel (.initial caseless) groups .none (e ++ ')' :: rest) = some (w, groups', rest') →
    rest' = ')' :: rest

mutual

/-- The pattern texts of the fragments that a phrase refers to. -/
def references : Phrase → List Text
  | .words _ => []
  | .sequence ps => referencesOf ps
  | .choice ps => referencesOf ps
  | .fragment e => [e]
  | .group _ _ body => body.references

/-- The pattern texts of the fragments that the phrases of a list refer to. -/
def referencesOf : List Phrase → List Text
  | [] => []
  | p :: r => p.references ++ referencesOf r

end

mutual

/-- Whether all words and fragments of a phrase stand in excluded groups, none of which comes more
    than once in a row within another group. -/
def hides : Phrase → Bool
  | .words _ => false
  | .sequence ps => allHide ps
  | .choice ps => allHide ps
  | .fragment _ => false
  | .group _ mark body =>
    mark.excluded || (body.hides && (body.excluded.isEmpty || !mark.range.any Repeat.isOpen))

/-- Whether this is so for all phrases of a list. -/
def allHide : List Phrase → Bool
  | [] => true
  | p :: r => p.hides && allHide r

end

theorem excluded_group (part : Nat) (m : Mark) (body : Phrase) :
    (group part m body).excluded = body.excluded ++ if m.excluded then [part] else [] := by
  cases hm : m.excluded <;> simp [excluded, groups, hm]

/-- The excluded groups of the phrases of a list. -/
def excludedOf (ps : List Phrase) : List Nat := ps.flatMap excluded

theorem excluded_eq_excludedOf (ps : List Phrase) :
    ((groupsOf ps).filter (·.2.excluded)).map (·.1) = excludedOf ps := by
  induction ps with
  | nil => rfl
  | cons p r ih =>
    rw [groupsOf, List.filter_append, List.map_append, ih]
    rfl

theorem excluded_sequence (ps : List Phrase) : (sequence ps).excluded = excludedOf ps :=
  excluded_eq_excludedOf ps

theorem excluded_choice (ps : List Phrase) : (choice ps).excluded = excludedOf ps :=
  excluded_eq_excludedOf ps

/-! ## Patterns of some kind -/

/-- What is written for a phrase is read as members of a body that are all of some kind. -/
def Yields [PropertyTable] (caseless : Bool) (P : Pattern → Prop) (p : Phrase) : Prop :=
  ReadsAs caseless (fun qs => ∀ q ∈ qs, P q) p.expression

variable {caseless : Bool} {P Q : Pattern → Prop} {s : Text} {p : Phrase} {ps : List Phrase}

/-- Parts with a separator between neighbours. -/
theorem readsAs_join [PropertyTable] (hs : ReadsAs caseless (fun qs => ∀ q ∈ qs, P q) s)
    {es : List Text} (h : ∀ e ∈ es, ReadsAs caseless (fun qs => ∀ q ∈ qs, P q) e) :
    ReadsAs caseless (fun qs => ∀ q ∈ qs, P q) (Text.join s es) := by
  have happend {e f : Text} (he : ReadsAs caseless (fun qs => ∀ q ∈ qs, P q) e)
      (hf : ReadsAs caseless (fun qs => ∀ q ∈ qs, P q) f) :
      ReadsAs caseless (fun qs => ∀ q ∈ qs, P q) (e ++ f) :=
    he.append hf fun _ _ hqs hrs => List.forall_mem_append.mpr ⟨hqs, hrs⟩
  induction es with
  | nil => exact ReadsAs.nil nofun
  | cons e es ih =>
    obtain ⟨he, hes⟩ := List.forall_mem_cons.mp h
    cases es with
    | nil => exact he
    | cons _ _ => exact happend (happend he hs) (ih hes)

/-- Any number of blanks. -/
abbrev anyBlanks : Pattern := (ofSet .blanks).repeated 0 none true

theorem forall_mem_expressions {R : Text → Prop} (h : ∀ p ∈ ps, R p.expression) :
    ∀ e ∈ expressions ps, R e := by
  rw [expressions_eq_map]
  exact List.forall_mem_map.mpr h

theorem yields_sequence [PropertyTable] (hblanks : P anyBlanks)
    (h : ∀ p ∈ ps, p.Yields caseless P) :
    (sequence ps).Yields caseless P := by
  refine readsAs_join ?_ (forall_mem_expressions h)
  refine (readsAtomAs_blank (P := (· = ofSet .blanks)) rfl).repeated isSign_star ?_
  rintro - _ rfl
  exact List.forall_mem_singleton.mpr hblanks

theorem yields_choice [PropertyTable] (hP : IsHereditary P) (h : ∀ p ∈ ps, p.Yields caseless P) :
    (choice ps).Yields caseless P := by
  have hbody : ReadsBodyAs caseless P (Text.join ['|'] (expressions ps)) := by
    by_cases hnil : ps = []
    · subst hnil
      refine ReadsAs.readsBody (A := (· = [])) (ReadsAs.nil rfl) ?_
      rintro _ rfl
      exact hP.choice (List.forall_mem_singleton.mpr hP.empty)
    · have heach : List.Forall₂ (fun e _ => ReadsAs caseless (fun qs => ∀ q ∈ qs, P q) e)
          (expressions ps) (expressions ps) :=
        List.forall₂_same.mpr (forall_mem_expressions h)
      have hne : expressions ps ≠ [] := by
        rw [expressions_eq_map]
        simpa using hnil
      refine readsBodyAs_join (A := fun _ qs => ∀ q ∈ qs, P q) heach hne fun qs hqs => hP.choice ?_
      intro q hq
      obtain ⟨i, hi, rfl⟩ := List.mem_iff_getElem.mp hq
      obtain ⟨rs, hrs, heq⟩ := hqs.get hi (hqs.length_eq ▸ hi)
      show P (qs.get ⟨i, hi⟩)
      rw [heq]
      exact hP.sequence hrs
  exact (readsAtomAs_parens hbody).reads fun q hq => List.forall_mem_singleton.mpr hq

/-- What is written for a phrase is a body. -/
theorem Yields.readsBody [PropertyTable] (hP : IsHereditary P) (h : p.Yields caseless P) :
    ReadsBodyAs caseless P p.expression :=
  ReadsAs.readsBody h fun _ hqs => hP.choice (List.forall_mem_singleton.mpr (hP.sequence hqs))

/-- A group yields its body, which is repeated if the group has a range. -/
theorem yields_group [PropertyTable] (part : Nat) (m : Mark) (hP : IsHereditary P)
    (h : p.Yields caseless P)
    (hrange : ∀ range ∈ m.range, (∀ k ∈ range.most, range.least ≤ k) →
      ∀ q, P q → P (q.repeated range.least range.most true))
    (hQ : ∀ index q, P q → Q (.group index (some (Part.name part)) q)) :
    (group part m p).Yields caseless Q := by
  have hnamed {e : Text} (he : ReadsBodyAs caseless P e) : ReadsAs caseless
      (fun qs => ∀ q ∈ qs, Q q) ("(?P<" ++ Part.name part ++ ">" ++ e ++ ")") :=
    (readsAtomAs_named (readName_name part) he hQ).reads fun _ hq =>
      List.forall_mem_singleton.mpr hq
  cases hm : m.range with
  | none =>
    rw [Yields, expression_group_none part p hm]
    exact hnamed (h.readsBody hP)
  | some range =>
    have hrepeated : ReadsAs caseless (fun qs => ∀ q ∈ qs, P q)
        (inParens p.expression ++ range.sign) :=
      (readsAtomAs_parens (h.readsBody hP)).repeated range.isSign_sign fun hbounds q hq =>
        List.forall_mem_singleton.mpr (hrange range hm hbounds q hq)
    rw [Yields, expression_group_some part p hm]
    exact hnamed (hrepeated.readsBody fun _ hqs =>
      hP.choice (List.forall_mem_singleton.mpr (hP.sequence hqs)))

/-! ## Any patterns -/

theorem isHereditary_any : IsHereditary fun _ => True where
  empty := trivial
  concat := by simp
  either := by simp
  literal _ _ := trivial
  single _ := trivial
  unions _ := trivial

theorem readsAs_escaped [PropertyTable] (w : Text) :
    ReadsAs caseless (fun qs => ∀ q ∈ qs, True) (escaped w) := by
  induction w with
  | nil => exact ReadsAs.nil fun _ _ => trivial
  | cons c w ih =>
    have hchar : ReadsAs caseless (fun qs => ∀ q ∈ qs, True)
        (if isMeta c then ['\\', c] else [c]) :=
      (readsAtomAs_escape (P := fun _ => True) trivial).reads fun _ _ _ _ => trivial
    rw [escaped, List.flatMap_cons]
    exact hchar.append ih fun _ _ _ _ _ _ => trivial

theorem yields_words [PropertyTable] (ws : List Text) :
    (words ws).Yields caseless fun _ => True := by
  have hblanks : ReadsAs caseless (fun qs => ∀ q ∈ qs, True) "\\s+" :=
    (readsAtomAs_blank (P := fun _ => True) trivial).repeated isSign_plus fun _ _ _ _ _ => trivial
  have hwords := readsAs_join hblanks (List.forall_mem_map.mpr fun w (_ : w ∈ ws) =>
    readsAs_escaped w)
  have hbody : ReadsBodyAs caseless (fun _ => True) (Text.join "\\s+" (ws.map escaped)) :=
    hwords.readsBody fun _ _ => trivial
  exact (readsAtomAs_parens hbody).reads fun _ _ _ _ => trivial

/-- The text of a body is closed, whatever the body is read as. -/
theorem isClosed_iff [PropertyTable] {e : Text} :
    IsClosed caseless e ↔ ReadsBodyAs caseless (fun _ => True) e := by
  constructor
  · rintro h fuel groups rest ⟨w, groups', rest'⟩ hread
    obtain rfl := h fuel groups rest w groups' rest' hread
    exact ⟨w, groups', trivial, rfl⟩
  · intro h fuel groups rest w groups' rest' hread
    obtain ⟨_, _, -, heq⟩ := h fuel groups rest _ hread
    exact (Prod.mk.inj (Prod.mk.inj heq).2).2

/-- Words with bars between them are a closed text. -/
theorem isClosed_join_escaped [PropertyTable] (ws : List Text) (hne : ws ≠ []) :
    IsClosed caseless (Text.join ['|'] (ws.map escaped)) := by
  have hwords : List.Forall₂ (fun e _ => ReadsAs caseless (fun qs => ∀ q ∈ qs, True) e)
      (ws.map escaped) ws := by
    rw [List.forall₂_map_left_iff, List.forall₂_same]
    exact fun w _ => readsAs_escaped w
  exact isClosed_iff.mpr (readsBodyAs_join (A := fun _ qs => ∀ q ∈ qs, True) hwords
    (by simpa using hne) fun _ _ => trivial)

theorem yields_fragment [PropertyTable] {e : Text} (h : IsClosed caseless e) :
    (fragment e).Yields caseless fun _ => True :=
  (readsAtomAs_parens (isClosed_iff.mp h)).reads fun _ _ _ _ => trivial

mutual

/-- Every phrase yields some pattern, if its fragments are closed. -/
theorem yields_any [PropertyTable] {p : Phrase} (h : ∀ e ∈ p.references, IsClosed caseless e) :
    p.Yields caseless fun _ => True := by
  match p with
  | .words ws => exact yields_words ws
  | .sequence ps => exact yields_sequence trivial (forall_yields_any h)
  | .choice ps => exact yields_choice isHereditary_any (forall_yields_any h)
  | .fragment e => exact yields_fragment (h e (List.mem_singleton_self e))
  | .group part m body =>
    exact yields_group part m isHereditary_any (yields_any h) (fun _ _ _ _ _ => trivial)
      fun _ _ _ => trivial

theorem forall_yields_any [PropertyTable] {ps : List Phrase}
    (h : ∀ e ∈ referencesOf ps, IsClosed caseless e) :
    ∀ p ∈ ps, p.Yields caseless fun _ => True := by
  match ps with
  | [] => exact nofun
  | p :: r =>
    obtain ⟨hp, hr⟩ := List.forall_mem_append.mp h
    exact List.forall_mem_cons.mpr ⟨yields_any hp, forall_yields_any hr⟩

end

/-! ## Patterns that hide what they match -/

theorem hides_blanks (hidden : List Text) : (ofSet .blanks).Hides hidden :=
  hides_ofSet ⟨CharSet.isProper_blanks, fun _ hc => hc⟩

mutual

/-- A phrase that hides what it matches yields such a pattern, if its fragments are closed. -/
theorem yields_hides [PropertyTable] {p : Phrase} {hidden : List Text} (hp : p.hides = true)
    (hnames : ∀ part ∈ p.excluded, Part.name part ∈ hidden)
    (h : ∀ e ∈ p.references, IsClosed caseless e) : p.Yields caseless (Hides · hidden) := by
  match p with
  | .words ws => exact nomatch hp
  | .sequence ps =>
    rw [excluded_sequence] at hnames
    exact yields_sequence (hides_repeated (hides_blanks hidden) true (.inl (hides_blanks [])))
      (forall_yields_hides hp hnames h)
  | .choice ps =>
    rw [excluded_choice] at hnames
    exact yields_choice (isHereditary_hides hidden) (forall_yields_hides hp hnames h)
  | .fragment e => exact nomatch hp
  | .group part m body =>
    rw [excluded_group, List.forall_mem_append] at hnames
    by_cases hexcluded : m.excluded = true
    · -- Whatever is in the group, the group hides it.
      have hname := hnames.2 part (by simp [hexcluded])
      exact yields_group part m isHereditary_any (yields_any h) (fun _ _ _ _ _ => trivial)
        fun _ _ _ => .inl ⟨_, hname, rfl⟩
    · have hbody : body.hides = true ∧
          (body.excluded = [] ∨ m.range.any Repeat.isOpen = false) := by
        simpa [hides, hexcluded] using hp
      rcases hbody.2 with hnone | honce
      · -- Only blanks are in the group, so it may be repeated.
        have hyields : body.Yields caseless (Hides · []) :=
          yields_hides hbody.1 (by simp [hnone]) h
        exact yields_group part m (isHereditary_hides []) hyields
          (fun _ _ _ _ hq => hides_repeated hq true (.inl hq)) fun _ _ hq => .inr (hq.of_nil hidden)
      · have hyields := yields_hides hbody.1 hnames.1 h
        refine yields_group part m (isHereditary_hides hidden) hyields ?_ fun _ _ hq => .inr hq
        intro range hrange hbounds q hq
        refine hides_repeated hq true (.inr ?_)
        rw [hrange, Option.any_some, Repeat.isOpen, Bool.not_eq_false'] at honce
        obtain ⟨k, hk, hle⟩ := (Option.any_eq_true ..).mp honce
        exact ⟨k, hk, hbounds k hk, by simpa using hle⟩

theorem forall_yields_hides [PropertyTable] {ps : List Phrase} {hidden : List Text}
    (hps : allHide ps = true) (hnames : ∀ part ∈ excludedOf ps, Part.name part ∈ hidden)
    (h : ∀ e ∈ referencesOf ps, IsClosed caseless e) :
    ∀ p ∈ ps, p.Yields caseless (Hides · hidden) := by
  match ps with
  | [] => exact nofun
  | p :: r =>
    obtain ⟨hp, hr⟩ := Bool.and_eq_true_iff.mp hps
    obtain ⟨hpnames, hrnames⟩ := List.forall_mem_append.mp hnames
    obtain ⟨hprefs, hrrefs⟩ := List.forall_mem_append.mp h
    exact List.forall_mem_cons.mpr
      ⟨yields_hides hp hpnames hprefs, forall_yields_hides hr hrnames hrrefs⟩

end

end TimePhrase.Phrase
