import TimePhrase.Document.Reader
import TimePhrase.Proofs.Text.Search

/-!
# Longer texts

Comments, instructions and tags show where they end. What has been read of a text as one of them is
read of every longer text as well, and what has been added is left over. Names and white space only
end where something else begins, so this holds of them where something is left over already.

* `skipInstruction_eq_some`, `readStartTag_eq_some`  the parts of an instruction and of a tag
* `skipComment_append`, `skipInstruction_append`  comments and instructions
* `readStartTag_append`, `readEndTag_append`  tags
* `readReference_append`  references
-/

namespace TimePhrase

namespace Document

variable {s r z : Text} {c : Char}

/-! ## Names and white space -/

theorem skipSpace_append (h : skipSpace s = c :: r) (z : Text) :
    skipSpace (s ++ z) = c :: (r ++ z) :=
  Text.dropWhile_append_of_eq_cons h z

theorem exists_cons_of_skipSpace (h : skipSpace s = c :: r) : ∃ d t, s = d :: t := by
  cases s with
  | nil => exact nomatch h
  | cons d t => exact ⟨d, t, rfl⟩

theorem skipSpace_append_of_ne_nil (h : skipSpace s ≠ []) (z : Text) :
    skipSpace (s ++ z) = skipSpace s ++ z := by
  obtain ⟨c, r, hskip⟩ := List.exists_cons_of_ne_nil h
  rw [skipSpace_append hskip, hskip]
  rfl

theorem readName_append {name : Text} (h : readName s = some (name, c :: r)) (z : Text) :
    readName (s ++ z) = some (name, c :: (r ++ z)) := by
  unfold readName at h ⊢
  split at h
  · exact nomatch h
  · rename_i d t hrun
    split at h
    · rename_i hstart
      obtain ⟨rfl, hrest⟩ := Prod.mk.inj (Option.some.inj h)
      rw [Text.takeWhile_append_of_dropWhile_eq_cons hrest, hrun]
      simp only [hstart, if_true, Text.dropWhile_append_of_eq_cons hrest]
    · exact nomatch h

theorem Name.read?_append {name : Name} (h : Name.read? s = some (name, c :: r)) (z : Text) :
    Name.read? (s ++ z) = some (name, c :: (r ++ z)) := by
  unfold Name.read? at h ⊢
  obtain ⟨n, hname, heq⟩ := Option.map_eq_some_iff.mp h
  obtain ⟨rfl, hrest⟩ := Prod.mk.inj heq
  rw [Text.takeWhile_append_of_dropWhile_eq_cons hrest, hname, Text.dropWhile_append_of_eq_cons hrest]
  rfl

theorem suffix_of_readName {name : Text} (h : readName s = some (name, r)) : r <:+ s := by
  unfold readName at h
  split at h
  · exact nomatch h
  · split at h
    · obtain ⟨-, rfl⟩ := Prod.mk.inj (Option.some.inj h)
      exact List.dropWhile_suffix _
    · exact nomatch h

theorem Name.suffix_of_read? {name : Name} (h : Name.read? s = some (name, r)) : r <:+ s := by
  unfold Name.read? at h
  obtain ⟨n, -, heq⟩ := Option.map_eq_some_iff.mp h
  obtain ⟨-, rfl⟩ := Prod.mk.inj heq
  exact List.dropWhile_suffix _

/-- A name begins with a character that can stand in names. -/
theorem Name.exists_of_read? {name : Name} (h : Name.read? s = some (name, r)) :
    ∃ c t, s = c :: t ∧ isNameChar c = true := by
  unfold Name.read? at h
  obtain ⟨n, hname, -⟩ := Option.map_eq_some_iff.mp h
  have hnil : Name.ofText? [] = none := by decide
  cases s with
  | nil =>
    rw [List.takeWhile_nil, hnil] at hname
    exact nomatch hname
  | cons c t =>
    refine ⟨c, t, rfl, ?_⟩
    by_contra hc
    rw [List.takeWhile_cons_of_neg hc, hnil] at hname
    exact nomatch hname

/-! ## Comments and instructions -/

/-- The parts of a comment. -/
theorem skipComment_eq_some : skipComment s = some r ↔ ∃ body, s.breakOn? "-->" = some (body, r) ∧
    (body.all isAllowed && (body.breakOn? "--").isNone && body.getLast? != some '-') = true := by
  unfold skipComment
  cases s.breakOn? "-->" with
  | none => exact ⟨nofun, fun ⟨_, h, _⟩ => nomatch h⟩
  | some p =>
    simp only [Option.ite_none_right_eq_some, Option.some.injEq]
    constructor
    · rintro ⟨hbody, rfl⟩
      exact ⟨p.1, rfl, hbody⟩
    · rintro ⟨body, rfl, hbody⟩
      exact ⟨hbody, rfl⟩

theorem skipComment_append (h : skipComment s = some r) (z : Text) :
    skipComment (s ++ z) = some (r ++ z) := by
  obtain ⟨body, hbreak, hbody⟩ := skipComment_eq_some.mp h
  exact skipComment_eq_some.mpr ⟨body, Text.breakOn?_append hbreak z, hbody⟩

/-- The parts of an instruction. -/
theorem skipInstruction_eq_some : skipInstruction s = some r ↔
    ∃ name t body, s.after? "xml " = none ∧ readName s = some (name, t) ∧
      t.breakOn? "?>" = some (body, r) ∧ body.all isAllowed = true := by
  unfold skipInstruction
  constructor
  · intro h
    split at h
    · exact nomatch h
    · rename_i hxml
      split at h
      · exact nomatch h
      · rename_i name t hname
        split at h
        · exact nomatch h
        · rename_i body rest hbreak
          obtain ⟨hbody, heq⟩ := Option.ite_none_right_eq_some.mp h
          obtain rfl := Option.some.inj heq
          exact ⟨name, t, body, by simpa using hxml, hname, hbreak, hbody⟩
  · rintro ⟨name, t, body, hxml, hname, hbreak, hbody⟩
    simp only [hxml, Option.isSome_none, Bool.false_eq_true, if_false, hname, hbreak, if_pos hbody]

/-- An instruction has a question mark at its end, so that it is not cut short. -/
theorem skipInstruction_append (h : skipInstruction s = some r) (z : Text) :
    skipInstruction (s ++ z) = some (r ++ z) := by
  obtain ⟨name, t, body, hxml, hname, hbreak, hbody⟩ := skipInstruction_eq_some.mp h
  have hmark : '?' ∈ t := by
    rw [Text.eq_append_of_breakOn? hbreak]
    simp
  obtain ⟨c, t, rfl⟩ := List.exists_cons_of_ne_nil (List.ne_nil_of_mem hmark)
  have hmem := (suffix_of_readName hname).subset hmark
  exact skipInstruction_eq_some.mpr ⟨name, c :: (t ++ z), body,
    Text.after?_append_eq_none_of_mem hxml hmem (by decide) z, readName_append hname z,
    Text.breakOn?_append hbreak z, hbody⟩

theorem suffix_of_breakOn? {mark body : Text} (h : s.breakOn? mark = some (body, r)) : r <:+ s := by
  rw [Text.eq_append_of_breakOn? h]
  exact List.suffix_append _ r

theorem suffix_of_skipComment (h : skipComment s = some r) : r <:+ s := by
  obtain ⟨body, hbreak, -⟩ := skipComment_eq_some.mp h
  exact suffix_of_breakOn? hbreak

theorem suffix_of_skipInstruction (h : skipInstruction s = some r) : r <:+ s := by
  obtain ⟨name, t, body, -, hname, hbreak, -⟩ := skipInstruction_eq_some.mp h
  exact (suffix_of_breakOn? hbreak).trans (suffix_of_readName hname)

/-! ## Tags -/

/-- What stands between quotes of a sort. -/
def isQuotable (q c : Char) : Bool := c != q && c != '<'

/-- The parts of an assignment. -/
theorem readAssignment_eq_some {name : Name} {written : Text} :
    readAssignment s = some ((name, written), r) ↔
      ∃ t t₁ t₂ q, Name.read? s = some (name, t) ∧ skipSpace t = '=' :: t₁ ∧
        skipSpace t₁ = q :: t₂ ∧ (q = '"' ∨ q = '\'') ∧ t₂.takeWhile (isQuotable q) = written ∧
        t₂.dropWhile (isQuotable q) = q :: r ∧ written.all isAllowed = true := by
  unfold readAssignment
  constructor
  · intro h
    split at h
    · exact nomatch h
    · rename_i name' t hname
      split at h
      · rename_i t₁ hequals
        split at h
        · rename_i q t₂ hquote
          split at h
          · rename_i hq
            simp only at h
            split at h
            · rename_i c rest hrest
              split at h
              · rename_i hend
                obtain ⟨hpair, rfl⟩ := Prod.mk.inj (Option.some.inj h)
                obtain ⟨rfl, rfl⟩ := Prod.mk.inj hpair
                obtain ⟨rfl, hall⟩ := hend
                rw [Text.drop_length_takeWhile] at hrest
                exact ⟨t, t₁, t₂, c, hname, hequals, hquote, hq, rfl, hrest, hall⟩
              · exact nomatch h
            · exact nomatch h
          · exact nomatch h
        · exact nomatch h
      · exact nomatch h
  · rintro ⟨t, t₁, t₂, q, hname, hequals, hquote, hq, rfl, hrest, hall⟩
    have hdrop : t₂.drop (t₂.takeWhile fun c => c != q && c != '<').length = q :: r :=
      (Text.drop_length_takeWhile (isQuotable q) t₂).trans hrest
    simp only [hname, hequals, hquote, if_pos hq, hdrop]
    exact if_pos ⟨trivial, hall⟩

theorem readAssignment_append {a : Name × Text} (h : readAssignment s = some (a, r)) (z : Text) :
    readAssignment (s ++ z) = some (a, r ++ z) := by
  obtain ⟨t, t₁, t₂, q, hname, hequals, hquote, hq, hwritten, hrest, hall⟩ :=
    readAssignment_eq_some.mp h
  obtain ⟨c, t, rfl⟩ := exists_cons_of_skipSpace hequals
  refine readAssignment_eq_some.mpr ⟨c :: (t ++ z), t₁ ++ z, t₂ ++ z, q, Name.read?_append hname z,
    skipSpace_append hequals z, skipSpace_append hquote z, hq, ?_,
    Text.dropWhile_append_of_eq_cons hrest z, hall⟩
  rw [Text.takeWhile_append_of_dropWhile_eq_cons hrest, hwritten]

theorem suffix_of_readAssignment {a : Name × Text} (h : readAssignment s = some (a, r)) :
    r <:+ s := by
  obtain ⟨t, t₁, t₂, q, hname, hequals, hquote, -, -, hrest, -⟩ := readAssignment_eq_some.mp h
  have hend : q :: r <:+ t₂ := hrest ▸ List.dropWhile_suffix _
  have hquoted : q :: t₂ <:+ t₁ := hquote ▸ List.dropWhile_suffix _
  have hassigned : '=' :: t₁ <:+ t := hequals ▸ List.dropWhile_suffix _
  exact (((List.suffix_cons q r).trans hend).trans ((List.suffix_cons q t₂).trans hquoted)).trans
    (((List.suffix_cons '=' t₁).trans hassigned).trans (Name.suffix_of_read? hname))

theorem readAttribute_append {a : Name × Text} (h : readAttribute s = some (a, r)) (z : Text) :
    readAttribute (s ++ z) = some (a, r ++ z) := by
  unfold readAttribute at h ⊢
  split at h
  · exact nomatch h
  · rename_i name written rest hassign
    rw [readAssignment_append hassign]
    obtain ⟨value, hvalue, heq⟩ := Option.map_eq_some_iff.mp h
    obtain ⟨rfl, rfl⟩ := Prod.mk.inj heq
    simp only [hvalue, Option.map_some]

/-- An attribute begins with a character that can stand in names. -/
theorem exists_of_readAttribute {a : Name × Text} (h : readAttribute s = some (a, r)) :
    ∃ c t, s = c :: t ∧ isNameChar c = true := by
  unfold readAttribute at h
  split at h
  · exact nomatch h
  · rename_i name written rest hassign
    obtain ⟨t, -, -, -, hname, -⟩ := readAssignment_eq_some.mp hassign
    exact Name.exists_of_read? hname

/-- Either the tag ends, or there is one more attribute after white space. -/
theorem readAttributes_succ {fuel : Nat} {as : List (Name × Text)} {ending : TagEnd} :
    readAttributes (fuel + 1) s = some (as, ending, r) ↔
      (skipSpace s = '/' :: '>' :: r ∧ as = [] ∧ ending = .closed) ∨
      (skipSpace s = '>' :: r ∧ as = [] ∧ ending = .opened) ∨
      ∃ a others t, s.head?.any isSpace = true ∧ readAttribute (skipSpace s) = some (a, t) ∧
        readAttributes fuel t = some (others, ending, r) ∧ as = a :: others := by
  constructor
  · intro h
    unfold readAttributes at h
    split at h
    · rename_i rest hclosed
      obtain ⟨rfl, hend⟩ := Prod.mk.inj (Option.some.inj h)
      obtain ⟨rfl, rfl⟩ := Prod.mk.inj hend
      exact .inl ⟨hclosed, rfl, rfl⟩
    · rename_i rest hopened
      obtain ⟨rfl, hend⟩ := Prod.mk.inj (Option.some.inj h)
      obtain ⟨rfl, rfl⟩ := Prod.mk.inj hend
      exact .inr (.inl ⟨hopened, rfl, rfl⟩)
    · split at h
      · rename_i hspace
        split at h
        · exact nomatch h
        · rename_i a t ha
          split at h
          · exact nomatch h
          · rename_i others ending' rest hothers
            obtain ⟨rfl, hend⟩ := Prod.mk.inj (Option.some.inj h)
            obtain ⟨rfl, rfl⟩ := Prod.mk.inj hend
            exact .inr (.inr ⟨a, others, t, hspace, ha, hothers, rfl⟩)
      · exact nomatch h
  · rintro (⟨hclosed, rfl, rfl⟩ | ⟨hopened, rfl, rfl⟩ | ⟨a, others, t, hspace, ha, hothers, rfl⟩)
    · unfold readAttributes
      rw [hclosed]
      rfl
    · unfold readAttributes
      rw [hopened]
      rfl
    · obtain ⟨c, t', hhead, hc⟩ := exists_of_readAttribute ha
      rw [readAttributes.eq_def]
      dsimp only
      split
      · rename_i rest hclosed
        obtain ⟨rfl, -⟩ := List.cons.inj (hhead.symm.trans hclosed)
        exact absurd hc (by decide)
      · rename_i rest hopened
        obtain ⟨rfl, -⟩ := List.cons.inj (hhead.symm.trans hopened)
        exact absurd hc (by decide)
      · rw [if_pos hspace, ha]
        simp only [hothers]

/-- Attributes are read up to the end of the tag, and more fuel does no harm. -/
theorem readAttributes_append {fuel fuel' : Nat} {as : List (Name × Text)} {ending : TagEnd}
    (h : readAttributes fuel s = some (as, ending, r)) (hle : fuel ≤ fuel') (z : Text) :
    readAttributes fuel' (s ++ z) = some (as, ending, r ++ z) := by
  induction fuel generalizing s fuel' as with
  | zero => exact nomatch h
  | succ fuel ih =>
    obtain ⟨fuel', rfl⟩ : ∃ k, fuel' = k + 1 := ⟨fuel' - 1, by omega⟩
    refine readAttributes_succ.mpr ?_
    rcases readAttributes_succ.mp h with
      ⟨hclosed, rfl, rfl⟩ | ⟨hopened, rfl, rfl⟩ | ⟨a, others, t, hspace, ha, hothers, rfl⟩
    · exact .inl ⟨skipSpace_append hclosed z, rfl, rfl⟩
    · exact .inr (.inl ⟨skipSpace_append hopened z, rfl, rfl⟩)
    · refine .inr (.inr ⟨a, others, t ++ z, ?_, ?_, ih hothers (by omega), rfl⟩)
      · cases s with
        | nil => exact nomatch hspace
        | cons c s => exact hspace
      · obtain ⟨c, t', hhead, -⟩ := exists_of_readAttribute ha
        rw [skipSpace_append hhead, ← List.cons_append, ← hhead, readAttribute_append ha]

theorem suffix_of_readAttribute {a : Name × Text} (h : readAttribute s = some (a, r)) :
    r <:+ s := by
  unfold readAttribute at h
  split at h
  · exact nomatch h
  · rename_i name written rest hassign
    obtain ⟨value, -, heq⟩ := Option.map_eq_some_iff.mp h
    obtain ⟨-, rfl⟩ := Prod.mk.inj heq
    exact suffix_of_readAssignment hassign

theorem suffix_of_readAttributes {fuel : Nat} {as : List (Name × Text)} {ending : TagEnd}
    (h : readAttributes fuel s = some (as, ending, r)) : r <:+ s := by
  induction fuel generalizing s as with
  | zero => exact nomatch h
  | succ fuel ih =>
    have hspace : skipSpace s <:+ s := List.dropWhile_suffix _
    rcases readAttributes_succ.mp h with
      ⟨hclosed, -⟩ | ⟨hopened, -⟩ | ⟨a, others, t, -, ha, hothers, -⟩
    · rw [hclosed] at hspace
      exact ((List.suffix_cons '>' r).trans (List.suffix_cons '/' _)).trans hspace
    · rw [hopened] at hspace
      exact (List.suffix_cons '>' r).trans hspace
    · exact ((ih hothers).trans (suffix_of_readAttribute ha)).trans hspace

/-- The parts of a start tag. -/
theorem readStartTag_eq_some {scopes : Scopes} {tag : StartTag} :
    readStartTag scopes s = some (tag, r) ↔
      ∃ t written declared, Name.read? s = some (tag.name, t) ∧
        readAttributes (t.length + 1) t = some (written, tag.ending, r) ∧
        declarations [] written = some declared ∧ tag.scopes = declared ++ scopes ∧
        attributesIn tag.scopes [] .empty written = some tag.attributes ∧
        ¬ (tag.name.space = ("xmlns" : Text) ∨
          (!tag.name.space.isEmpty ∧ (entryValue? tag.name.space tag.scopes).isNone)) := by
  unfold readStartTag
  constructor
  · intro h
    split at h
    · exact nomatch h
    · rename_i name t hname
      split at h
      · exact nomatch h
      · rename_i written ending rest hwritten
        split at h
        · exact nomatch h
        · rename_i declared hdeclared
          simp only at h
          split at h
          · exact nomatch h
          · rename_i attributes hattributes
            obtain ⟨hspace, heq⟩ := Option.ite_none_left_eq_some.mp h
            obtain ⟨rfl, rfl⟩ := Prod.mk.inj (Option.some.inj heq)
            exact ⟨t, written, declared, hname, hwritten, hdeclared, rfl, hattributes, hspace⟩
  · rintro ⟨t, written, declared, hname, hwritten, hdeclared, hscopes, hattributes, hspace⟩
    simp only [hname, hwritten, hdeclared, ← hscopes, hattributes, if_neg hspace]

theorem suffix_of_readStartTag {scopes : Scopes} {tag : StartTag}
    (h : readStartTag scopes s = some (tag, r)) : r <:+ s := by
  obtain ⟨t, written, -, hname, hwritten, -⟩ := readStartTag_eq_some.mp h
  exact (suffix_of_readAttributes hwritten).trans (Name.suffix_of_read? hname)

/-- A tag begins with a character that can stand in names. -/
theorem exists_of_readStartTag {scopes : Scopes} {tag : StartTag}
    (h : readStartTag scopes s = some (tag, r)) : ∃ c t, s = c :: t ∧ isNameChar c = true := by
  obtain ⟨t, -, -, hname, -⟩ := readStartTag_eq_some.mp h
  exact Name.exists_of_read? hname

/-- After the name of a tag there is the end of the tag at least. -/
theorem exists_cons_of_readAttributes {fuel : Nat} {as : List (Name × Text)} {ending : TagEnd}
    (h : readAttributes (fuel + 1) s = some (as, ending, r)) : ∃ c t, s = c :: t := by
  cases s with
  | nil =>
    rcases readAttributes_succ.mp h with ⟨hend, -⟩ | ⟨hend, -⟩ | ⟨_, _, _, hend, -⟩
    · exact nomatch hend
    · exact nomatch hend
    · exact nomatch hend
  | cons c t => exact ⟨c, t, rfl⟩

theorem readStartTag_append {scopes : Scopes} {tag : StartTag}
    (h : readStartTag scopes s = some (tag, r)) (z : Text) :
    readStartTag scopes (s ++ z) = some (tag, r ++ z) := by
  obtain ⟨t, written, declared, hname, hwritten, hrest⟩ := readStartTag_eq_some.mp h
  obtain ⟨c, t, rfl⟩ := exists_cons_of_readAttributes hwritten
  have hle : (c :: t).length + 1 ≤ (c :: (t ++ z)).length + 1 := by
    simp only [List.length_cons, List.length_append]
    omega
  exact readStartTag_eq_some.mpr ⟨c :: (t ++ z), written, declared, Name.read?_append hname z,
    readAttributes_append hwritten hle z, hrest⟩

/-- The parts of an end tag. -/
theorem readEndTag_eq_some {name : Name} : readEndTag name s = some r ↔
    ∃ t, Name.read? s = some (name, t) ∧ skipSpace t = '>' :: r := by
  unfold readEndTag
  constructor
  · intro h
    split at h
    · exact nomatch h
    · rename_i n t hname
      split at h
      · rename_i rest hend
        obtain ⟨rfl, heq⟩ := Option.ite_none_right_eq_some.mp h
        obtain rfl := Option.some.inj heq
        exact ⟨t, hname, hend⟩
      · exact nomatch h
  · rintro ⟨t, hname, hend⟩
    simp only [hname, hend, if_true]

theorem suffix_of_readEndTag {name : Name} (h : readEndTag name s = some r) : r <:+ s := by
  obtain ⟨t, hname, hend⟩ := readEndTag_eq_some.mp h
  have hspace : '>' :: r <:+ t := hend ▸ List.dropWhile_suffix _
  exact ((List.suffix_cons '>' r).trans hspace).trans (Name.suffix_of_read? hname)

theorem readEndTag_append {name : Name} (h : readEndTag name s = some r) (z : Text) :
    readEndTag name (s ++ z) = some (r ++ z) := by
  obtain ⟨t, hname, hend⟩ := readEndTag_eq_some.mp h
  obtain ⟨c, t, rfl⟩ := exists_cons_of_skipSpace hend
  exact readEndTag_eq_some.mpr ⟨c :: (t ++ z), Name.read?_append hname z, skipSpace_append hend z⟩

/-! ## References -/

/-- The character of a number that is written in digits of a sort. -/
def readNumbered (base : Nat) (isDigit : Char → Bool) (s : Text) : Option (Char × Text) :=
  match codePoint? base (s.takeWhile isDigit) with
  | none => none
  | some n => if isAllowed (charOf n) then some (charOf n, s.dropWhile isDigit) else none

theorem readNumbered_append {base : Nat} {isDigit : Char → Bool} {d : Char}
    (h : readNumbered base isDigit s = some (d, c :: r)) (z : Text) :
    readNumbered base isDigit (s ++ z) = some (d, c :: (r ++ z)) := by
  unfold readNumbered at h ⊢
  cases hcode : codePoint? base (s.takeWhile isDigit) with
  | none =>
    rw [hcode] at h
    exact nomatch h
  | some n =>
    rw [hcode] at h
    simp only at h
    split at h
    · rename_i hallowed
      obtain ⟨rfl, hrest⟩ := Prod.mk.inj (Option.some.inj h)
      rw [Text.takeWhile_append_of_dropWhile_eq_cons hrest, hcode]
      simp only [if_pos hallowed, Text.dropWhile_append_of_eq_cons hrest]
    · exact nomatch h

theorem suffix_of_readNumbered {base : Nat} {isDigit : Char → Bool} {d : Char}
    (h : readNumbered base isDigit s = some (d, r)) : r <:+ s := by
  unfold readNumbered at h
  split at h
  · exact nomatch h
  · split at h
    · obtain ⟨-, rfl⟩ := Prod.mk.inj (Option.some.inj h)
      exact List.dropWhile_suffix _
    · exact nomatch h

theorem readReferent_append {d : Char} (h : readReferent s = some (d, c :: r)) (z : Text) :
    readReferent (s ++ z) = some (d, c :: (r ++ z)) := by
  unfold readReferent at h
  split at h
  · exact readNumbered_append h z
  · rename_i t hx
    have hnumber : readNumbered 10 Char.isDigit t = some (d, c :: r) := h
    cases t with
    | nil => exact nomatch hnumber
    | cons b t =>
      show readReferent ('#' :: b :: (t ++ z)) = _
      unfold readReferent
      split
      · rename_i heq
        exact absurd (List.cons.inj (List.cons.inj heq).2).1 fun hb => hx t (hb ▸ rfl)
      · rename_i heq
        obtain ⟨-, rfl⟩ := List.cons.inj heq
        exact readNumbered_append hnumber z
      · rename_i hnot
        exact absurd rfl (hnot (b :: (t ++ z)))
  · rename_i hx hnumber
    split at h
    · exact nomatch h
    · rename_i name rest hname
      obtain ⟨e, hnamed, heq⟩ := Option.map_eq_some_iff.mp h
      obtain ⟨rfl, rfl⟩ := Prod.mk.inj heq
      have hlong := readName_append hname z
      cases s with
      | nil => exact nomatch hname
      | cons b t =>
        have hb : b ≠ '#' := fun hb => hnumber t (hb ▸ rfl)
        show readReferent (b :: (t ++ z)) = _
        unfold readReferent
        split
        · rename_i heq
          exact absurd (List.cons.inj heq).1 hb
        · rename_i heq
          exact absurd (List.cons.inj heq).1 hb
        · rw [← List.cons_append, hlong]
          simp only [hnamed, Option.map_some]

theorem readReference_append {d : Char} (h : readReference s = some (d, r)) (z : Text) :
    readReference (s ++ z) = some (d, r ++ z) := by
  unfold readReference at h ⊢
  split at h
  · rename_i e rest hreferent
    obtain ⟨rfl, rfl⟩ := Prod.mk.inj (Option.some.inj h)
    rw [readReferent_append hreferent]
    rfl
  · exact nomatch h

end Document

end TimePhrase
