import TimePhrase.Proofs.Script.ReadBack

/-!
# How sources begin

What a source is can be told from its beginning, as long as it joins nothing: a call begins with the
name of its function and a parenthesis, a lookup with its own name and a square bracket, and a
literal with a quote or with a word that nothing follows.

* `exists_of_literal`  a literal hides what stands between its quotes
* `Opens`  a name and the bracket after it
* `Opens.leadingWord_eq`, `Opens.wholeLiteral_eq_none`  a name is one name only, and no literal
-/

namespace TimePhrase.Script

/-! ## Literals -/

/-- What a reader of a quoted text takes up to the closing quote, a scan passes over between the
    quotes. -/
theorem exists_of_untilQuote {q : Char} {s value rest : Text}
    (h : untilQuote q s = some (value, rest)) : ∃ body, s = body ++ q :: rest ∧
      ∀ d, (Scan.quoted q d).after body = .quoted q d ∧ ∀ p, Scan.Avoids p (.quoted q d) body := by
  fun_induction untilQuote q s generalizing value with
  | case1 => exact nomatch h
  | case2 => exact nomatch h
  | case3 c r ih =>
    -- A backslash and the character after it.
    obtain ⟨⟨value', rest'⟩, hr, heq⟩ := Option.map_eq_some_iff.mp h
    obtain ⟨-, rfl⟩ := Prod.mk.inj heq
    obtain ⟨body, rfl, hbody⟩ := ih hr
    refine ⟨'\\' :: c :: body, rfl, fun d => ?_⟩
    obtain ⟨hafter, havoids⟩ := hbody d
    refine ⟨by simpa [Scan.next] using hafter, fun p => ?_⟩
    simpa [Scan.sees, Scan.next] using havoids p
  | case4 r _ =>
    obtain ⟨-, rfl⟩ := Prod.mk.inj (Option.some.inj h)
    exact ⟨[], rfl, fun d => ⟨rfl, fun p => trivial⟩⟩
  | case5 c r hone hslash hne ih =>
    obtain ⟨⟨value', rest'⟩, hr, heq⟩ := Option.map_eq_some_iff.mp h
    obtain ⟨-, rfl⟩ := Prod.mk.inj heq
    obtain ⟨body, rfl, hbody⟩ := ih hr
    have hc : c ≠ '\\' := by
      rintro rfl
      rcases hs : body ++ q :: rest' with _ | ⟨d, r⟩
      · exact hone rfl hs
      · exact hslash d r rfl hs
    refine ⟨c :: body, rfl, fun d => ?_⟩
    obtain ⟨hafter, havoids⟩ := hbody d
    exact ⟨by simpa [Scan.next, hc, hne] using hafter,
      fun p => by simpa [Scan.sees, Scan.next, hc, hne] using havoids p⟩

theorem isPlain_of_isBareChar {c : Char} (h : isBareChar c = true) : isPlain c = true :=
  isPlain_of_class (by decide) h

theorem isPlain_of_isGap {c : Char} (h : isGap c = true) : isPlain c = true :=
  isPlain_of_class (by decide) h

/-- What a class says of the four characters of gaps. -/
theorem eq_of_isGap {p : Char → Bool} {b : Bool} (h : ∀ m ∈ [' ', '\t', '\r', '\n'], p m = b)
    {c : Char} (hc : isGap c = true) : p c = b := by
  refine h c ?_
  simp only [isGap, Bool.or_eq_true, beq_iff_eq] at hc
  rcases hc with ((rfl | rfl) | rfl) | rfl <;> decide

/-- A character that is not in a class is none of the class. -/
theorem beq_eq_false_of_class {p : Char → Bool} {c d : Char} (hd : p d = false)
    (hc : p c = true) : (c == d) = false := by
  rw [beq_eq_false_iff_ne]
  rintro rfl
  simp [hd] at hc

/-- A quoted literal hides all of its characters. -/
theorem exists_of_quotedLiteral {s value rest : Text}
    (h : quotedLiteral s = some (value, rest)) : ∃ t, s = t ++ rest ∧ ∀ p, Piece p t := by
  cases s with
  | nil => cases h
  | cons q s =>
    rw [quotedLiteral] at h
    split at h
    · rename_i hq
      obtain ⟨body, rfl, hbody⟩ := exists_of_untilQuote h
      have hslash : q ≠ '\\' := by rintro rfl; exact absurd hq (by decide)
      have hopen (d : Nat) : (Scan.code d).next q = .quoted q d := by simp [Scan.next, hq]
      have hclose (d : Nat) : (Scan.quoted q d).next q = .code d := by simp [Scan.next, hslash]
      have hsees (d : Nat) : (Scan.code d).sees q = false := by
        cases d <;> simp [Scan.sees, hq]
      have havoids (p : Char → Bool) (d : Nat) : Scan.Avoids p (.code d) (q :: body ++ [q]) := by
        rw [List.cons_append, Scan.avoids_cons, hopen, hsees, Scan.avoids_append, (hbody d).1]
        exact ⟨by simp, (hbody d).2 p, by simp [Scan.sees]⟩
      refine ⟨q :: body ++ [q], by simp, fun p =>
        ⟨⟨fun d => ?_, fun d p' => havoids p' _⟩, havoids p 0⟩⟩
      rw [List.cons_append, Scan.after_cons, hopen, Scan.after_append, (hbody d).1]
      exact hclose d
    · cases h

/-- A literal is not split by separators that cannot stand in one without quotes. -/
theorem exists_of_literal {p : Char → Bool} (hp : ∀ c, isBareChar c = true → p c = false)
    {s value rest : Text} (h : literal s = some (value, rest)) : ∃ t, s = t ++ rest ∧ Piece p t := by
  rw [literal] at h
  cases hquoted : quotedLiteral s with
  | some x =>
    rw [hquoted, Option.orElse_some] at h
    obtain rfl := Option.some.inj h
    obtain ⟨t, hs, ht⟩ := exists_of_quotedLiteral hquoted
    exact ⟨t, hs, ht p⟩
  | none =>
    rw [hquoted, Option.orElse_none, bareLiteral] at h
    have hbare : ∀ c ∈ s.takeWhile isBareChar, isBareChar c = true :=
      List.all_eq_true.mp List.all_takeWhile
    split at h
    · cases h
    · obtain ⟨rfl, rfl⟩ := Prod.mk.inj (Option.some.inj h)
      exact ⟨s.takeWhile isBareChar, List.takeWhile_append_dropWhile.symm,
        Piece.of_isPlain (fun c hc => isPlain_of_isBareChar (hbare c hc))
          fun c hc => hp c (hbare c hc)⟩

section Pieces

variable {p : Char → Bool} (hbare : ∀ c, isBareChar c = true → p c = false)
  (hgap : ∀ c, isGap c = true → p c = false)

include hgap

theorem piece_of_isGap {t : Text} (h : ∀ c ∈ t, isGap c = true) : Piece p t :=
  Piece.of_isPlain (fun c hc => isPlain_of_isGap (h c hc)) fun c hc => hgap c (h c hc)

theorem piece_of_skipGap_nil {t : Text} (h : (skipGap t).isEmpty = true) : Piece p t := by
  obtain ⟨a, ha, hall⟩ := exists_skipGap t
  rw [List.isEmpty_iff.mp h, List.append_nil] at ha
  rw [ha]
  exact piece_of_isGap hgap hall

include hbare

/-- A text that is a literal as a whole. -/
theorem piece_of_wholeLiteral {s value : Text} (h : wholeLiteral s = some value) : Piece p s := by
  obtain ⟨a, ha, hall⟩ := exists_skipGap s
  rw [wholeLiteral] at h
  split at h
  · rename_i value' rest hliteral
    obtain ⟨t, ht, hpiece⟩ := exists_of_literal hbare hliteral
    split at h
    · rename_i hrest
      rw [ha, ht]
      exact (piece_of_isGap hgap hall).append (hpiece.append (piece_of_skipGap_nil hgap hrest))
    · cases h
  · cases h

omit hbare in
/-- A name, a bracketed text after it, and something behind that, if all of these are pieces. -/
theorem piece_bracketed {a w b inner rest : Text} {o c : Char} (ha : ∀ c ∈ a, isGap c = true)
    (hw : ∀ c ∈ w, c.isAlpha = true) (hpw : ∀ c ∈ w, p c = false) (hb : ∀ c ∈ b, isGap c = true)
    (ho : ∀ d, (Scan.code d).next o = .code (d + 1)) (hpo : p o = false)
    (hc : ∀ d, (Scan.code (d + 1)).next c = .code d) (hinner : Balanced inner)
    (hrest : Piece p rest) : Piece p (a ++ w ++ b ++ o :: (inner ++ c :: rest)) := by
  have hname : Piece p w := ⟨balanced_of_isAlpha hw, Scan.avoids_of_all hpw _⟩
  have hbrackets : Piece p (o :: inner ++ [c]) := by
    refine ⟨Balanced.bracketed ho hc hinner, ?_⟩
    rw [Scan.avoids_append, Scan.avoids_cons, Scan.after_cons, show Scan.outside.next o = .code 1
      from ho 0, hinner.after_eq]
    exact ⟨⟨fun _ => hpo, hinner.avoids 0 p⟩, by simp [Scan.sees], trivial⟩
  have hall := (((piece_of_isGap hgap ha).append hname).append (piece_of_isGap hgap hb)).append
    (hbrackets.append hrest)
  simpa using hall

end Pieces

/-! ## Names and brackets -/

/-- A name and an opening bracket, with nothing but gaps before each of them. -/
def Opens (w : Text) (o : Char) (s : Text) : Prop :=
  ∃ a b r : Text, s = a ++ w ++ b ++ o :: r ∧ (∀ c ∈ a, isGap c = true) ∧ ∀ c ∈ b, isGap c = true

/-- A lookup consists of its name and a balanced text in square brackets, and gaps before these. -/
theorem eq_append_of_lookupKey {s key rest : Text} (h : lookupKey s = some (key, rest)) :
    ∃ a b inner : Text, s = a ++ "timex".toList ++ b ++ '[' :: (inner ++ ']' :: rest) ∧
      (∀ c ∈ a, isGap c = true) ∧ (∀ c ∈ b, isGap c = true) ∧ Balanced inner := by
  rw [lookupKey] at h
  split at h
  · cases h
  rename_i s₁ hname
  split at h
  case h_2 => cases h
  rename_i s₂ hopen
  split at h
  · cases h
  rename_i k s₃ hliteral
  split at h
  case h_2 => cases h
  rename_i s₄ hclose
  obtain ⟨-, rfl⟩ := Prod.mk.inj (Option.some.inj h)
  obtain ⟨a, ha, hagap⟩ := exists_skipGap s
  obtain ⟨b, hb, hbgap⟩ := exists_skipGap s₁
  obtain ⟨c, hc, hcgap⟩ := exists_skipGap s₂
  obtain ⟨t, ht, hpiece⟩ := exists_of_literal (p := fun _ => false) (fun _ _ => rfl) hliteral
  obtain ⟨d, hd, hdgap⟩ := exists_skipGap s₃
  have hgap {u : Text} (hu : ∀ c ∈ u, isGap c = true) : Balanced u :=
    Balanced.of_isPlain fun c hc => isPlain_of_isGap (hu c hc)
  refine ⟨a, b, c ++ t ++ d, ?_, hagap, hbgap,
    ((hgap hcgap).append hpiece.toBalanced).append (hgap hdgap)⟩
  rw [ha, Text.eq_append_of_after? hname, hb, hopen, hc, ht, hd, hclose]
  simp

/-- If it is the whole text, only a gap may follow. -/
theorem eq_append_of_wholeLookup {s key : Text} (h : wholeLookup s = some key) :
    ∃ a b inner rest : Text, s = a ++ "timex".toList ++ b ++ '[' :: (inner ++ ']' :: rest) ∧
      (∀ c ∈ a, isGap c = true) ∧ (∀ c ∈ b, isGap c = true) ∧ Balanced inner ∧
      (skipGap rest).isEmpty = true := by
  rw [wholeLookup] at h
  split at h
  case h_2 => cases h
  rename_i key' rest hkey
  split at h
  case isFalse => cases h
  rename_i hrest
  obtain ⟨a, b, inner, hs, ha, hb, hinner⟩ := eq_append_of_lookupKey hkey
  exact ⟨a, b, inner, rest, hs, ha, hb, hinner, hrest⟩

/-- In an assignment, an equals sign follows the lookup. -/
theorem eq_append_of_assignmentTarget {s key rest : Text}
    (h : assignmentTarget s = some (key, rest)) :
    ∃ a b inner gap : Text,
      s = a ++ "timex".toList ++ b ++ '[' :: (inner ++ ']' :: (gap ++ '=' :: rest)) ∧
      (∀ c ∈ a, isGap c = true) ∧ (∀ c ∈ b, isGap c = true) ∧ Balanced inner ∧
      ∀ c ∈ gap, isGap c = true := by
  rw [assignmentTarget] at h
  split at h
  · cases h
  rename_i key' s₁ hkey
  split at h
  case h_1 => cases h
  case h_3 => cases h
  rename_i rest' _ hequals
  obtain ⟨rfl, rfl⟩ := Prod.mk.inj (Option.some.inj h)
  obtain ⟨a, b, inner, hs, ha, hb, hinner⟩ := eq_append_of_lookupKey hkey
  obtain ⟨gap, hgap, hall⟩ := exists_skipGap s₁
  refine ⟨a, b, inner, gap, ?_, ha, hb, hinner, hall⟩
  rw [hs, hgap, hequals]

/-- The letters that a source begins with. -/
def leadingWord (s : Text) : Text := (skipGap s).takeWhile Char.isAlpha

namespace Opens

variable {w s : Text} {o : Char}

theorem of_callArguments {f : Function} {arguments : Text}
    (h : callArguments f.name s = some arguments) : Opens f.name '(' s := by
  obtain ⟨a, b, rest, hs, ha, hb, -⟩ := eq_append_of_callArguments h
  exact ⟨a, b, arguments ++ ')' :: rest, hs, ha, hb⟩

theorem of_wholeLookup {key : Text} (h : wholeLookup s = some key) : Opens "timex" '[' s := by
  obtain ⟨a, b, inner, rest, hs, ha, hb, -⟩ := eq_append_of_wholeLookup h
  exact ⟨a, b, inner ++ ']' :: rest, hs, ha, hb⟩

/-- After the gap in front, the name comes first. -/
theorem skipGap_eq (hw : ∀ c ∈ w, c.isAlpha = true) (hne : w ≠ []) (h : Opens w o s) :
    ∃ b r : Text, skipGap s = w ++ (b ++ o :: r) ∧ ∀ c ∈ b, isGap c = true := by
  obtain ⟨a, b, r, rfl, ha, hb⟩ := h
  obtain ⟨c, w', rfl⟩ := List.exists_cons_of_ne_nil hne
  have hc : isGap c = false := by
    by_contra hgap
    rw [Bool.not_eq_false] at hgap
    have halpha : c.isAlpha = false := eq_of_isGap (by decide) hgap
    simp [hw c List.mem_cons_self] at halpha
  refine ⟨b, r, ?_, hb⟩
  rw [List.append_assoc, List.append_assoc, skipGap, List.dropWhile_append_of_pos ha]
  exact List.dropWhile_cons_of_neg (by simp [hc])

/-- Where a class ends that neither gaps nor the bracket are in. -/
theorem takeWhile_eq {q : Char → Bool} (hq : ∀ c, isGap c = true → q c = false) (ho : q o = false)
    {b r : Text} (hb : ∀ c ∈ b, isGap c = true) : (b ++ o :: r).takeWhile q = [] := by
  cases b with
  | nil => exact List.takeWhile_cons_of_neg (by simp [ho])
  | cons c b => exact List.takeWhile_cons_of_neg (by simp [hq c (hb c List.mem_cons_self)])

theorem leadingWord_eq (hw : ∀ c ∈ w, c.isAlpha = true) (hne : w ≠ []) (ho : o.isAlpha = false)
    (h : Opens w o s) : leadingWord s = w := by
  obtain ⟨b, r, hs, hb⟩ := h.skipGap_eq hw hne
  have hgap (c : Char) (hc : isGap c = true) : c.isAlpha = false :=
    eq_of_isGap (by decide) hc
  rw [leadingWord, hs, List.takeWhile_append_of_pos hw, takeWhile_eq hgap ho hb, List.append_nil]

/-- A name with a bracket after it is no literal. -/
theorem wholeLiteral_eq_none (hw : ∀ c ∈ w, c.isAlpha = true) (hne : w ≠ [])
    (hbare : ∀ c ∈ w, isBareChar c = true) (ho : isBareChar o = false) (hogap : isGap o = false)
    (h : Opens w o s) : wholeLiteral s = none := by
  obtain ⟨b, r, hs, hb⟩ := h.skipGap_eq hw hne
  obtain ⟨c, w', rfl⟩ := List.exists_cons_of_ne_nil hne
  have hquote : isQuote c = false := by
    have hc := hw c List.mem_cons_self
    rw [isQuote, beq_eq_false_of_class (by decide) hc, beq_eq_false_of_class (by decide) hc]
    rfl
  have hgap (d : Char) (hd : isGap d = true) : isBareChar d = false :=
    eq_of_isGap (by decide) hd
  -- The name is read as a word, and then the bracket is left.
  have hword : literal (c :: w' ++ (b ++ o :: r)) = some (c :: w', b ++ o :: r) := by
    have htake := takeWhile_eq (r := r) hgap ho hb
    have hdrop := List.takeWhile_append_dropWhile (p := isBareChar) (l := b ++ o :: r)
    rw [htake, List.nil_append] at hdrop
    rw [literal, List.cons_append, quotedLiteral, if_neg (by simp [hquote]), Option.orElse_none,
      bareLiteral, ← List.cons_append, List.takeWhile_append_of_pos hbare, htake, List.append_nil,
      List.dropWhile_append_of_pos hbare, hdrop]
  have hleft : skipGap (b ++ o :: r) = o :: r := by
    rw [skipGap, List.dropWhile_append_of_pos hb]
    exact List.dropWhile_cons_of_neg (by simp [hogap])
  rw [wholeLiteral, hs, hword]
  simp only [hleft]
  rfl

end Opens

end TimePhrase.Script
