import TimePhrase.Pattern.Reader
import TimePhrase.Proofs.Pattern.Compose
import TimePhrase.Proofs.Text.Digits

/-!
# Reading repetition signs

After an atom come the signs that repeat it. Where none comes next the atom stays as it is; a sign
gives its bounds, and a counted one gives the numbers that are written in it.

* `readRepetitions_of_unrepeated`  no sign
* `isSign_star`, `isSign_exactly`, `isSign_between`  the bounds of signs
* `pattern_of_readRepetitions`  the pattern after a sign
-/

namespace TimePhrase.Pattern

variable {caseless : Bool} {fuel least : Nat} {most : Option Nat} {w x : Written} {s f rest : Text}

/-- The characters that a repetition sign can begin with. -/
def isSignStart (c : Char) : Bool := c == '*' || c == '+' || c == '?' || c == '\x7b'

/-- No repetition sign comes next. -/
def Unrepeated (s : Text) : Prop := ∀ c ∈ s.head?, isSignStart c = false

theorem unrepeated_nil : Unrepeated [] := nofun

theorem unrepeated_cons {c : Char} (hc : isSignStart c = false) : Unrepeated (c :: s) := by
  rintro _ ⟨⟩
  exact hc

theorem readSign_of_unrepeated (h : Unrepeated s) : readSign (.initial caseless) s = some none := by
  unfold readSign
  split
  · exact nomatch h '*' rfl
  · exact nomatch h '+' rfl
  · exact nomatch h '?' rfl
  · exact nomatch h '\x7b' rfl
  · rfl

theorem readRepetitions_of_unrepeated (h : Unrepeated s) :
    readRepetitions (.initial caseless) fuel w s = some (w, s) := by
  cases fuel with
  | zero => rfl
  | succ fuel =>
    have hsign : readSign (.initial caseless) ((Flags.initial caseless).skip s) = some none :=
      readSign_of_unrepeated h
    simp only [readRepetitions, hsign]

/-- A text is a repetition sign with these bounds, unless it is refused. -/
def IsSign (s : Text) (least : Nat) (most : Option Nat) : Prop :=
  ∀ caseless rest o, readSign (.initial caseless) (s ++ rest) = some o →
    o = some ((least, most), rest) ∧ ∀ m ∈ most, least ≤ m

theorem isSign_star : IsSign ['*'] 0 none := by
  rintro caseless rest _ ⟨⟩
  exact ⟨rfl, by simp⟩

theorem isSign_plus : IsSign ['+'] 1 none := by
  rintro caseless rest _ ⟨⟩
  exact ⟨rfl, by simp⟩

/-! ### Counted repetitions -/

theorem takeSpacedWhile_append {p : Char → Bool} {digits : Text} {c : Char}
    (hdigits : ∀ d ∈ digits, p d = true) (hc : p c = false) (hfuel : digits.length ≤ fuel) :
    takeSpacedWhile (.initial caseless) p fuel (digits ++ c :: rest) = (digits, c :: rest) := by
  induction digits generalizing fuel with
  | nil =>
    cases fuel with
    | zero => rfl
    | succ fuel => simp [takeSpacedWhile, hc]
  | cons d digits ih =>
    obtain ⟨hd, hdigits⟩ := List.forall_mem_cons.mp hdigits
    cases fuel with
    | zero => simp at hfuel
    | succ fuel =>
      have hrest := ih hdigits (Nat.le_of_succ_le_succ hfuel)
      have hskip : (Flags.initial caseless).skip (digits ++ c :: rest) = digits ++ c :: rest := rfl
      simp [takeSpacedWhile, hd, hskip, hrest]

/-- The digits of a number are read as that number, if it is not refused. -/
theorem of_readCount {n k : Nat} {c : Char} (hc : c.isDigit = false) (hblank : isBlank c = false)
    (h : readCount (.initial caseless) (Text.ofNat n ++ c :: rest) = some (k, s)) :
    k = n ∧ s = c :: rest := by
  -- No blanks come before the digits, and the digits end before `c`.
  have hblanks : (Text.ofNat n ++ c :: rest).dropWhile isBlank = Text.ofNat n ++ c :: rest := by
    cases hn : Text.ofNat n ++ c :: rest with
    | nil => rfl
    | cons d digits => simp [isBlank_of_isDigit (Text.isDigit_of_ofNat_append hn)]
  have htake : takeSpacedWhile (.initial caseless) Char.isDigit (Text.ofNat n ++ c :: rest).length
      (Text.ofNat n ++ c :: rest) = (Text.ofNat n, c :: rest) :=
    takeSpacedWhile_append Text.isDigit_of_mem_ofNat hc (by simp)
  simp only [readCount, hblanks, htake, Text.toNat?_ofNat] at h
  split at h
  · obtain ⟨rfl, rfl⟩ := Prod.mk.inj (Option.some.inj h)
    refine ⟨rfl, ?_⟩
    show (c :: rest).dropWhile isBlank = c :: rest
    simp [hblank]
  · exact nomatch h

theorem isSign_of_readBounds (h : ∀ caseless rest bounds r,
    readBounds (.initial caseless) (s ++ rest) = some (bounds, r) →
      bounds = (least, most) ∧ r = rest ∧ ∀ m ∈ most, least ≤ m) :
    IsSign ('\x7b' :: s) least most := by
  intro caseless rest o ho
  obtain ⟨⟨bounds, r⟩, hbounds, rfl⟩ := Option.map_eq_some_iff.mp ho
  obtain ⟨rfl, rfl, hle⟩ := h caseless rest bounds r hbounds
  exact ⟨rfl, hle⟩

theorem isSign_exactly (n : Nat) : IsSign ('\x7b' :: (Text.ofNat n ++ ['\x7d'])) n (some n) := by
  apply isSign_of_readBounds
  intro caseless rest bounds r h
  rw [List.append_assoc, List.singleton_append] at h
  unfold readBounds at h
  split at h
  case h_2 hcount =>
    obtain ⟨rfl, htail⟩ := of_readCount (by decide) (by decide) hcount
    obtain ⟨-, rfl⟩ := List.cons.inj htail
    obtain ⟨rfl, rfl⟩ := Prod.mk.inj (Option.some.inj h)
    exact ⟨rfl, rfl, by simp⟩
  case h_3 hcount =>
    have htail := (of_readCount (by decide) (by decide) hcount).2
    simp at htail
  all_goals exact nomatch h

theorem isSign_atLeast (m : Nat) : IsSign ('\x7b' :: (Text.ofNat m ++ [',', '\x7d'])) m none := by
  apply isSign_of_readBounds
  intro caseless rest bounds r h
  rw [List.append_assoc] at h
  unfold readBounds at h
  split at h
  case h_2 hcount =>
    have htail := (of_readCount (by decide) (by decide) hcount).2
    simp at htail
  case h_3 hcount =>
    obtain ⟨rfl, htail⟩ := of_readCount (by decide) (by decide) hcount
    obtain ⟨-, rfl⟩ := List.cons.inj htail
    obtain ⟨rfl, rfl⟩ := Prod.mk.inj (Option.some.inj h)
    exact ⟨rfl, rfl, by simp⟩
  all_goals exact nomatch h

theorem isSign_between (m n : Nat) :
    IsSign ('\x7b' :: (Text.ofNat m ++ ',' :: Text.ofNat n ++ ['\x7d'])) m (some n) := by
  apply isSign_of_readBounds
  intro caseless rest bounds r h
  rw [List.append_assoc, List.append_assoc] at h
  unfold readBounds at h
  split at h
  case h_2 hcount =>
    have htail := (of_readCount (by decide) (by decide) hcount).2
    simp at htail
  case h_3 r' hcount =>
    obtain ⟨rfl, htail⟩ := of_readCount (by decide) (by decide) hcount
    obtain ⟨-, rfl⟩ := List.cons.inj htail
    -- After the comma comes the second number, not the closing brace.
    split at h
    · rename_i heq
      exact nomatch Text.isDigit_of_ofNat_append heq
    · split at h
      · rename_i hcount'
        obtain ⟨rfl, htail'⟩ := of_readCount (by decide) (by decide) hcount'
        obtain ⟨-, rfl⟩ := List.cons.inj htail'
        split at h
        · rename_i hle
          obtain ⟨rfl, rfl⟩ := Prod.mk.inj (Option.some.inj h)
          exact ⟨rfl, rfl, by simpa using hle⟩
        · exact nomatch h
      · exact nomatch h
  all_goals exact nomatch h

/-! ### Signs after an atom -/

/-- The sign after an atom repeats it, greedily. -/
theorem pattern_of_readRepetitions (hs : IsSign s least most) (hrest : Unrepeated rest)
    (h : readRepetitions (.initial caseless) (fuel + 1) w (s ++ rest) = some (x, f)) :
    x.pattern = w.pattern.repeated least most true ∧ f = rest ∧ ∀ m ∈ most, least ≤ m := by
  simp only [readRepetitions] at h
  split at h
  · exact nomatch h
  · rename_i hsign
    exact nomatch (hs caseless rest _ hsign).1
  · rename_i hsign
    obtain ⟨heq, hbounds⟩ := hs caseless rest _ hsign
    obtain ⟨⟨rfl, rfl⟩, rfl⟩ : (_ ∧ _) ∧ _ := by simpa using heq
    -- A question mark would turn the sign around.
    split at h
    · exact nomatch hrest '?' rfl
    · rw [readRepetitions_of_unrepeated hrest] at h
      obtain ⟨rfl, rfl⟩ := Prod.mk.inj (Option.some.inj h)
      exact ⟨rfl, rfl, hbounds⟩

end TimePhrase.Pattern
