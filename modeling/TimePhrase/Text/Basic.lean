/-!
# Texts and their byte positions

A text is the list of its characters. Positions and lengths inside a text are counted in the
bytes of its UTF-8 form, so this file also holds the byte measure and the operations that cut
a text at a byte position.

* `byteSize_append`  `byteSize (s ++ t) = byteSize s + byteSize t`
* `takeBytes_append_dropBytes`  `s.takeBytes n ++ s.dropBytes n = s`
* `join_splitAtChar`  the parts of a text, joined by the separator, are the text
-/

namespace TimePhrase

/-- A text, as the list of its characters. -/
abbrev Text := List Char

instance : Coe String Text := ⟨String.toList⟩

namespace Text

/-! ## Bytes -/

/-- Length of the UTF-8 form. -/
def byteSize : Text → Nat
  | [] => 0
  | c :: r => c.utf8Size + byteSize r

@[simp] theorem byteSize_nil : byteSize [] = 0 := rfl

@[simp] theorem byteSize_cons (c : Char) (r : Text) : byteSize (c :: r) = c.utf8Size + byteSize r :=
  rfl

@[simp] theorem byteSize_append (s t : Text) : byteSize (s ++ t) = byteSize s + byteSize t := by
  induction s with
  | nil => simp
  | cons c r ih => simp [ih, Nat.add_assoc]

theorem length_le_byteSize (s : Text) : s.length ≤ byteSize s := by
  induction s with
  | nil => simp
  | cons c r ih => have := Char.utf8Size_pos c; simp; omega

/-- The characters that begin before byte `n`. -/
def takeBytes : Nat → Text → Text
  | _, [] => []
  | n, c :: r => if n = 0 then [] else c :: takeBytes (n - c.utf8Size) r

/-- The characters that begin at byte `n` or later. -/
def dropBytes : Nat → Text → Text
  | _, [] => []
  | n, c :: r => if n = 0 then c :: r else dropBytes (n - c.utf8Size) r

@[simp] theorem takeBytes_zero (s : Text) : takeBytes 0 s = [] := by cases s <;> simp [takeBytes]

@[simp] theorem dropBytes_zero (s : Text) : dropBytes 0 s = s := by cases s <;> simp [dropBytes]

theorem takeBytes_append_dropBytes (n : Nat) (s : Text) : takeBytes n s ++ dropBytes n s = s := by
  induction s generalizing n with
  | nil => simp [takeBytes, dropBytes]
  | cons c r ih => by_cases h : n = 0 <;> simp [takeBytes, dropBytes, h, ih]

theorem takeBytes_byteSize_append (s t : Text) : takeBytes (byteSize s) (s ++ t) = s := by
  induction s with
  | nil => simp
  | cons c r ih =>
    have h : c.utf8Size ≠ 0 := Nat.ne_of_gt (Char.utf8Size_pos c)
    simp [takeBytes, h, ih]

theorem dropBytes_byteSize_append (s t : Text) : dropBytes (byteSize s) (s ++ t) = t := by
  induction s with
  | nil => simp
  | cons c r ih =>
    have h : c.utf8Size ≠ 0 := Nat.ne_of_gt (Char.utf8Size_pos c)
    simp [dropBytes, h, ih]

/-- The characters that begin in `[start, stop)`. -/
def slice (s : Text) (start stop : Nat) : Text :=
  takeBytes (stop - start) (dropBytes start s)

/-! ## Trimming by a class of characters -/

/-- Without the longest final run of characters in the class. -/
def dropEndWhile (p : Char → Bool) : Text → Text
  | [] => []
  | c :: r =>
    match dropEndWhile p r with
    | [] => if p c then [] else [c]
    | d :: r' => c :: d :: r'

/-- Without the longest runs of characters in the class at both ends. -/
def stripWhile (p : Char → Bool) (s : Text) : Text :=
  dropEndWhile p (s.dropWhile p)

/-! ## Comparison -/

/-- Equality up to the case of the letters `A` to `Z`. -/
def sameAsciiLetters (s t : Text) : Bool :=
  s.map Char.toLower == t.map Char.toLower

/-- What is left of `s` after `p`, if `s` begins with `p`. -/
def after? : (s p : Text) → Option Text
  | s, [] => some s
  | [], _ :: _ => none
  | c :: s, a :: p => if a = c then after? s p else none

theorem after?_append (p s : Text) : after? (p ++ s) p = some s := by
  induction p with
  | nil => cases s <;> rfl
  | cons a p ih => simp [after?, ih]

theorem eq_append_of_after? {s p r : Text} (h : after? s p = some r) : s = p ++ r := by
  induction p generalizing s with
  | nil => cases s <;> simp_all [after?]
  | cons a p ih =>
    cases s with
    | nil => simp [after?] at h
    | cons c s =>
      simp only [after?] at h
      split at h
      · rename_i hac; simp [hac, ih h]
      · simp at h

/-! ## Parts and joins -/

/-- Puts a character in front of the first text of a list. -/
def consFirst (c : Char) : List Text → List Text
  | [] => [[c]]
  | p :: ps => (c :: p) :: ps

/-- The parts between the occurrences of a separator character. -/
def splitAtChar (sep : Char) : Text → List Text
  | [] => [[]]
  | c :: r => if c = sep then [] :: splitAtChar sep r else consFirst c (splitAtChar sep r)

/-- The parts of a text before and after the first occurrence of a character. -/
def splitOnce (sep : Char) : Text → Option (Text × Text)
  | [] => none
  | c :: r => if c = sep then some ([], r) else (splitOnce sep r).map fun p => (c :: p.1, p.2)

/-- The parts of a text before and after the first occurrence of a text. -/
def breakOn? (s mark : Text) : Option (Text × Text) :=
  match s.after? mark with
  | some rest => some ([], rest)
  | none =>
    match s with
    | [] => none
    | c :: r => (breakOn? r mark).map fun p => (c :: p.1, p.2)

/-- The texts one after the other, with `sep` between neighbours. -/
def join (sep : Text) : List Text → Text
  | [] => []
  | [p] => p
  | p :: q :: r => p ++ sep ++ join sep (q :: r)

theorem join_consFirst (sep : Text) (c : Char) {ps : List Text} (h : ps ≠ []) :
    join sep (consFirst c ps) = c :: join sep ps := by
  match ps, h with
  | [p], _ => rfl
  | p :: q :: r, _ => simp [consFirst, join]

theorem splitAtChar_ne_nil (sep : Char) (s : Text) : splitAtChar sep s ≠ [] := by
  cases s with
  | nil => simp [splitAtChar]
  | cons c r =>
    simp only [splitAtChar]
    split
    · simp
    · cases splitAtChar sep r <;> simp [consFirst]

/-- A text is parted at the first separator. -/
theorem splitOnce_append {sep : Char} {s : Text} (h : ∀ c ∈ s, c ≠ sep) (rest : Text) :
    splitOnce sep (s ++ sep :: rest) = some (s, rest) := by
  induction s with
  | nil => simp [splitOnce]
  | cons c s ih =>
    obtain ⟨hc, hs⟩ := List.forall_mem_cons.mp h
    simp [splitOnce, hc, ih hs]

theorem splitOnce_eq_none {sep : Char} {s : Text} (h : ∀ c ∈ s, c ≠ sep) :
    splitOnce sep s = none := by
  induction s with
  | nil => rfl
  | cons c s ih =>
    obtain ⟨hc, hs⟩ := List.forall_mem_cons.mp h
    simp [splitOnce, hc, ih hs]

/-- Splitting loses nothing but the separators. -/
theorem join_splitAtChar (sep : Char) (s : Text) : join [sep] (splitAtChar sep s) = s := by
  induction s with
  | nil => rfl
  | cons c r ih =>
    have hne := splitAtChar_ne_nil sep r
    simp only [splitAtChar]
    split
    · rename_i h
      cases hp : splitAtChar sep r with
      | nil => exact absurd hp hne
      | cons p ps => rw [hp] at ih; simp [join, ih, h]
    · rw [join_consFirst _ _ hne, ih]

end Text

end TimePhrase
