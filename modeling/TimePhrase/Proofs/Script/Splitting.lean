import TimePhrase.Proofs.Script.Scan
import TimePhrase.Proofs.Text.Stretch

/-!
# Splitting at the top level

The parts of a text and the separators between them make up the text again. If no quote and no
bracket separates, a scan is outside everything both in front of a separator and behind it. So the
text on either side of a separator is split as if nothing else were there.

* `separators`  where a text is split
* `weave`, `piecesBetween`  the text from its parts, and the parts from the text
* `Woven`, `Scan.woven_parts`  the parts of a text and its separators are in their places
* `weave_splitTopLevel`  splitting loses nothing, is final, and goes piece by piece
-/

namespace TimePhrase.Script

open Text

/-! ## Parts and separators -/

/-- The top-level characters of a class, with their byte positions. -/
def separators (isSeparator : Char → Bool) (t : Text) : List (Nat × Char) :=
  (topLevel t).filter fun x => isSeparator x.2

/-- The parts one after the other, with the separators between neighbours. -/
def weave : List Text → List Char → Text
  | [], cs => cs
  | q :: qs, [] => q ++ weave qs []
  | q :: qs, c :: cs => q ++ c :: weave qs cs

/-- The pieces of a text from byte `start` on, between the characters of it that are given with their
    byte positions. -/
def piecesBetween (t : Text) (start : Nat) : List (Nat × Char) → List Text
  | [] => [t.dropBytes start]
  | (pos, c) :: r => t.slice start pos :: piecesBetween t (pos + c.utf8Size) r

/-- The text is made of the parts, with a separator between any two neighbours. Each separator is
    listed with the byte position at which it stands, if the text itself stands at `pos`. -/
inductive Woven : Nat → List Text → List (Nat × Char) → Text → Prop where
  | last (pos : Nat) (q : Text) : Woven pos [q] [] q
  | cons {pos : Nat} {c : Char} {qs : List Text} {cs : List (Nat × Char)} {u : Text} (q : Text) :
    Woven (pos + byteSize q + c.utf8Size) qs cs u →
    Woven pos (q :: qs) ((pos + byteSize q, c) :: cs) (q ++ c :: u)

namespace Woven

variable {pos : Nat} {qs : List Text} {cs : List (Nat × Char)} {t : Text}

theorem length_eq (h : Woven pos qs cs t) : qs.length = cs.length + 1 := by
  induction h with
  | last => rfl
  | cons q _ ih => rw [List.length_cons, List.length_cons, ih]

theorem weave_eq (h : Woven pos qs cs t) : weave qs (cs.map Prod.snd) = t := by
  induction h with
  | last pos q => exact List.append_nil q
  | cons q _ ih => rw [List.map_cons, weave, ih]

/-- The separators tell where the parts begin and end. -/
theorem piecesBetween_eq (h : Woven pos qs cs t) {a : Text} (ha : byteSize a = pos) :
    piecesBetween (a ++ t) pos cs = qs := by
  induction h generalizing a with
  | last => rw [piecesBetween, ← ha, dropBytes_byteSize_append]
  | @cons pos c qs cs u q _ ih =>
    have hslice : slice (a ++ (q ++ c :: u)) pos (pos + byteSize q) = q := by
      rw [← ha, ← byteSize_append, ← List.append_assoc, slice_append]
    have hfront : byteSize (a ++ q ++ [c]) = pos + byteSize q + c.utf8Size := by
      rw [byteSize_append, byteSize_append, ha, byteSize_cons, byteSize_nil, Nat.add_zero]
    have hrest := ih hfront
    rw [List.append_assoc, List.append_assoc, List.singleton_append] at hrest
    rw [piecesBetween, hslice, hrest]

end Woven

/-! ## Splitting -/

/-- Between two neighbouring parts stands the separator that they are split at. -/
theorem Scan.woven_parts (p : Char → Bool) (s : Scan) (pos : Nat) (t : Text) :
    Woven pos (parts p s t) ((s.topLevel pos t).filter fun x => p x.2) t := by
  have hnone {s : Scan} {pos : Nat} {q : Text} (h : Avoids p s q) :
      (s.topLevel pos q).filter (fun x => p x.2) = [] :=
    List.filter_eq_nil_iff.mpr fun x hx => by simp [(avoids_iff_topLevel p s pos q).mp h x hx]
  generalize hn : t.length = n
  induction n using Nat.strongRecOn generalizing s pos t with
  | ind n ih =>
    subst hn
    rcases parts_cases p s t with h | ⟨q, c, u, rfl, h, hs, hc⟩
    · rw [parts_eq_singleton h, hnone h]
      exact .last pos t
    · -- The first separator stands behind the first part; the others are those of the rest.
      have hlt : u.length < (q ++ c :: u).length := by simp; omega
      rw [parts_append_cons h hs hc, topLevel_append, List.filter_append, hnone h, List.nil_append,
        topLevel, if_pos hs, List.filter_cons, if_pos hc]
      exact .cons q (ih u.length hlt _ _ u rfl)

/-- Splitting a text at the top-level characters of a class loses nothing: the parts are the pieces
    between these characters, and with the characters between them they make up the text. If no
    quote and no bracket is in the class, splitting is final, as a part is not split again, and goes
    piece by piece: when a text leaves a scan outside everything, what stands behind it and a
    separator is split by itself. -/
theorem weave_splitTopLevel (p : Char → Bool) (t : Text) :
    (splitTopLevel p t).length = (separators p t).length + 1 ∧
    weave (splitTopLevel p t) ((separators p t).map Prod.snd) = t ∧
    splitTopLevel p t = piecesBetween t 0 (separators p t) ∧
    ((∀ m ∈ marks, p m = false) →
      (∀ q ∈ splitTopLevel p t, splitTopLevel p q = [q]) ∧
      (Scan.outside.after t = .outside → ∀ c, p c = true → ∀ u,
        splitTopLevel p (t ++ c :: u) = splitTopLevel p t ++ splitTopLevel p u)) := by
  have hwoven : Woven 0 (splitTopLevel p t) (separators p t) t := Scan.woven_parts p .outside 0 t
  refine ⟨hwoven.length_eq, hwoven.weave_eq, (hwoven.piecesBetween_eq byteSize_nil).symm,
    fun hmarks => ⟨fun q hq => ?_, fun hafter c hc u => ?_⟩⟩
  · -- A scan of the part alone is where the scan of the text was, and that saw no separator in it.
    have hnext : ∀ c, p c = true → Scan.outside.next c = .outside := fun c hc =>
      Scan.next_of_isPlain (isPlain_of_class hmarks hc) 0
    exact Scan.parts_eq_singleton (Scan.avoids_of_mem_parts hnext q hq)
  · exact Scan.parts_append_of_after hafter hc (isPlain_of_class hmarks hc) u

/-- A closing parenthesis that closes nothing, brackets of two kinds that close each other, and a
    separator between quotes. -/
theorem weave_splitTopLevel_mismatched :
    separators (· == ',') "é),b(c],'d,'" = [(3, ','), (8, ',')] ∧
    weave ["é)", "b(c]", "'d,'"] [',', ','] = "é),b(c],'d,'".toList ∧
    (∀ m ∈ marks, (m == ',') = false) ∧ Scan.outside.after "é),b(c],'d,'" = .outside ∧
    (∀ q ∈ splitTopLevel (· == ',') "é),b(c],'d,'", splitTopLevel (· == ',') q = [q]) ∧
    splitTopLevel (· == ',') ("é),b(c],'d,'".toList ++ ',' :: "(e,f") =
      ["é)".toList, "b(c]", "'d,'", "(e,f"] := by
  have hparts : splitTopLevel (· == ',') "é),b(c],'d,'" = ["é)".toList, "b(c]", "'d,'"] := by decide
  have hseparators : separators (· == ',') "é),b(c],'d,'" = [(3, ','), (8, ',')] := by decide
  have hmarks : ∀ m ∈ marks, (m == ',') = false := by decide
  have hafter : Scan.outside.after "é),b(c],'d,'" = .outside := by decide
  obtain ⟨-, hweave, -, hplain⟩ := weave_splitTopLevel (· == ',') "é),b(c],'d,'"
  obtain ⟨hfinal, happend⟩ := hplain hmarks
  have happend := happend hafter ',' (by decide) "(e,f"
  rw [hparts, hseparators] at hweave
  rw [hparts] at happend
  exact ⟨hseparators, hweave, hmarks, hafter, hfinal, happend.trans (by decide)⟩

end TimePhrase.Script
