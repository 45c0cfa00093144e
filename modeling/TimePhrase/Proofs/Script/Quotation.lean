import TimePhrase.Proofs.Script.Openings

/-!
# Where a quoted text ends

A quoted text ends for its reader where it ends for a scan. What the reader takes is hidden from the
scan, which is outside everything behind it. If the reader finds no end, the scan does not find one
either, and everything is hidden from it.

* `avoids_of_untilQuote_eq_none`  a quoted text without an end
* `Piece.topLevel_append`  a piece that is hidden moves what stands behind it
* `topLevel_of_quotedLiteral`  the top level of a text that begins with a quote
-/

namespace TimePhrase.Script

open Text

/-- Without a closing quote, a scan stays between the quotes. -/
theorem avoids_of_untilQuote_eq_none {q : Char} {s : Text} (h : untilQuote q s = none)
    (p : Char → Bool) (d : Nat) : Scan.Avoids p (.quoted q d) s := by
  fun_induction untilQuote q s with
  | case1 => trivial
  | case2 => exact ⟨fun hsees => by simp [Scan.sees] at hsees, trivial⟩
  | case3 c r ih =>
    -- A backslash and the character after it.
    simpa [Scan.sees, Scan.next] using ih (Option.map_eq_none_iff.mp h)
  | case4 => cases h
  | case5 c r hone hslash hne ih =>
    -- The character is neither a backslash, alone or with another one, nor the closing quote.
    have hc : c ≠ '\\' := by
      rintro rfl
      cases r with
      | nil => exact hone rfl rfl
      | cons d r => exact hslash d r rfl rfl
    simpa [Scan.sees, Scan.next, hc, hne] using ih (Option.map_eq_none_iff.mp h)

/-- Behind a piece that shows nothing there are the same top-level characters as without it, further
    on by its size. -/
theorem Piece.topLevel_append {t : Text} (h : Piece (fun _ => true) t) (u : Text) :
    topLevel (t ++ u) = (topLevel u).map fun x => (x.1 + byteSize t, x.2) := by
  have hafter : Scan.outside.after t = .outside := h.after_eq 0
  have hnone := Scan.topLevel_eq_nil h.avoids_outside 0
  rw [topLevel, Scan.topLevel_append, hafter, hnone, List.nil_append, Scan.topLevel_add]
  rfl

/-- The reader of a quoted text and a scan agree on where it ends. If the reader succeeds, the
    top-level characters are those of what it leaves, moved on by what it takes; if it fails, there
    are none. And the reader succeeds on every text that is written between quotes, with a backslash
    before each backslash and each quote of the same kind, whatever stands behind it. -/
theorem topLevel_of_quotedLiteral {q : Char} (hq : isQuote q = true) (s : Text) :
    (∀ value rest, quotedLiteral (q :: s) = some (value, rest) →
      rest <:+ q :: s ∧ topLevel (q :: s) =
        (topLevel rest).map fun x => (x.1 + (byteSize (q :: s) - byteSize rest), x.2)) ∧
    (quotedLiteral (q :: s) = none → topLevel (q :: s) = []) ∧
    ∀ t rest : Text, quotedLiteral (q :: escape q t ++ q :: rest) = some (t, rest) := by
  refine ⟨fun value rest h => ?_, fun h => ?_, fun t rest => quotedLiteral_escape q hq t rest⟩
  · -- What the reader takes is hidden, and the scan is outside everything behind it.
    obtain ⟨front, hs, hfront⟩ := exists_of_quotedLiteral h
    rw [hs, byteSize_append, Nat.add_sub_cancel]
    exact ⟨List.suffix_append front rest, (hfront _).topLevel_append rest⟩
  · -- The scan goes between the quotes with the first character, and stays there.
    rw [quotedLiteral, if_pos hq] at h
    have havoids : Scan.Avoids (fun _ => true) .outside (q :: s) := by
      have hopen : Scan.outside.next q = .quoted q 0 := by simp [Scan.outside, Scan.next, hq]
      rw [Scan.avoids_cons, hopen]
      exact ⟨by simp [Scan.outside, Scan.sees, hq], avoids_of_untilQuote_eq_none h _ 0⟩
    exact Scan.topLevel_eq_nil havoids 0

/-- Between the quotes stand the same quote after a backslash, a bracket that is never closed, and a
    quote of the other kind. Without the last quote nothing is at the top level. -/
theorem topLevel_of_quotedLiteral_apostrophe :
    isQuote '\'' = true ∧
    quotedLiteral "'it\\'s (\"é' + b" = some ("it's (\"é".toList, " + b".toList) ∧
    topLevel "'it\\'s (\"é' + b" = [(12, ' '), (13, '+'), (14, ' '), (15, 'b')] ∧
    quotedLiteral "'it\\'s" = none ∧ topLevel "'it\\'s" = [] ∧
    quotedLiteral ('\'' :: escape '\'' "it's (\"é" ++ '\'' :: "; b") =
      some ("it's (\"é".toList, "; b".toList) := by
  have hq : isQuote '\'' = true := by decide
  have hread : quotedLiteral "'it\\'s (\"é' + b" = some ("it's (\"é".toList, " + b".toList) := by
    decide
  have hopen : quotedLiteral "'it\\'s" = none := by decide
  obtain ⟨hmoved, -, hwritten⟩ := topLevel_of_quotedLiteral hq "it\\'s (\"é' + b"
  obtain ⟨-, hnone, -⟩ := topLevel_of_quotedLiteral hq "it\\'s"
  exact ⟨hq, hread, (hmoved _ _ hread).2.trans (by decide), hopen, hnone hopen,
    hwritten "it's (\"é" "; b"⟩

end TimePhrase.Script
