import TimePhrase.Restriction.Cuts

/-!
# Removal of restricted spans

The cuts are applied from the last one to the first, so that each still refers to bytes that have
not moved. What is left is trimmed, and its beginning is traced back to the text before the cuts.
-/

namespace TimePhrase.Restriction

/-- The text without one span. -/
def removeSpan (text : Text) (s : Span) : Text := text.takeBytes s.start ++ text.dropBytes s.stop

/-- The text without the given cuts, which come in order. -/
def removeCuts (text : Text) (cuts : List Span) : Text :=
  cuts.foldr (fun cut rest => removeSpan rest cut) text

/-- Where a byte of the text without the cuts stands in the text with them. -/
def sourceByte : List Span → Nat → Nat
  | [], byte => byte
  | cut :: r, byte => if byte < cut.start then byte else sourceByte r (byte + cut.len)

/-- What is left of a text. -/
structure Removal where
  value : Text
  /-- The byte of the text, with its cuts, at which the value begins. -/
  offset : Nat
deriving DecidableEq, Inhabited

/-- Removes the given spans and trims what is left. -/
def removeSpans (text : Text) (spans : List Span) : Removal :=
  let cuts := planCuts text spans
  let rest := removeCuts text cuts
  ⟨rest.stripWhile isTrimmed, sourceByte cuts (Text.byteSize (rest.takeWhile isTrimmed))⟩

end TimePhrase.Restriction
