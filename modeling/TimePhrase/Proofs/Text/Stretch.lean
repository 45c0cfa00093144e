import TimePhrase.Proofs.Text.Placed
import TimePhrase.Restriction.Span

/-!
# Spans of whole characters

A span given by bytes stands for characters of a text only if both of its ends are boundaries.

* `aligned_iff_isStretch`  such a span divides the text
* `byteSize_slice`  the text between two boundaries has as many bytes as there are between them
-/

namespace TimePhrase

open Text

namespace Span

theorem holds_iff {s : Span} {byte : Nat} : s.holds byte = true ↔ s.start ≤ byte ∧ byte < s.stop := by
  simp [holds]

theorem start_le_stop (s : Span) : s.start ≤ s.stop := Nat.le_add_right s.start s.len

theorem start_cover (s t : Span) : (s.cover t).start = min s.start t.start := rfl

/-- Whether both ends of a span stand between characters of a text. -/
structure Aligned (text : Text) (s : Span) : Prop where
  start : text.IsBoundary s.start
  stop : text.IsBoundary s.stop

instance (text : Text) (s : Span) : Decidable (s.Aligned text) :=
  decidable_of_iff (text.IsBoundary s.start ∧ text.IsBoundary s.stop)
    ⟨fun h => ⟨h.1, h.2⟩, fun h => ⟨h.start, h.stop⟩⟩

theorem aligned_cover {text : Text} {s t : Span} (hs : s.Aligned text) (ht : t.Aligned text) :
    (s.cover t).Aligned text := by
  constructor
  · rw [start_cover]
    exact hs.start.min ht.start
  · rw [stop_cover]
    exact hs.stop.max ht.stop

/-- Over the characters `t`, which have `pos` bytes before them, a span is a stretch of whole
    characters. -/
def IsStretch (pos : Nat) (t : Text) (s : Span) : Prop :=
  ∃ a b c, t = a ++ b ++ c ∧ s = ⟨pos + byteSize a, byteSize b⟩

namespace IsStretch

variable {pos : Nat} {t : Text} {s : Span}

theorem append_right (h : s.IsStretch pos t) (u : Text) : s.IsStretch pos (t ++ u) := by
  obtain ⟨a, b, c, rfl, rfl⟩ := h
  exact ⟨a, b, c ++ u, by simp, rfl⟩

theorem append_left (u : Text) (h : s.IsStretch (pos + byteSize u) t) :
    s.IsStretch pos (u ++ t) := by
  obtain ⟨a, b, c, rfl, rfl⟩ := h
  exact ⟨u ++ a, b, c, by simp, by rw [byteSize_append, Nat.add_assoc]⟩

/-- A stretch behind the first characters is one of the others. -/
theorem of_append_left {u : Text} (h : s.IsStretch pos (u ++ t))
    (hle : pos + byteSize u ≤ s.start) : s.IsStretch (pos + byteSize u) t := by
  obtain ⟨a, b, c, he, rfl⟩ := h
  have hua : byteSize u ≤ byteSize a := Nat.le_of_add_le_add_left hle
  rw [List.append_assoc] at he
  obtain ⟨d, rfl, rfl⟩ := exists_append_of_byteSize_le he hua
  refine ⟨d, b, c, by rw [List.append_assoc], ?_⟩
  rw [byteSize_append, Nat.add_assoc]

/-- Counted from the beginning of the characters, a stretch is aligned in them. -/
theorem aligned (h : s.IsStretch pos t) : Aligned t ⟨s.start - pos, s.len⟩ := by
  obtain ⟨a, b, c, rfl, rfl⟩ := h
  rw [Nat.add_sub_cancel_left]
  refine ⟨?_, ?_⟩
  · rw [List.append_assoc]
    exact isBoundary_append a (b ++ c)
  · rw [stop, ← byteSize_append]
    exact isBoundary_append (a ++ b) c

end IsStretch

theorem aligned_iff_isStretch {text : Text} {s : Span} : s.Aligned text ↔ s.IsStretch 0 text := by
  constructor
  · intro h
    obtain ⟨a, b, c, rfl, ha, hab⟩ := exists_append_of_isBoundary h.start h.stop s.start_le_stop
    refine ⟨a, b, c, rfl, ?_⟩
    rw [byteSize_append, ha, stop] at hab
    rw [Nat.zero_add, ha, Nat.add_left_cancel hab]
  · exact fun h => h.aligned

end Span

namespace Text

theorem slice_append (a b c : Text) : slice (a ++ b ++ c) (byteSize a) (byteSize (a ++ b)) = b := by
  rw [slice, List.append_assoc, dropBytes_byteSize_append, byteSize_append, Nat.add_sub_cancel_left,
    takeBytes_byteSize_append]

theorem byteSize_slice {t : Text} {m n : Nat} (hm : IsBoundary t m) (hn : IsBoundary t n)
    (hmn : m ≤ n) : byteSize (slice t m n) = n - m := by
  obtain ⟨a, b, c, rfl, rfl, rfl⟩ := exists_append_of_isBoundary hm hn hmn
  rw [slice_append, byteSize_append, Nat.add_sub_cancel_left]

end Text

end TimePhrase
