import TimePhrase.Proofs.Text.Trim
import TimePhrase.Resource.Header

/-!
# Ids of resources

The id in a header is an attribute without the blanks around it, and it is not empty.

* `filledAttribute?_eq_some`  filled attributes
* `filledAttribute?_of_header?`, `trimmed_of_header?`  ids
-/

namespace TimePhrase.Element

variable {e : Element} {name value : Text} {header : Header}

theorem filledAttribute?_eq_some : e.filledAttribute? name = some value ↔
    (e.attribute? name).map Text.trim = some value ∧ value ≠ [] := by
  rw [filledAttribute?, Option.filter_eq_some_iff]
  simp

theorem filledAttribute?_of_header? (h : e.header? = .ok header) :
    e.filledAttribute? "id" = some header.id := by
  unfold header? at h
  split at h
  · exact nomatch h
  · rename_i id hid
    rw [hid]
    split at h
    · obtain rfl := Except.ok.inj h
      rfl
    · split at h
      · exact nomatch h
      · obtain rfl := Except.ok.inj h
        rfl

theorem trimmed_of_header? (h : e.header? = .ok header) : header.id.Trimmed := by
  obtain ⟨hid, -⟩ := filledAttribute?_eq_some.mp (filledAttribute?_of_header? h)
  obtain ⟨value, -, hvalue⟩ := Option.map_eq_some_iff.mp hid
  rw [← hvalue]
  exact Text.trimmed_trim value

theorem id_ne_nil_of_header? (h : e.header? = .ok header) : header.id ≠ [] :=
  (filledAttribute?_eq_some.mp (filledAttribute?_of_header? h)).2

end TimePhrase.Element
