import TimePhrase.Text.Basic

/-!
# Dictionaries

A dictionary maps keys to values, both texts. Its entries stand in the order of their keys, so two
dictionaries with the same entries are equal.

* `get?_insert_self`  `(d.insert k v).get? k = some v`
* `get?_insert_of_ne`  `k ≠ j → (d.insert k v).get? j = d.get? j`
-/

namespace TimePhrase

namespace Text

/-- The order of texts by the code points of their characters. -/
def precedes : Text → Text → Bool
  | _, [] => false
  | [], _ :: _ => true
  | a :: s, b :: t => a.toNat < b.toNat || (a.toNat == b.toNat && precedes s t)

theorem precedes_trans {s t u : Text} (h₁ : precedes s t = true) (h₂ : precedes t u = true) :
    precedes s u = true := by
  induction s generalizing t u with
  | nil =>
    cases u with
    | nil => cases t <;> simp [precedes] at h₂
    | cons => simp [precedes]
  | cons a s ih =>
    cases t with
    | nil => simp [precedes] at h₁
    | cons b t =>
      cases u with
      | nil => simp [precedes] at h₂
      | cons c u =>
        simp only [precedes, Bool.or_eq_true, decide_eq_true_eq, Bool.and_eq_true, beq_iff_eq] at *
        rcases h₁ with h₁ | ⟨e₁, h₁⟩ <;> rcases h₂ with h₂ | ⟨e₂, h₂⟩
        · exact .inl (by omega)
        · exact .inl (by omega)
        · exact .inl (by omega)
        · exact .inr ⟨by omega, ih h₁ h₂⟩

theorem precedes_of_not_precedes {s t : Text} (h : precedes s t = false) (hne : s ≠ t) :
    precedes t s = true := by
  induction s generalizing t with
  | nil =>
    cases t with
    | nil => simp at hne
    | cons => simp [precedes] at h
  | cons a s ih =>
    cases t with
    | nil => simp [precedes]
    | cons b t =>
      simp only [precedes, Bool.or_eq_true, decide_eq_true_eq, Bool.and_eq_true, beq_iff_eq,
        Bool.or_eq_false_iff, decide_eq_false_iff_not, Bool.and_eq_false_iff, beq_eq_false_iff_ne,
        ne_eq] at *
      by_cases e : a.toNat = b.toNat
      · have hab : a = b := Char.toNat_inj.mp e
        exact .inr
          ⟨e.symm, ih (h.2.resolve_left (fun n => n e)) (fun hs => hne (by simp [hab, hs]))⟩
      · exact .inl (by omega)

end Text

/-! ## Entries in key order -/

/-- Puts an entry at its place, over an entry with the same key. -/
def insertEntry (k v : Text) : List (Text × Text) → List (Text × Text)
  | [] => [(k, v)]
  | e :: r =>
    if k = e.1 then (k, v) :: r
    else if k.precedes e.1 then (k, v) :: e :: r
    else e :: insertEntry k v r

theorem mem_insertEntry {k v : Text} {r : List (Text × Text)} {e : Text × Text}
    (h : e ∈ insertEntry k v r) : e = (k, v) ∨ e ∈ r := by
  induction r with
  | nil => simpa [insertEntry] using h
  | cons d r ih =>
    simp only [insertEntry] at h
    split at h
    · rcases List.mem_cons.mp h with h | h
      · exact .inl h
      · exact .inr (List.mem_cons_of_mem _ h)
    · split at h
      · rcases List.mem_cons.mp h with h | h
        · exact .inl h
        · exact .inr h
      · rcases List.mem_cons.mp h with h | h
        · exact .inr (h ▸ List.mem_cons_self ..)
        · exact (ih h).imp_right (List.mem_cons_of_mem _)

theorem pairwise_insertEntry (k v : Text) {r : List (Text × Text)}
    (h : r.Pairwise fun a b => a.1.precedes b.1 = true) :
    (insertEntry k v r).Pairwise fun a b => a.1.precedes b.1 = true := by
  induction r with
  | nil => simp [insertEntry]
  | cons e r ih =>
    have ⟨he, hr⟩ := List.pairwise_cons.mp h
    simp only [insertEntry]
    split
    · rename_i hk
      exact List.pairwise_cons.mpr ⟨fun b hb => hk ▸ he b hb, hr⟩
    · rename_i hk
      split
      · rename_i hp
        refine List.pairwise_cons.mpr ⟨fun b hb => ?_, h⟩
        rcases List.mem_cons.mp hb with hb | hb
        · exact hb ▸ hp
        · exact Text.precedes_trans hp (he b hb)
      · rename_i hp
        refine List.pairwise_cons.mpr ⟨fun b hb => ?_, ih hr⟩
        rcases mem_insertEntry hb with hb | hb
        · exact hb ▸ Text.precedes_of_not_precedes (by simpa using hp) hk
        · exact he b hb

/-- The value of the first entry with a key. -/
def entryValue? (k : Text) : List (Text × Text) → Option Text
  | [] => none
  | e :: r => if k = e.1 then some e.2 else entryValue? k r

theorem entryValue?_insertEntry (k v j : Text) (r : List (Text × Text)) :
    entryValue? j (insertEntry k v r) = if j = k then some v else entryValue? j r := by
  induction r with
  | nil => simp [insertEntry, entryValue?]
  | cons e r ih =>
    simp only [insertEntry]
    split
    · rename_i hk
      simp only [entryValue?]
      by_cases h : j = k <;> simp [h, ← hk]
    · rename_i hk
      split
      · simp [entryValue?]
      · simp only [entryValue?, ih]
        by_cases h : j = e.1
        · simp [h, Ne.symm hk]
        · simp [h]

/-- A finite map from texts to texts. -/
structure Dictionary where
  entries : List (Text × Text)
  sorted : entries.Pairwise fun a b => a.1.precedes b.1 = true
deriving DecidableEq

namespace Dictionary

/-- The dictionary without entries. -/
def empty : Dictionary := ⟨[], List.Pairwise.nil⟩

instance : Inhabited Dictionary := ⟨empty⟩

/-- Sets the value of a key. -/
def insert (d : Dictionary) (k v : Text) : Dictionary :=
  ⟨insertEntry k v d.entries, pairwise_insertEntry k v d.sorted⟩

/-- The value of a key. -/
def get? (d : Dictionary) (k : Text) : Option Text := entryValue? k d.entries

/-- Number of entries. -/
def size (d : Dictionary) : Nat := d.entries.length

/-- The entries of a list, later ones over earlier ones. -/
def ofList (es : List (Text × Text)) : Dictionary :=
  es.foldl (fun d e => d.insert e.1 e.2) empty

@[simp] theorem get?_empty (k : Text) : empty.get? k = none := rfl

@[simp] theorem get?_insert_self (d : Dictionary) (k v : Text) :
    (d.insert k v).get? k = some v := by
  simp [get?, insert, entryValue?_insertEntry]

theorem get?_insert_of_ne (d : Dictionary) {k j : Text} (v : Text) (h : k ≠ j) :
    (d.insert k v).get? j = d.get? j := by
  have h' : j ≠ k := fun e => h e.symm
  simp [get?, insert, entryValue?_insertEntry, h']

end Dictionary

end TimePhrase
