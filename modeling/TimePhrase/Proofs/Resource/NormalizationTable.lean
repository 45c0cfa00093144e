import TimePhrase.Proofs.Fallible
import TimePhrase.Resource.NormalizationTable

/-!
# Tables as maps of their entries

An entry is taken by a table unless its surface, folded, is there already, so of the entries that are
offered for one surface the table keeps the first. A table that is declared has to take all of its
items. Then no two of them have one surface, and it does not matter in which order they stand.

* `offer`, `offerAll`  entries that a table takes or refuses
* `get?_offerAll`, `offerAll_eq`  what is found afterwards, and what has been taken
* `foldlM_insertItem_eq_ok`  the items of a declaration
* `lookups_of_entries`  both together
-/

namespace TimePhrase

/-! ## Entries in any order -/

section Entries

variable {k v : Text} {l l' : List (Text × Text)}

theorem entryValue?_append (k : Text) (l l' : List (Text × Text)) :
    entryValue? k (l ++ l') = (entryValue? k l).or (entryValue? k l') := by
  induction l with
  | nil => rfl
  | cons e r ih => by_cases h : k = e.1 <;> simp [entryValue?, h, ih]

theorem entryValue?_isSome : (entryValue? k l).isSome = true ↔ k ∈ l.map Prod.fst := by
  induction l with
  | nil => simp [entryValue?]
  | cons e r ih => by_cases h : k = e.1 <;> simp [entryValue?, h, ih]

/-- Where no key comes twice, an entry is found wherever it stands. -/
theorem entryValue?_eq_some (h : (l.map Prod.fst).Nodup) :
    entryValue? k l = some v ↔ (k, v) ∈ l := by
  induction l with
  | nil => simp [entryValue?]
  | cons e r ih =>
    obtain ⟨hne, hr⟩ := List.nodup_cons.mp h
    by_cases hk : k = e.1
    · have hout : (k, v) ∉ r := fun hmem => hne (hk ▸ List.mem_map_of_mem (f := Prod.fst) hmem)
      simp [entryValue?, hk ▸ hout, hk, Prod.ext_iff, eq_comm]
    · have hne' : (k, v) ≠ e := fun he => hk (congrArg Prod.fst he)
      simp [entryValue?, hk, ih hr, hne']

theorem entryValue?_perm (hperm : l.Perm l') (h : (l.map Prod.fst).Nodup) (k : Text) :
    entryValue? k l' = entryValue? k l := by
  have h' : (l'.map Prod.fst).Nodup := (hperm.map Prod.fst).nodup_iff.mp h
  refine Option.ext fun v => ?_
  rw [entryValue?_eq_some h, entryValue?_eq_some h', hperm.mem_iff]

end Entries

namespace NormalizationTable

variable {t t' : NormalizationTable} {s canonical : Text} {err : ResourceError}

/-! ## Offers -/

theorem insert_eq_ok : t.insert s canonical = .ok t' ↔
    t.get? s = none ∧ { t with entries := t.entries ++ [(t.fold s, canonical)] } = t' := by
  rw [insert]
  cases t.get? s <;> simp

theorem insert_of_isSome (h : (t.get? s).isSome = true) (canonical : Text) :
    t.insert s canonical = .error (.duplicateEntry t.id s) := by
  rw [insert, if_pos h]

theorem insert_eq_error : t.insert s canonical = .error err ↔
    (t.get? s).isSome = true ∧ err = .duplicateEntry t.id s := by
  rw [insert]
  cases t.get? s <;> simp [eq_comm]

/-- The table after an entry has been offered to it. It stays as it is if it refuses the entry. -/
def offer (t : NormalizationTable) (e : Text × Text) : NormalizationTable :=
  match t.insert e.1 e.2 with
  | .ok t => t
  | .error _ => t

/-- The table after several entries have been offered to it. -/
def offerAll (t : NormalizationTable) (l : List (Text × Text)) : NormalizationTable := l.foldl offer t

/-- The entries of a list that a table takes when they are offered to it. -/
def taken (t : NormalizationTable) : List (Text × Text) → List (Text × Text)
  | [] => []
  | e :: r => if (t.get? e.1).isSome then t.taken r else e :: (t.offer e).taken r

/-- An entry as the table keeps it. -/
def folded (t : NormalizationTable) (e : Text × Text) : Text × Text := (t.fold e.1, e.2)

theorem offer_of_isSome {e : Text × Text} (h : (t.get? e.1).isSome = true) : t.offer e = t := by
  rw [offer, insert_of_isSome h]

theorem offer_of_eq_none {e : Text × Text} (h : t.get? e.1 = none) :
    t.offer e = { t with entries := t.entries ++ [t.folded e] } := by
  rw [offer, insert_eq_ok.mpr ⟨h, rfl⟩, folded]

theorem insert_of_eq_none {e : Text × Text} (h : t.get? e.1 = none) :
    t.insert e.1 e.2 = .ok (t.offer e) := by
  rw [offer_of_eq_none h, insert_eq_ok.mpr ⟨h, rfl⟩, folded]

theorem fold_offer (t : NormalizationTable) (e : Text × Text) : (t.offer e).fold = t.fold := by
  cases h : t.get? e.1 with
  | none => rw [offer_of_eq_none h]; rfl
  | some c => rw [offer_of_isSome (by simp [h])]

theorem get?_offer (t : NormalizationTable) (e : Text × Text) (x : Text) :
    (t.offer e).get? x = (t.get? x).or (if t.fold x = t.fold e.1 then some e.2 else none) := by
  cases h : t.get? e.1 with
  | none =>
    have hfold := congrFun (fold_offer t e) x
    rw [offer_of_eq_none h] at hfold ⊢
    rw [get?, hfold, entryValue?_append, ← get?]
    rfl
  | some c =>
    rw [offer_of_isSome (by simp [h])]
    split
    · -- The surface that was refused is the one that is looked up.
      rename_i heq
      rw [get?, heq, ← get?, h, Option.some_or]
    · rw [Option.or_none]

/-- The first entry that has been offered for a surface is found, unless there was one before. -/
theorem get?_offerAll (t : NormalizationTable) (l : List (Text × Text)) (x : Text) :
    (t.offerAll l).get? x =
      (t.get? x).or ((l.find? fun e => t.fold x == t.fold e.1).map Prod.snd) := by
  induction l generalizing t with
  | nil => simp [offerAll]
  | cons e r ih =>
    have hrest := ih (t.offer e)
    rw [fold_offer, get?_offer, Option.or_assoc] at hrest
    rw [offerAll, List.foldl_cons, ← offerAll, hrest]
    by_cases h : t.fold x = t.fold e.1 <;> simp [h]

theorem taken_cons_of_isSome {e : Text × Text} (h : (t.get? e.1).isSome = true)
    (r : List (Text × Text)) : t.taken (e :: r) = t.taken r := by
  rw [taken, if_pos h]

theorem taken_cons_of_eq_none {e : Text × Text} (h : t.get? e.1 = none) (r : List (Text × Text)) :
    t.taken (e :: r) = e :: (t.offer e).taken r := by
  simp [taken, h]

theorem offerAll_cons (t : NormalizationTable) (e : Text × Text) (r : List (Text × Text)) :
    t.offerAll (e :: r) = (t.offer e).offerAll r := rfl

/-- What a table takes stands behind what it had, and nothing else changes. -/
theorem offerAll_eq (t : NormalizationTable) (l : List (Text × Text)) :
    t.offerAll l = { t with entries := t.entries ++ (t.taken l).map t.folded } := by
  induction l generalizing t with
  | nil => simp [offerAll, taken]
  | cons e r ih =>
    rw [offerAll_cons, ih]
    cases h : t.get? e.1 with
    | none =>
      have hfolded : (t.offer e).folded = t.folded := by
        funext x
        rw [folded, folded, fold_offer]
      rw [taken_cons_of_eq_none h, hfolded]
      simp [offer_of_eq_none h]
    | some c =>
      have hrefused : (t.get? e.1).isSome = true := Option.isSome_iff_exists.mpr ⟨c, h⟩
      rw [taken_cons_of_isSome hrefused, offer_of_isSome hrefused]

theorem fold_offerAll (t : NormalizationTable) (l : List (Text × Text)) :
    (t.offerAll l).fold = t.fold := by
  rw [offerAll_eq]
  rfl

theorem size_offerAll (t : NormalizationTable) (l : List (Text × Text)) :
    (t.offerAll l).size = t.size + (t.taken l).length := by
  simp [offerAll_eq, size]

/-- A surface is known if the table knew it or has taken an entry for it. -/
theorem isSome_get?_offerAll (t : NormalizationTable) (l : List (Text × Text)) (x : Text) :
    ((t.offerAll l).get? x).isSome = true ↔
      (t.get? x).isSome = true ∨ ∃ e ∈ t.taken l, t.fold e.1 = t.fold x := by
  rw [get?, fold_offerAll, offerAll_eq, entryValue?_append, Option.isSome_or, Bool.or_eq_true,
    entryValue?_isSome (l := (t.taken l).map t.folded), ← get?]
  simp [folded]

theorem taken_sublist (t : NormalizationTable) (l : List (Text × Text)) : (t.taken l).Sublist l := by
  induction l generalizing t with
  | nil => exact List.Sublist.slnil
  | cons e r ih =>
    rw [taken]
    split
    · exact (ih t).cons e
    · exact (ih (t.offer e)).cons_cons e

theorem taken_cons_ne {e : Text × Text} (h : (t.get? e.1).isSome = true) (r : List (Text × Text)) :
    t.taken (e :: r) ≠ e :: r := by
  intro heq
  have hle := (taken_sublist t r).length_le
  rw [← taken_cons_of_isSome h, heq, List.length_cons] at hle
  omega

/-- A table takes everything if the surfaces are new to it and all different. -/
theorem taken_eq_self_iff {l : List (Text × Text)} : t.taken l = l ↔
    (∀ e ∈ l, t.get? e.1 = none) ∧ (l.map fun e => t.fold e.1).Nodup := by
  induction l generalizing t with
  | nil => simp [taken]
  | cons e r ih =>
    cases hnew : t.get? e.1 with
    | none =>
      -- The surfaces that are new after it are those that were new and differ from it.
      have hrest (x : Text) : (t.offer e).get? x = none ↔
          t.get? x = none ∧ t.fold x ≠ t.fold e.1 := by
        rw [get?_offer]
        by_cases hx : t.fold x = t.fold e.1 <;> simp [hx]
      rw [taken_cons_of_eq_none hnew, List.cons.injEq, and_iff_right rfl, ih, fold_offer]
      simp only [hrest, List.forall_mem_cons, hnew, List.map_cons, List.nodup_cons, List.mem_map]
      grind
    | some c =>
      have hrefused : (t.get? e.1).isSome = true := Option.isSome_iff_exists.mpr ⟨c, hnew⟩
      exact iff_of_false (taken_cons_ne hrefused r) fun h => by simp [hnew] at h

/-- A table without entries takes everything if the surfaces are all different. -/
theorem taken_eq_self {l : List (Text × Text)} (hempty : t.entries = [])
    (h : (l.map fun e => t.fold e.1).Nodup) : t.taken l = l :=
  taken_eq_self_iff.mpr ⟨fun e _ => by rw [get?, hempty, entryValue?], h⟩

theorem get?_offerAll_of_nodup {l : List (Text × Text)} (hempty : t.entries = [])
    (h : (l.map fun e => t.fold e.1).Nodup) (x : Text) :
    (t.offerAll l).get? x = entryValue? (t.fold x) (l.map t.folded) := by
  rw [get?, fold_offerAll, offerAll_eq, taken_eq_self hempty h, hempty, List.nil_append]

/-! ## Declarations -/

/-- The entries of items, without those whose surface is blank. -/
def entriesOf (items : List Element) : List (Text × Text) :=
  (items.map itemEntry).filter fun e => !e.1.isEmpty

/-- The items of an element. -/
def itemsOf (e : Element) : List Element := e.elements.filter fun c => c.name == ("item" : Text)

/-- Reading items succeeds if the table takes the entries of all of them. -/
theorem foldlM_insertItem_eq_ok {items : List Element} : items.foldlM insertItem t = .ok t' ↔
    t.taken (entriesOf items) = entriesOf items ∧ t.offerAll (entriesOf items) = t' := by
  induction items generalizing t with
  | nil => simp [entriesOf, offerAll, taken]
  | cons item r ih =>
    rw [List.foldlM_cons, Except.bind_eq_ok]
    by_cases hblank : (itemEntry item).1.isEmpty = true
    · -- An item without a surface leaves everything as it is.
      have hentries : entriesOf (item :: r) = entriesOf r := by simp [entriesOf, hblank]
      simp [insertItem, hblank, hentries, ih]
    · have hentries : entriesOf (item :: r) = itemEntry item :: entriesOf r := by
        simp [entriesOf, hblank]
      have hinsert : insertItem t item = t.insert (itemEntry item).1 (itemEntry item).2 := by
        simp [insertItem, hblank]
      rw [hentries, hinsert]
      cases hnew : t.get? (itemEntry item).1 with
      | none =>
        simp [insert_of_eq_none hnew, taken_cons_of_eq_none hnew, offerAll_cons, ih]
      | some c =>
        have hrefused : (t.get? (itemEntry item).1).isSome = true :=
          Option.isSome_iff_exists.mpr ⟨c, hnew⟩
        simp [insert_of_isSome hrefused, taken_cons_ne hrefused]

section Declaration

variable {e : Element} {caseSensitive : Bool} {header : Header} {flag : Option Bool}

/-- A declaration whose header and flag are right is a table if no two of its items have one
    surface. -/
theorem ofElement?_eq_ok (hheader : e.header? = .ok header)
    (hflag : e.flag? header.id "case_sensitive" = .ok flag) :
    ofElement? e caseSensitive = .ok t ↔
      ((entriesOf (itemsOf e)).map fun x =>
        fold ⟨header, flag.getD caseSensitive, []⟩ x.1).Nodup ∧
      offerAll ⟨header, flag.getD caseSensitive, []⟩ (entriesOf (itemsOf e)) = t := by
  have hread : ofElement? e caseSensitive =
      (itemsOf e).foldlM insertItem ⟨header, flag.getD caseSensitive, []⟩ := by
    rw [ofElement?, hheader]
    show (e.flag? header.id "case_sensitive" >>= _) = _
    rw [hflag]
    rfl
  have hnew : ∀ x ∈ entriesOf (itemsOf e),
      get? ⟨header, flag.getD caseSensitive, []⟩ x.1 = none := fun _ _ => rfl
  rw [hread, foldlM_insertItem_eq_ok, taken_eq_self_iff, and_iff_right hnew]

/-- The order of the items does not matter. -/
theorem exists_ofElement?_of_perm (hheader : e.header? = .ok header)
    (hflag : e.flag? header.id "case_sensitive" = .ok flag) {children : List Node}
    (hperm : (itemsOf { e with children := children }).Perm (itemsOf e))
    (h : ofElement? e caseSensitive = .ok t) :
    ∃ t', ofElement? { e with children := children } caseSensitive = .ok t' ∧
      (∀ x, t'.normalize x = t.normalize x) ∧ t'.size = t.size := by
  have hheader' : Element.header? { e with children := children } = .ok header := hheader
  have hflag' : Element.flag? { e with children := children } header.id "case_sensitive" =
      .ok flag := hflag
  obtain ⟨hnodup, rfl⟩ := (ofElement?_eq_ok hheader hflag).mp h
  have hentries : (entriesOf (itemsOf { e with children := children })).Perm
      (entriesOf (itemsOf e)) := (hperm.map itemEntry).filter _
  generalize hempty : NormalizationTable.mk header (flag.getD caseSensitive) [] = empty at hnodup ⊢
  have hnodup' := ((hentries.map fun x => empty.fold x.1).nodup_iff).mpr hnodup
  refine ⟨_, (ofElement?_eq_ok hheader' hflag').mpr ⟨hempty ▸ hnodup', rfl⟩, fun x => ?_, ?_⟩
  all_goals rw [hempty]
  · have hkeys : ((((entriesOf (itemsOf e)).map empty.folded)).map Prod.fst).Nodup := by
      rwa [List.map_map]
    rw [normalize, normalize, get?_offerAll_of_nodup (hempty ▸ rfl) hnodup,
      get?_offerAll_of_nodup (hempty ▸ rfl) hnodup',
      entryValue?_perm (hentries.symm.map empty.folded) hkeys]
  · rw [size_offerAll, size_offerAll, taken_eq_self (hempty ▸ rfl) hnodup,
      taken_eq_self (hempty ▸ rfl) hnodup', hentries.length_eq]

/-- A declared table has the header of its element. -/
theorem header_of_ofElement? (h : ofElement? e caseSensitive = .ok t) : e.header? = .ok t.header := by
  have hread := h
  rw [ofElement?] at hread
  obtain ⟨header, hheader, hread⟩ := Except.bind_eq_ok.mp hread
  obtain ⟨flag, hflag, -⟩ := Except.bind_eq_ok.mp hread
  obtain ⟨-, rfl⟩ := (ofElement?_eq_ok hheader hflag).mp h
  rw [hheader, offerAll_eq]

end Declaration

/-- A table is the map of the entries that it has taken. Of those that are offered for one surface it
    takes the first and refuses the others, which changes nothing. A declaration is a table if no
    two of its items have one surface, and then the order of the items does not matter. -/
theorem lookups_of_entries :
    (∀ (t : NormalizationTable) (l : List (Text × Text)),
      (∀ x, (t.offerAll l).normalize x =
        ((t.get? x).or ((l.find? fun e => t.fold x == t.fold e.1).map Prod.snd)).getD x) ∧
      (t.offerAll l).size = t.size + (t.taken l).length ∧
      ∀ surface canonical,
        ((∃ err, (t.offerAll l).insert surface canonical = .error err) ↔
          (t.get? surface).isSome = true ∨ ∃ e ∈ t.taken l, t.fold e.1 = t.fold surface) ∧
        ((t.offerAll l).insert surface canonical = .ok (t.offerAll (l ++ [(surface, canonical)])) ∨
          (t.offerAll l).insert surface canonical = .error (.duplicateEntry t.id surface) ∧
            t.offerAll (l ++ [(surface, canonical)]) = t.offerAll l)) ∧
    ∀ (e : Element) (caseSensitive : Bool) (header : Header) (flag : Option Bool),
      e.header? = .ok header → e.flag? header.id "case_sensitive" = .ok flag →
      ((∃ t, ofElement? e caseSensitive = .ok t) ↔
        ((entriesOf (itemsOf e)).map fun x =>
          fold ⟨header, flag.getD caseSensitive, []⟩ x.1).Nodup) ∧
      ∀ children, (itemsOf { e with children := children }).Perm (itemsOf e) →
        ∀ t, ofElement? e caseSensitive = .ok t →
          ∃ t', ofElement? { e with children := children } caseSensitive = .ok t' ∧
            (∀ x, t'.normalize x = t.normalize x) ∧ t'.size = t.size := by
  constructor
  · intro t l
    refine ⟨fun x => ?_, size_offerAll t l, fun surface canonical => ⟨?_, ?_⟩⟩
    · rw [normalize, get?_offerAll]
    · rw [← isSome_get?_offerAll]
      simp only [insert_eq_error, exists_and_left, exists_eq, and_true]
    · have hlast : t.offerAll (l ++ [(surface, canonical)]) =
          (t.offerAll l).offer (surface, canonical) := List.foldl_concat ..
      have hid : (t.offerAll l).id = t.id := by
        rw [offerAll_eq]
        rfl
      rw [hlast, ← hid]
      cases h : (t.offerAll l).get? surface with
      | none => exact .inl (insert_of_eq_none (e := (surface, canonical)) h)
      | some c =>
        have hknown : ((t.offerAll l).get? surface).isSome = true :=
          Option.isSome_iff_exists.mpr ⟨c, h⟩
        exact .inr ⟨insert_of_isSome hknown canonical, offer_of_isSome hknown⟩
  · intro e caseSensitive header flag hheader hflag
    refine ⟨?_, fun children hperm t ht => exists_ofElement?_of_perm hheader hflag hperm ht⟩
    simp only [ofElement?_eq_ok hheader hflag, exists_and_left, exists_eq', and_true]

/-- Of two offers for noon the first one counts. In a declaration noon can stand before midnight or
    after it. -/
theorem lookups_of_entries_noon :
    let noon : Node := .element "item" .empty
      [.text "No", .element "normalized" .empty [.text " 12:00"], .text "on "]
    let midnight : Node := .element "item" .empty [.text " midnight"]
    (((new "clock" false).offerAll [("Noon", "12:00"), ("NOON", "0:00")]).normalize "nOOn" = "12:00" ∧
      ∃ err, ((new "clock" false).offerAll [("Noon", "12:00"), ("NOON", "0:00")]).insert "nooN" "" =
        .error err) ∧
    ∃ t, ofElement? ⟨"normalization_rule", .ofList [("id", "clock")], [midnight, noon]⟩ false =
        .ok t ∧ t.normalize "NOON" = "12:00" ∧ t.normalize "Dusk" = "Dusk" ∧ t.size = 2 := by
  intro noon midnight
  obtain ⟨hoffers, hitems⟩ := lookups_of_entries
  constructor
  · obtain ⟨hlookups, -, hrefused⟩ :=
      hoffers (new "clock" false) [("Noon", "12:00"), ("NOON", "0:00")]
    refine ⟨?_, (hrefused "nooN" "").1.mpr (.inr ⟨("Noon", "12:00"), ?_, ?_⟩)⟩
    · rw [hlookups]
      decide +kernel
    · decide +kernel
    · decide +kernel
  · let clock : NormalizationTable :=
      ⟨⟨"clock", .exposed⟩, false, [("noon", "12:00"), ("midnight", "midnight")]⟩
    obtain ⟨-, hreorder⟩ := hitems
      ⟨"normalization_rule", .ofList [("id", "clock")], [noon, midnight]⟩ false ⟨"clock", .exposed⟩
      none (by decide +kernel) (by decide +kernel)
    obtain ⟨t, ht, hlookups, hsize⟩ := hreorder [midnight, noon] (List.Perm.swap ..) clock
      (by decide +kernel)
    refine ⟨t, ht, ?_, ?_, hsize⟩
    · rw [hlookups]
      decide +kernel
    · rw [hlookups]
      decide +kernel

end NormalizationTable

end TimePhrase
