import TimePhrase.Proofs.Document.CharacterData

/-!
# Content

Content is read item by item. What can be an item is told once, so that nobody has to look into the
reader, and from that it follows that content is read in the same way in a longer text, and with more
fuel.

* `ReadsItem`  the ways in which an item is read
* `readItems_succ`  content is empty, or an item comes first
* `readItems_mono`, `readItems_unique`  more fuel does no harm
* `readItems_append`  content that ends at an end tag
-/

namespace TimePhrase.Document

variable {fuel : Nat} {scopes : Scopes} {s r z : Text} {items : List Item}

/-! ## One item -/

/-- Where character data ends. -/
abbrev isData (c : Char) : Bool := c != '<'

/-- An item at the beginning of a text, and the rest after it. `fuel` is for the items inside. -/
inductive ReadsItem (fuel : Nat) (scopes : Scopes) : Text → Item → Text → Prop
  | comment {s r : Text} (h : skipComment s = some r) :
      ReadsItem fuel scopes ('<' :: '!' :: ("--" ++ s)) .aside r
  | instruction {s r : Text} (h : skipInstruction s = some r) :
      ReadsItem fuel scopes ('<' :: '?' :: s) .aside r
  | section {s body t r : Text} (h : s.breakOn? "]]>" = some (body, r))
      (ht : sectionText? body = some t) :
      ReadsItem fuel scopes ('<' :: '!' :: ("[CDATA[" ++ s)) (.text t) r
  | empty {tag : StartTag} {s r : Text} (h : readStartTag scopes s = some (tag, r))
      (hend : tag.ending = .closed) :
      ReadsItem fuel scopes ('<' :: s) (.element ⟨tag.name.localPart, tag.attributes, []⟩) r
  | element {tag : StartTag} {s r r' rest : Text} {items : List Item}
      (h : readStartTag scopes s = some (tag, r)) (hend : tag.ending = .opened)
      (hitems : readItems fuel tag.scopes r = some (items, '<' :: '/' :: r'))
      (hclose : readEndTag tag.name r' = some rest) :
      ReadsItem fuel scopes ('<' :: s)
        (.element ⟨tag.name.localPart, tag.attributes, nodesOf items⟩) rest
  | text {s t : Text} (hne : s.takeWhile isData ≠ []) (h : text? (s.takeWhile isData) = some t) :
      ReadsItem fuel scopes s (.text t) (s.dropWhile isData)

theorem StartTag.not_closed {tag : StartTag} (h : tag.ending = .opened) : ¬ tag.ending = .closed := by
  rw [h]
  decide

theorem closeElement_eq_some {tag : StartTag} {content : Option (List Item × Text)} {e : Element} :
    closeElement tag content = some (e, r) ↔ ∃ items r', content = some (items, '<' :: '/' :: r') ∧
      readEndTag tag.name r' = some r ∧ e = ⟨tag.name.localPart, tag.attributes, nodesOf items⟩ := by
  unfold closeElement
  constructor
  · intro h
    split at h
    · rename_i items r'
      obtain ⟨rest, hclose, heq⟩ := Option.map_eq_some_iff.mp h
      obtain ⟨rfl, rfl⟩ := Prod.mk.inj heq
      exact ⟨items, r', rfl, hclose, rfl⟩
    · exact nomatch h
  · rintro ⟨items, r', rfl, hclose, rfl⟩
    simp only [hclose, Option.map_some]

/-- What begins a tag does not begin anything else. -/
theorem readItems_tag {tag : StartTag} (h : readStartTag scopes s = some (tag, r)) :
    readItems (fuel + 1) scopes ('<' :: s) =
      (if tag.ending = .closed then some (⟨tag.name.localPart, tag.attributes, []⟩, r)
        else closeElement tag (readItems fuel tag.scopes r)).bind fun p =>
          (readItems fuel scopes p.2).map fun q => (.element p.1 :: q.1, q.2) := by
  obtain ⟨c, t, rfl, hc⟩ := exists_of_readStartTag h
  have hno {d : Char} (hd : isNameChar d = false) : c ≠ d := by
    rintro rfl
    rw [hc] at hd
    exact nomatch hd
  rw [readItems.eq_def]
  simp only
  split
  · rename_i heq
    exact nomatch heq
  · rename_i heq
    exact absurd (List.cons.inj (List.cons.inj heq).2).1 (hno (by decide))
  · rename_i heq
    exact absurd (List.cons.inj (List.cons.inj heq).2).1 (hno (by decide))
  · rename_i heq
    exact absurd (List.cons.inj (List.cons.inj heq).2).1 (hno (by decide))
  · rename_i heq
    obtain ⟨-, rfl⟩ := List.cons.inj heq
    rw [h]
  · rename_i hnot
    exact absurd rfl (hnot (c :: t))

/-- What is read after an item is put after it. -/
theorem exists_of_map_cons {item : Item} {content : Option (List Item × Text)}
    (h : content.map (fun p => (item :: p.1, p.2)) = some (items, r)) :
    ∃ items', content = some (items', r) ∧ items = item :: items' := by
  obtain ⟨⟨items', r'⟩, hcontent, heq⟩ := Option.map_eq_some_iff.mp h
  obtain ⟨rfl, rfl⟩ := Prod.mk.inj heq
  exact ⟨items', hcontent, rfl⟩

/-- After the tag of an open element there is its content, its end tag and more content. -/
theorem exists_of_readItems_tag {tag : StartTag} {rest : Text}
    (h : readStartTag scopes s = some (tag, r)) (hopened : tag.ending = .opened)
    (hitems : readItems fuel scopes ('<' :: s) = some (items, rest)) :
    ∃ k inner r' after more, readItems k tag.scopes r = some (inner, '<' :: '/' :: r') ∧
      readEndTag tag.name r' = some after ∧ readItems k scopes after = some (more, rest) ∧
      items = .element ⟨tag.name.localPart, tag.attributes, nodesOf inner⟩ :: more := by
  cases fuel with
  | zero => exact nomatch hitems
  | succ k =>
    rw [readItems_tag h, if_neg (StartTag.not_closed hopened)] at hitems
    obtain ⟨⟨e, after⟩, helement, hitems⟩ := Option.bind_eq_some_iff.mp hitems
    obtain ⟨inner, r', hinner, hclose, rfl⟩ := closeElement_eq_some.mp helement
    obtain ⟨more, hmore, rfl⟩ := exists_of_map_cons hitems
    exact ⟨k, inner, r', after, more, hinner, hclose, hmore, rfl⟩

/-- After an item the content goes on. -/
theorem readItems_of_readsItem {item : Item} {more : Option (List Item × Text)}
    (h : ReadsItem fuel scopes s item r) (hmore : readItems fuel scopes r = more) :
    readItems (fuel + 1) scopes s = more.map fun p => (item :: p.1, p.2) := by
  cases h with
  | comment h =>
    unfold readItems
    simp only [Text.after?_append, h, Option.bind_some, hmore]
  | instruction h =>
    unfold readItems
    simp only [h, Option.bind_some, hmore]
  | @«section» s body t r h ht =>
    unfold readItems
    have hno : Text.after? ("[CDATA[" ++ s) "--" = none := rfl
    simp only [hno, Text.after?_append, h, ht, Option.bind_some, hmore]
  | empty h hend =>
    rw [readItems_tag h, if_pos hend, Option.bind_some, hmore]
  | element h hend hitems hclose =>
    rw [readItems_tag h, if_neg (StartTag.not_closed hend),
      closeElement_eq_some.mpr ⟨_, _, hitems, hclose, rfl⟩, Option.bind_some, hmore]
  | text hne h =>
    rw [readItems.eq_def]
    simp only
    split
    · exact absurd rfl hne
    · exact absurd rfl hne
    · exact absurd rfl hne
    · exact absurd rfl hne
    · exact absurd rfl hne
    · rw [h, Option.bind_some, hmore]

/-- What is read to the end and does not begin with a tag is nothing but character data. -/
theorem ReadsItem.isData_of_mem {item : Item} (h : ReadsItem fuel scopes s item r) (hr : r = [])
    (hs : s.head? ≠ some '<') : s ≠ [] ∧ ∀ c ∈ s, isData c = true := by
  cases h with
  | text hne ht =>
    refine ⟨?_, List.dropWhile_eq_nil_iff.mp hr⟩
    rintro rfl
    exact hne rfl
  | _ => exact absurd rfl hs

theorem readItems_nil : readItems (fuel + 1) scopes [] = some ([], []) := by
  unfold readItems
  rfl

theorem readItems_endTag :
    readItems (fuel + 1) scopes ('<' :: '/' :: s) = some ([], '<' :: '/' :: s) := by
  unfold readItems
  rfl

/-- The element at a tag is closed at once or by its end tag. -/
theorem readsItem_of_readStartTag {tag : StartTag} {rest : Text} {e : Element}
    (h : readStartTag scopes s = some (tag, r))
    (helement : (if tag.ending = .closed then some (⟨tag.name.localPart, tag.attributes, []⟩, r)
      else closeElement tag (readItems fuel tag.scopes r)) = some (e, rest)) :
    ReadsItem fuel scopes ('<' :: s) (.element e) rest := by
  cases hend : tag.ending with
  | closed =>
    rw [if_pos hend] at helement
    obtain ⟨rfl, rfl⟩ := Prod.mk.inj (Option.some.inj helement)
    exact .empty h hend
  | opened =>
    rw [if_neg (StartTag.not_closed hend)] at helement
    obtain ⟨inner, r', hinner, hclose, rfl⟩ := closeElement_eq_some.mp helement
    exact .element h hend hinner hclose

/-- Content is over at the end of the text or at an end tag, or an item comes first. -/
theorem readItems_succ (h : readItems (fuel + 1) scopes s = some (items, r)) :
    (s = [] ∧ items = [] ∧ r = []) ∨ (∃ t, s = '<' :: '/' :: t ∧ items = [] ∧ r = s) ∨
      ∃ item s' items', ReadsItem fuel scopes s item s' ∧
        readItems fuel scopes s' = some (items', r) ∧ items = item :: items' := by
  unfold readItems at h
  simp only at h
  split at h
  · obtain ⟨rfl, rfl⟩ := Prod.mk.inj (Option.some.inj h)
    exact .inl ⟨rfl, rfl, rfl⟩
  · rename_i t
    obtain ⟨rfl, rfl⟩ := Prod.mk.inj (Option.some.inj h)
    exact .inr (.inl ⟨t, rfl, rfl, rfl⟩)
  · rename_i t
    split at h
    · rename_i t' hcomment
      obtain ⟨s', hskip, h⟩ := Option.bind_eq_some_iff.mp h
      rw [Text.eq_append_of_after? hcomment]
      exact .inr (.inr ⟨.aside, s', (exists_of_map_cons h).imp fun _ => .intro (.comment hskip)⟩)
    · split at h
      · rename_i body rest hsection
        obtain ⟨t', hopen, hbreak⟩ := Option.bind_eq_some_iff.mp hsection
        obtain ⟨content, hcontent, h⟩ := Option.bind_eq_some_iff.mp h
        rw [Text.eq_append_of_after? hopen]
        exact .inr (.inr ⟨.text content, rest,
          (exists_of_map_cons h).imp fun _ => .intro (.section hbreak hcontent)⟩)
      · exact nomatch h
  · obtain ⟨s', hskip, h⟩ := Option.bind_eq_some_iff.mp h
    exact .inr (.inr ⟨.aside, s', (exists_of_map_cons h).imp fun _ => .intro (.instruction hskip)⟩)
  · split at h
    · exact nomatch h
    · rename_i tag rest htag
      obtain ⟨⟨e, s'⟩, helement, h⟩ := Option.bind_eq_some_iff.mp h
      exact .inr (.inr ⟨.element e, s',
        (exists_of_map_cons h).imp fun _ => .intro (readsItem_of_readStartTag htag helement)⟩)
  · rename_i hne _ _ _ hdata
    obtain ⟨t, ht, h⟩ := Option.bind_eq_some_iff.mp h
    have hsome : s.takeWhile isData ≠ [] := by
      cases s with
      | nil => exact absurd rfl hne
      | cons c s =>
        have hc : isData c = true := bne_iff_ne.mpr fun hc => hdata s (hc ▸ rfl)
        rw [List.takeWhile_cons_of_pos hc]
        exact List.cons_ne_nil _ _
    exact .inr (.inr ⟨.text t, s.dropWhile isData,
      (exists_of_map_cons h).imp fun _ => .intro (.text hsome ht)⟩)

/-! ## More fuel -/

theorem readItems_mono_succ (h : readItems fuel scopes s = some (items, r)) :
    readItems (fuel + 1) scopes s = some (items, r) := by
  induction fuel generalizing scopes s items r with
  | zero => exact nomatch h
  | succ fuel ih =>
    rcases readItems_succ h with
      ⟨rfl, rfl, rfl⟩ | ⟨t, rfl, rfl, rfl⟩ | ⟨item, s', items', hitem, hs', rfl⟩
    · exact readItems_nil
    · exact readItems_endTag
    · have hmore : ReadsItem (fuel + 1) scopes s item s' := by
        cases hitem with
        | comment hskip => exact .comment hskip
        | instruction hskip => exact .instruction hskip
        | «section» hbreak ht => exact .section hbreak ht
        | empty htag hend => exact .empty htag hend
        | element htag hend hitems hclose => exact .element htag hend (ih hitems) hclose
        | text hne ht => exact .text hne ht
      rw [readItems_of_readsItem hmore (ih hs')]
      rfl

/-- More fuel does no harm. -/
theorem readItems_mono {fuel' : Nat} (h : readItems fuel scopes s = some (items, r))
    (hle : fuel ≤ fuel') : readItems fuel' scopes s = some (items, r) := by
  induction hle with
  | refl => exact h
  | step _ ih => exact readItems_mono_succ ih

/-- What is read does not depend on how much more fuel there is than enough. -/
theorem readItems_unique {fuel' : Nat} {p p' : List Item × Text}
    (h : readItems fuel scopes s = some p) (h' : readItems fuel' scopes s = some p') : p' = p := by
  have hmore := readItems_mono h (Nat.le_max_left fuel fuel')
  have hmore' := readItems_mono h' (Nat.le_max_right fuel fuel')
  exact Option.some.inj (hmore'.symm.trans hmore)

/-! ## Longer texts -/

/-- An item is read in a longer text if the items inside of it are, unless it is character data that
    goes on to the end. -/
theorem ReadsItem.append_of {item : Item}
    (hinner : ∀ {scopes : Scopes} {s r : Text} {items : List Item},
      readItems fuel scopes s = some (items, r) → r ≠ [] →
        readItems fuel scopes (s ++ z) = some (items, r ++ z))
    (h : ReadsItem fuel scopes s item r) (hr : r = [] → s.head? = some '<') :
    ReadsItem fuel scopes (s ++ z) item (r ++ z) := by
  cases h with
  | @comment s r h =>
    show ReadsItem fuel scopes ('<' :: '!' :: ("--" ++ s ++ z)) _ _
    rw [List.append_assoc]
    exact .comment (skipComment_append h z)
  | instruction h => exact .instruction (skipInstruction_append h z)
  | @«section» s body t r h ht =>
    show ReadsItem fuel scopes ('<' :: '!' :: ("[CDATA[" ++ s ++ z)) _ _
    rw [List.append_assoc]
    exact .section (Text.breakOn?_append h z) ht
  | empty h hend => exact .empty (readStartTag_append h z) hend
  | element h hend hitems hclose =>
    exact .element (readStartTag_append h z) hend (hinner hitems (List.cons_ne_nil _ _))
      (readEndTag_append hclose z)
  | text hne h =>
    cases hrest : s.dropWhile isData with
    | nil =>
      cases s with
      | nil => exact absurd rfl hne
      | cons c s =>
        obtain rfl := Option.some.inj (hr hrest)
        exact absurd rfl hne
    | cons c r =>
      have htake := Text.takeWhile_append_of_dropWhile_eq_cons hrest z
      rw [List.cons_append, ← Text.dropWhile_append_of_eq_cons hrest z]
      refine .text ?_ ?_
      · rwa [htake]
      · rwa [htake]

/-- Content that ends before the end of a text is read in a longer text. -/
theorem readItems_append (h : readItems fuel scopes s = some (items, r)) (hr : r ≠ []) (z : Text) :
    readItems fuel scopes (s ++ z) = some (items, r ++ z) := by
  induction fuel generalizing scopes s items r with
  | zero => exact nomatch h
  | succ fuel ih =>
    rcases readItems_succ h with
      ⟨rfl, rfl, rfl⟩ | ⟨t, rfl, rfl, rfl⟩ | ⟨item, s', items', hitem, hs', rfl⟩
    · exact absurd rfl hr
    · exact readItems_endTag
    · have hs : s' ≠ [] := by
        rintro rfl
        cases fuel with
        | zero => exact nomatch hs'
        | succ fuel =>
          rw [readItems_nil] at hs'
          exact hr (Prod.mk.inj (Option.some.inj hs')).2.symm
      have hmore := hitem.append_of ih (z := z) fun hnil => absurd hnil hs
      rw [readItems_of_readsItem hmore (ih hs' hr)]
      rfl

theorem ReadsItem.append {item : Item} (h : ReadsItem fuel scopes s item r)
    (hr : r = [] → s.head? = some '<') (z : Text) :
    ReadsItem fuel scopes (s ++ z) item (r ++ z) :=
  h.append_of (fun hitems hne => readItems_append hitems hne z) hr

/-! ## What is left -/

theorem ReadsItem.suffix_of {item : Item}
    (hinner : ∀ {scopes : Scopes} {s r : Text} {items : List Item},
      readItems fuel scopes s = some (items, r) → r <:+ s)
    (h : ReadsItem fuel scopes s item r) : r <:+ s := by
  cases h with
  | @comment s r h =>
    exact (suffix_of_skipComment h).trans
      ((List.suffix_append _ s).trans ((List.suffix_cons '!' _).trans (List.suffix_cons '<' _)))
  | instruction h =>
    exact (suffix_of_skipInstruction h).trans
      ((List.suffix_cons '?' _).trans (List.suffix_cons '<' _))
  | @«section» s body t r h ht =>
    exact (suffix_of_breakOn? h).trans
      ((List.suffix_append _ s).trans ((List.suffix_cons '!' _).trans (List.suffix_cons '<' _)))
  | empty h hend => exact (suffix_of_readStartTag h).trans (List.suffix_cons '<' _)
  | @element tag s t r' rest items h hend hitems hclose =>
    have hinside : r' <:+ t :=
      (((List.suffix_cons '/' r').trans (List.suffix_cons '<' _))).trans (hinner hitems)
    exact ((suffix_of_readEndTag hclose).trans hinside).trans
      ((suffix_of_readStartTag h).trans (List.suffix_cons '<' _))
  | text hne h => exact List.dropWhile_suffix _

theorem suffix_of_readItems (h : readItems fuel scopes s = some (items, r)) : r <:+ s := by
  induction fuel generalizing scopes s items r with
  | zero => exact nomatch h
  | succ fuel ih =>
    rcases readItems_succ h with
      ⟨rfl, rfl, rfl⟩ | ⟨t, rfl, rfl, rfl⟩ | ⟨item, s', items', hitem, hs', rfl⟩
    · exact List.suffix_rfl
    · exact List.suffix_rfl
    · exact (ih hs').trans (hitem.suffix_of ih)

theorem ReadsItem.suffix {item : Item} (h : ReadsItem fuel scopes s item r) : r <:+ s :=
  h.suffix_of suffix_of_readItems

end TimePhrase.Document
