import TimePhrase.Proofs.Document.Content
import TimePhrase.Proofs.Document.Prolog
import TimePhrase.Proofs.Document.Severed

/-!
# Documents without one of their comments

A comment or an instruction in the content of an element is dropped, but it ends a run of text.
Without it the document has the same elements with the same text, where the two runs next to it are
one.

* `IsAside`, `ReachesContent`  a comment or an instruction, and where it stands in a document
* `exists_of_readItems_append`  content in two parts
* `sameButRun_of_readItems`  content without one of its comments
* `sameButRun_of_read?`  documents without one of their comments
-/

namespace TimePhrase.Document

variable {fuel : Nat} {scopes : Scopes} {u v a : Text} {items items' xs ys : List Item} {r : Text}

/-! ## Comments and the places where they stand -/

/-- A comment or an instruction as a whole. -/
def IsAside (a : Text) : Prop :=
  (∃ s, a = "<!--" ++ s ∧ skipComment s = some []) ∨ ∃ s, a = "<?" ++ s ∧ skipInstruction s = some []

/-- A text is content as a whole: items, one after the other. -/
def IsContent (scopes : Scopes) (s : Text) (items : List Item) : Prop :=
  ∃ fuel, readItems fuel scopes s = some (items, [])

/-- A text is content up to a place where one more item could stand, in elements that are still
    open. -/
inductive Reaches : Scopes → Text → Prop
  | here {scopes : Scopes} {s : Text} {items : List Item} (h : IsContent scopes s items) :
      Reaches scopes s
  | inside {scopes : Scopes} {s t u : Text} {items : List Item} {tag : StartTag}
      (h : IsContent scopes s items) (htag : readStartTag scopes t = some (tag, []))
      (hopened : tag.ending = .opened) (hu : Reaches tag.scopes u) :
      Reaches scopes (s ++ '<' :: (t ++ u))

/-- A text is a document up to a place where an item could stand in the content of an element. -/
def ReachesContent (d : Text) : Prop :=
  ∃ s t u tag, d = s ++ '<' :: (t ++ u) ∧ skipProlog (s ++ '<' :: t) = some ('<' :: t) ∧
    readStartTag [] t = some (tag, []) ∧ tag.ending = .opened ∧ Reaches tag.scopes u

/-- Whether no line end is cut where one text follows another: the first one does not end in a
    carriage return that is followed by character data, and the second one does not begin with a
    single carriage return as character data. -/
def KeepsLineEnds (u v : Text) : Prop :=
  (u.getLast? = some '\r' → v.takeWhile isData = []) ∧ v.takeWhile isData ≠ ['\r']

theorem KeepsLineEnds.of_suffix {t : Text} (h : KeepsLineEnds u v) (ht : t <:+ u) :
    KeepsLineEnds t v :=
  ⟨fun hlast => h.1 (getLast?_of_suffix ht hlast), h.2⟩

theorem keepsLineEnds_of_tag (u v : Text) : KeepsLineEnds u ('<' :: v) :=
  ⟨fun _ => rfl, nofun⟩

theorem IsAside.exists_cons (ha : IsAside a) : ∃ t, a = '<' :: t := by
  rcases ha with ⟨s, rfl, -⟩ | ⟨s, rfl, -⟩
  · exact ⟨_, rfl⟩
  · exact ⟨_, rfl⟩

/-- It is an item of its own. -/
theorem IsAside.readsItem (ha : IsAside a) (fuel : Nat) (scopes : Scopes) (v : Text) :
    ReadsItem fuel scopes (a ++ v) .aside v := by
  rcases ha with ⟨s, rfl, hs⟩ | ⟨s, rfl, hs⟩
  · rw [List.append_assoc]
    exact .comment (skipComment_append hs v)
  · rw [List.append_assoc]
    exact .instruction (skipInstruction_append hs v)

/-- After it the content goes on. -/
theorem IsAside.exists_of_readItems (ha : IsAside a)
    (h : readItems fuel scopes (a ++ v) = some (items, r)) :
    ∃ k items', readItems k scopes v = some (items', r) ∧ items = .aside :: items' := by
  cases fuel with
  | zero => exact nomatch h
  | succ k =>
    rw [readItems_of_readsItem (ha.readsItem k scopes v) rfl] at h
    exact ⟨k, exists_of_map_cons h⟩

/-! ## Content in two parts -/

/-- The items of two parts of content, where a text at the end of the first part and one at the
    beginning of the second part may have become one. -/
inductive Joins : List Item → List Item → List Item → Prop
  | apart (xs ys : List Item) : Joins xs ys (xs ++ ys)
  | merged (xs : List Item) (t t' : Text) (ys : List Item) :
      Joins (xs ++ [.text t]) (.text t' :: ys) (xs ++ .text (t ++ t') :: ys)

theorem Joins.cons (i : Item) (h : Joins xs ys items) : Joins (i :: xs) ys (i :: items) := by
  cases h with
  | apart ys => exact .apart (i :: xs) ys
  | merged xs t t' ys => exact .merged (i :: xs) t t' ys

/-- Whether the first item is a text. -/
def startsWithText : List Item → Bool
  | .text _ :: _ => true
  | _ => false

theorem startsWithText_append (i : Item) (xs ys : List Item) :
    startsWithText (i :: xs ++ ys) = startsWithText (i :: xs) := by
  cases i <;> rfl

/-- Nothing but text is merged. -/
theorem Joins.eq_append (h : Joins xs ys items) (hys : startsWithText ys = false) :
    items = xs ++ ys := by
  cases h with
  | apart => rfl
  | merged => exact nomatch hys

/-- Character data at the beginning of content. -/
theorem readItems_text (hne : u.takeWhile isData ≠ [])
    (h : readItems (fuel + 1) scopes u = some (items, r)) :
    ∃ t items', text? (u.takeWhile isData) = some t ∧
      readItems fuel scopes (u.dropWhile isData) = some (items', r) ∧ items = .text t :: items' := by
  rcases readItems_succ h with ⟨rfl, -⟩ | ⟨t, rfl, -⟩ | ⟨i, u', items', hi, hu', rfl⟩
  · exact absurd rfl hne
  · exact absurd rfl hne
  · cases hi with
    | text _ ht => exact ⟨_, items', ht, hu', rfl⟩
    | _ => exact absurd rfl hne

/-- Character data with content after it. -/
theorem exists_of_readItems_data (hne : u ≠ []) (hall : ∀ c ∈ u, isData c = true)
    (hu : readItems (fuel + 1) scopes u = some (xs, []))
    (h : readItems (fuel + 1) scopes (u ++ v) = some (items, r)) (hline : KeepsLineEnds u v) :
    ∃ ys, readItems (fuel + 1) scopes v = some (ys, r) ∧ Joins xs ys items := by
  have htake : u.takeWhile isData = u := List.takeWhile_eq_self_iff.mpr hall
  have hdrop : u.dropWhile isData = [] := List.dropWhile_eq_nil_iff.mpr hall
  obtain ⟨t, xs', ht, hxs, rfl⟩ := readItems_text (htake.symm ▸ hne) hu
  rw [htake] at ht
  rw [hdrop] at hxs
  obtain rfl : xs' = [] := by
    cases fuel with
    | zero => exact nomatch hxs
    | succ fuel =>
      rw [readItems_nil] at hxs
      exact (Prod.mk.inj (Option.some.inj hxs)).1.symm
  have hlong : (u ++ v).takeWhile isData = u ++ v.takeWhile isData :=
    List.takeWhile_append_of_pos hall
  have hrest : (u ++ v).dropWhile isData = v.dropWhile isData := List.dropWhile_append_of_pos hall
  obtain ⟨x, items', hx, hitems, rfl⟩ :=
    readItems_text (hlong.symm ▸ List.append_ne_nil_of_left_ne_nil hne _) h
  rw [hlong] at hx
  rw [hrest] at hitems
  cases hdata : v.takeWhile isData with
  | nil =>
    rw [hdata, List.append_nil, ht] at hx
    obtain rfl := Option.some.inj hx
    have hv : v.dropWhile isData = v := by
      have hsplit := List.takeWhile_append_dropWhile (p := isData) (l := v)
      rwa [hdata] at hsplit
    rw [hv] at hitems
    exact ⟨items', readItems_mono_succ hitems, .apart [.text t] items'⟩
  | cons c d =>
    have hend : u.getLast? ≠ some '\r' := by
      intro hlast
      rw [hline.1 hlast] at hdata
      exact nomatch hdata
    obtain ⟨t', ht', rfl⟩ := text?_append ht hx hend hline.2
    have hv : ReadsItem fuel scopes v (.text t') (v.dropWhile isData) :=
      .text (hdata ▸ List.cons_ne_nil c d) ht'
    refine ⟨.text t' :: items', ?_, .merged [] t t' items'⟩
    rw [readItems_of_readsItem hv hitems]
    rfl

/-- Content that begins with content has the items of both parts. Character data at the end of the
    first part goes on in the second part. -/
theorem exists_of_readItems_append (hu : readItems fuel scopes u = some (xs, []))
    (h : readItems fuel scopes (u ++ v) = some (items, r)) (hline : KeepsLineEnds u v) :
    ∃ ys, readItems fuel scopes v = some (ys, r) ∧ Joins xs ys items := by
  induction fuel generalizing u xs items with
  | zero => exact nomatch hu
  | succ fuel ih =>
    rcases readItems_succ hu with ⟨rfl, rfl, -⟩ | ⟨t, rfl, -, hnil⟩ | ⟨i, u', xs', hi, hu', rfl⟩
    · exact ⟨items, h, .apart [] items⟩
    · exact nomatch hnil
    · by_cases hcut : u' = [] → u.head? = some '<'
      · have hlong := readItems_of_readsItem (hi.append hcut v) rfl
        rw [hlong] at h
        obtain ⟨more, hmore, rfl⟩ := exists_of_map_cons h
        obtain ⟨ys, hys, hjoins⟩ := ih hu' hmore (hline.of_suffix hi.suffix)
        exact ⟨ys, readItems_mono_succ hys, hjoins.cons i⟩
      · -- Character data has been read up to the end of the first part.
        rw [Classical.not_imp] at hcut
        obtain ⟨rfl, hhead⟩ := hcut
        obtain ⟨hne, hall⟩ := hi.isData_of_mem rfl hhead
        exact exists_of_readItems_data hne hall hu h hline

/-- The same with as much fuel as it takes. -/
theorem IsContent.exists_of_append (hu : IsContent scopes u xs)
    (h : readItems fuel scopes (u ++ v) = some (items, r)) (hline : KeepsLineEnds u v) :
    ∃ k ys, readItems k scopes v = some (ys, r) ∧ Joins xs ys items := by
  obtain ⟨k, hxs⟩ := hu
  exact ⟨k + fuel, exists_of_readItems_append (readItems_mono hxs (Nat.le_add_right k fuel))
    (readItems_mono h (Nat.le_add_left fuel k)) hline⟩

/-! ## The nodes of joined items -/

/-- Nodes with more text before the run that they begin with. -/
def lengthened (t : Text) : List Node → List Node
  | .text c :: ns => .text (t ++ c) :: ns
  | ns => .text t :: ns

/-- A text goes on with the run of the text after it. -/
theorem nodesOf_text (t : Text) (xs : List Item) : nodesOf (.text t :: xs) =
    if startsWithText xs then lengthened t (nodesOf xs) else .text t :: nodesOf xs := by
  cases xs with
  | nil => rfl
  | cons i xs => cases i <;> rfl

theorem exists_nodesOf (h : startsWithText xs = true) : ∃ c ns, nodesOf xs = .text c :: ns := by
  induction xs with
  | nil => exact nomatch h
  | cons i xs ih =>
    cases i with
    | aside => exact nomatch h
    | element e => exact nomatch h
    | text t =>
      rw [nodesOf_text]
      split
      · rename_i hxs
        obtain ⟨c, ns, hns⟩ := ih hxs
        exact ⟨t ++ c, ns, hns ▸ rfl⟩
      · exact ⟨t, nodesOf xs, rfl⟩

/-- Two texts in a row are one run. -/
theorem nodesOf_text_append (t t' : Text) (xs : List Item) :
    nodesOf (.text (t ++ t') :: xs) = nodesOf (.text t :: .text t' :: xs) := by
  rw [nodesOf_text, nodesOf_text, nodesOf_text, startsWithText, if_pos rfl]
  split
  · rename_i hxs
    obtain ⟨c, ns, hns⟩ := exists_nodesOf hxs
    rw [hns, lengthened, lengthened, lengthened, List.append_assoc]
  · rfl

/-- Items after other items count only for their nodes and for what they begin with. -/
theorem nodesOf_append_congr {zs : List Item} (hstarts : startsWithText ys = startsWithText zs)
    (h : nodesOf ys = nodesOf zs) (xs : List Item) : nodesOf (xs ++ ys) = nodesOf (xs ++ zs) := by
  induction xs with
  | nil => exact h
  | cons i xs ih =>
    have hrest : startsWithText (xs ++ ys) = startsWithText (xs ++ zs) := by
      cases xs with
      | nil => exact hstarts
      | cons j xs => rw [startsWithText_append, startsWithText_append]
    cases i with
    | aside => exact ih
    | element e => exact congrArg (e.toNode :: ·) ih
    | text t => rw [List.cons_append, List.cons_append, nodesOf_text, nodesOf_text, hrest, ih]

theorem Joins.nodesOf_eq (h : Joins xs ys items) : nodesOf items = nodesOf (xs ++ ys) := by
  cases h with
  | apart => rfl
  | merged xs t t' ys =>
    rw [List.append_assoc]
    have hstarts : startsWithText (.text (t ++ t') :: ys) = startsWithText (.text t :: .text t' :: ys) :=
      rfl
    exact nodesOf_append_congr hstarts (nodesOf_text_append t t' ys) xs

/-- Nothing but text goes on with a run. -/
theorem nodesOf_append (hys : startsWithText ys = false) :
    nodesOf (xs ++ ys) = nodesOf xs ++ nodesOf ys := by
  induction xs with
  | nil => rfl
  | cons i xs ih =>
    have hrest : startsWithText (xs ++ ys) = startsWithText xs := by
      cases xs with
      | nil => exact hys
      | cons j xs => exact startsWithText_append j xs ys
    cases i with
    | aside => exact ih
    | element e => exact congrArg (e.toNode :: ·) ih
    | text t =>
      rw [List.cons_append, nodesOf_text, nodesOf_text, hrest, ih]
      split
      · rename_i hxs
        obtain ⟨c, ns, hns⟩ := exists_nodesOf hxs
        rw [hns]
        rfl
      · rfl

/-- Joined items have the nodes of both parts, up to a run of text that is severed between them. -/
theorem sameButRun_nodesOf_append (xs ys : List Item) :
    Node.SameButRun (nodesOf xs ++ nodesOf ys) (nodesOf (xs ++ ys)) := by
  induction xs with
  | nil => exact .inl rfl
  | cons i xs ih =>
    cases i with
    | aside => exact ih
    | element e => exact ih.cons e.toNode
    | text t =>
      rw [List.cons_append, nodesOf_text, nodesOf_text]
      cases xs with
      | nil =>
        cases hys : startsWithText ys with
        | true =>
          obtain ⟨c, ns, hns⟩ := exists_nodesOf hys
          rw [List.nil_append, hys, hns]
          exact .inr ⟨[], t, c, .here t c ns⟩
        | false =>
          rw [List.nil_append, hys]
          exact .inl rfl
      | cons j xs =>
        cases hxs : startsWithText (j :: xs) with
        | true =>
          have hlong := (startsWithText_append j xs ys).trans hxs
          obtain ⟨c, ns, hns⟩ := exists_nodesOf hxs
          obtain ⟨c', ns', hns'⟩ := exists_nodesOf hlong
          rw [hns, hns'] at ih
          rw [hlong, hns, hns']
          exact ih.text_append t
        | false =>
          rw [startsWithText_append, hxs]
          exact ih.cons (.text t)

/-! ## Content and documents without one of their comments -/

/-- Content with a comment directly in it, and without. -/
theorem IsContent.sameButRun {fuel' : Nat} {r' : Text} (hu : IsContent scopes u xs) (ha : IsAside a)
    (hline : KeepsLineEnds u v) (h : readItems fuel scopes (u ++ (a ++ v)) = some (items, r))
    (h' : readItems fuel' scopes (u ++ v) = some (items', r')) :
    r' = r ∧ Node.SameButRun (nodesOf items) (nodesOf items') := by
  obtain ⟨t, hat⟩ := ha.exists_cons
  have hline' : KeepsLineEnds u (a ++ v) := hat ▸ keepsLineEnds_of_tag u (t ++ v)
  obtain ⟨_, ys, hys, hjoins⟩ := hu.exists_of_append h hline'
  obtain ⟨_, ys', hys', hjoins'⟩ := hu.exists_of_append h' hline
  obtain ⟨_, zs, hzs, rfl⟩ := ha.exists_of_readItems hys
  obtain ⟨rfl, rfl⟩ := Prod.mk.inj (readItems_unique hys' hzs)
  refine ⟨rfl, ?_⟩
  rw [hjoins.eq_append rfl, hjoins'.nodesOf_eq, nodesOf_append rfl]
  exact sameButRun_nodesOf_append xs zs

/-- Content without one of its comments has the same nodes, up to a run of text that is severed where
    the comment stood. -/
theorem sameButRun_of_readItems {fuel' : Nat} {r' : Text} (hu : Reaches scopes u) (ha : IsAside a)
    (hline : KeepsLineEnds u v) (h : readItems fuel scopes (u ++ (a ++ v)) = some (items, r))
    (h' : readItems fuel' scopes (u ++ v) = some (items', r')) :
    r' = r ∧ Node.SameButRun (nodesOf items) (nodesOf items') := by
  induction hu generalizing fuel fuel' items items' r r' with
  | here hcontent => exact hcontent.sameButRun ha hline h h'
  | @inside scopes s t u xs tag hcontent htag hopened hu ih =>
    rw [List.append_assoc] at h h'
    obtain ⟨_, ys, hys, hjoins⟩ := hcontent.exists_of_append h (keepsLineEnds_of_tag s _)
    obtain ⟨_, ys', hys', hjoins'⟩ := hcontent.exists_of_append h' (keepsLineEnds_of_tag s _)
    have hlong (z : Text) : readStartTag scopes (t ++ u ++ z) = some (tag, u ++ z) := by
      rw [List.append_assoc]
      exact readStartTag_append htag (u ++ z)
    obtain ⟨_, inner, r₁, after, more, hinner, hclose, hmore, rfl⟩ :=
      exists_of_readItems_tag (hlong (a ++ v)) hopened hys
    obtain ⟨_, inner', r₁', after', more', hinner', hclose', hmore', rfl⟩ :=
      exists_of_readItems_tag (hlong v) hopened hys'
    have hsuffix : u <:+ s ++ '<' :: (t ++ u) :=
      ((List.suffix_append t u).trans (List.suffix_cons '<' _)).trans (List.suffix_append s _)
    obtain ⟨hrest, hnodes⟩ := ih (hline.of_suffix hsuffix) hinner hinner'
    -- After the element both documents go on in the same way.
    obtain rfl : r₁' = r₁ := (List.cons.inj (List.cons.inj hrest).2).2
    obtain rfl : after' = after := Option.some.inj (hclose'.symm.trans hclose)
    obtain ⟨rfl, rfl⟩ := Prod.mk.inj (readItems_unique hmore' hmore)
    refine ⟨rfl, ?_⟩
    rw [hjoins.eq_append rfl, hjoins'.eq_append rfl, nodesOf_append rfl, nodesOf_append rfl]
    exact (hnodes.element (nodesOf more)).append_left (nodesOf xs)

theorem exists_of_read? {s : Text} {e : Element} (h : read? s = some e) :
    ∃ t rest, skipProlog s = some t ∧ readElement t = some (e, rest) := by
  unfold read? at h
  split at h
  · rename_i e' rest hread
    obtain ⟨t, hprolog, helement⟩ := Option.bind_eq_some_iff.mp hread
    split at h
    · obtain rfl := Option.some.inj h
      exact ⟨t, rest, hprolog, helement⟩
    · exact nomatch h
  · exact nomatch h

/-- The content of the root element, from its start tag on. -/
theorem exists_of_read?_tag {s t z : Text} {tag : StartTag} {e : Element}
    (hprolog : skipProlog (s ++ '<' :: t) = some ('<' :: t))
    (htag : readStartTag [] t = some (tag, [])) (hopened : tag.ending = .opened)
    (h : read? (s ++ '<' :: (t ++ z)) = some e) : ∃ fuel inner r,
      readItems fuel tag.scopes z = some (inner, r) ∧
        e = ⟨tag.name.localPart, tag.attributes, nodesOf inner⟩ := by
  obtain ⟨root, rest, hroot, helement⟩ := exists_of_read? h
  obtain rfl : root = '<' :: (t ++ z) := by
    obtain ⟨c, t', rfl, hc⟩ := exists_of_readStartTag htag
    have hlong := skipProlog_append hprolog hc z
    rw [List.append_assoc] at hlong
    exact Option.some.inj (hroot.symm.trans hlong)
  unfold readElement at helement
  simp only [readStartTag_append htag z, if_neg (StartTag.not_closed hopened),
    List.nil_append] at helement
  obtain ⟨inner, r', hinner, -, rfl⟩ := closeElement_eq_some.mp helement
  exact ⟨_, inner, _, hinner, rfl⟩

/-- A document without one of its comments has the same root element, up to a run of text that is
    severed where the comment stood. -/
theorem sameButRun_of_read? {e e' : Element} (hu : ReachesContent u) (ha : IsAside a)
    (hline : KeepsLineEnds u v) (h : read? (u ++ a ++ v) = some e) (h' : read? (u ++ v) = some e') :
    e.SameButRun e' := by
  obtain ⟨s, t, u, tag, rfl, hprolog, htag, hopened, hu⟩ := hu
  have hassoc (z : Text) : s ++ '<' :: (t ++ u) ++ z = s ++ '<' :: (t ++ (u ++ z)) := by
    simp only [List.append_assoc, List.cons_append]
  rw [List.append_assoc, hassoc] at h
  rw [hassoc] at h'
  obtain ⟨fuel, inner, r, hinner, rfl⟩ := exists_of_read?_tag hprolog htag hopened h
  obtain ⟨fuel', inner', r', hinner', rfl⟩ := exists_of_read?_tag hprolog htag hopened h'
  have hsuffix : u <:+ s ++ '<' :: (t ++ u) :=
    ((List.suffix_append t u).trans (List.suffix_cons '<' _)).trans (List.suffix_append s _)
  obtain ⟨-, hnodes⟩ := sameButRun_of_readItems hu ha (hline.of_suffix hsuffix) hinner hinner'
  exact ⟨rfl, rfl, hnodes⟩

end TimePhrase.Document
