import TimePhrase.Proofs.Grammar.Extract
import TimePhrase.Proofs.Rule.Match

/-!
# Where extracted matches end in the input

Overlaps are resolved by the end of a value, counted from its index. A value out of whose middle text
has been cut ends further on in the input, and the next match may begin before that.

* `extract_apart_iff`  when two extracted matches are apart in the input
* `exists_extract_overlap`  they need not be
-/

namespace TimePhrase.Grammar

theorem exists_finds_of_foundBy {g : Grammar} {kinds : KindSet} {text : Text} {rules : List Rule}
    {found : List Match} (h : g.foundBy kinds text rules = .ok found) :
    ∀ m ∈ found, ∃ r ∈ rules, asks kinds r = true ∧
      ∃ o, r.Finds g.book.scripts g.resources.tables text o m := by
  obtain ⟨lists, hlists, rfl⟩ := Except.map_eq_ok.mp h
  intro m hm
  obtain ⟨l, hl, hml⟩ := List.mem_flatten.mp hm
  obtain ⟨r, hr, hrl⟩ := Except.exists_of_mapM_eq_ok hlists l hl
  obtain ⟨hr, hasks⟩ := List.mem_filter.mp hr
  exact ⟨r, hr, hasks, Rule.exists_finds_of_matchAll hrl m hml⟩

/-- An extracted match has been found by one of the asked rules. -/
theorem exists_finds_of_extract {g : Grammar} {kinds : KindSet} {text : Text} {out : List Match}
    (h : (g.extract kinds text).2 = .ok out) :
    ∀ m ∈ out, ∃ r ∈ g.book.rules, asks kinds r = true ∧
      ∃ o, r.Finds g.book.scripts g.resources.tables text o m := by
  obtain ⟨found, negatives, hfound, -, rfl⟩ := exists_found_of_extract h
  intro m hm
  have hgreedy := Match.isGreedy_resolve (pairwise_sortBy Match.index found)
  have hmem := hgreedy.sublist.subset (List.mem_filter.mp hm).1
  exact exists_finds_of_foundBy hfound m ((sortBy_perm Match.index found).mem_iff.mp hmem)

theorem pairwise_extract {g : Grammar} {kinds : KindSet} {text : Text} {out : List Match}
    (h : (g.extract kinds text).2 = .ok out) : out.Pairwise fun m₁ m₂ => m₁.stop < m₂.index := by
  obtain ⟨found, negatives, -, -, rfl⟩ := exists_found_of_extract h
  exact (Match.isGreedy_resolve (pairwise_sortBy Match.index found)).apart.filter _

/-- Of two extracted matches, the second one begins behind the first one in the input exactly if the
    text cut out of the middle of the first one fits between them. -/
theorem extract_apart_iff (g : Grammar) (kinds : KindSet) (text : Text) (out : List Match)
    (h : (g.extract kinds text).2 = .ok out) :
    (∀ m ∈ out, ∃ r ∈ g.book.rules, asks kinds r = true ∧
      ∃ o, r.Finds g.book.scripts g.resources.tables text o m) ∧
    out.Pairwise fun m₁ m₂ => m₁.stop < m₂.index ∧
      ∀ (r : Rule) (o : Occurrence), r.Finds g.book.scripts g.resources.tables text o m₁ →
        m₁.value ≠ [] →
        (r.inputEnd text o ≤ m₂.index ↔ m₁.stop + r.hiddenBytes text o ≤ m₂.index) := by
  refine ⟨exists_finds_of_extract h, (pairwise_extract h).imp fun hlt => ⟨hlt, ?_⟩⟩
  intro r o hfinds hv
  rw [Rule.inputEnd_eq hfinds hv]

/-- A rule with a part in its middle that is left out, and one for a single word. -/
def leavingOut (word : Text) : Element :=
  ⟨"grammar", .empty, [dateRule "rule" "whole" "abbc" [itemOf "a",
      .element "item" (.ofList [("include", "false")]) [.text "bb"], itemOf "c"],
    dateRule "rule" "word" word [itemOf word]]⟩

/-- In `a bb c d` the match `a c` and the match `d` are apart if the three bytes of ` bb` fit
    between the end of `a c` and `d`. -/
theorem extract_apart_iff_leavingOut : ∃ g m₁ m₂, load true (leavingOut "d") = .ok g ∧
    (g.extract .all "a bb c d").2 = .ok [m₁, m₂] ∧ m₁.value = "a c".toList ∧
    ∃ (r : Rule) (o : Occurrence), r.Finds g.book.scripts g.resources.tables "a bb c d" o m₁ ∧
      (r.inputEnd "a bb c d" o ≤ m₂.index ↔
        m₁.stop + r.hiddenBytes "a bb c d" o ≤ m₂.index) := by
  have hrun : (answer? (leavingOut "d") "a bb c d").map (·.2.map Match.value) =
      some ["a c".toList, "d".toList] := by
    decide +kernel
  obtain ⟨⟨g, out⟩, hanswer, hvalues⟩ := Option.map_eq_some_iff.mp hrun
  obtain ⟨hload, hout⟩ := of_answer? hanswer
  obtain ⟨m₁, rest, rfl, h₁, hrest⟩ := List.map_eq_cons_iff.mp hvalues
  obtain ⟨m₂, rest, rfl, -, hnil⟩ := List.map_eq_cons_iff.mp hrest
  obtain rfl := List.map_eq_nil_iff.mp hnil
  obtain ⟨hfound, hpair⟩ := extract_apart_iff g _ _ _ hout
  obtain ⟨r, -, -, o, hfinds⟩ := hfound m₁ List.mem_cons_self
  have hv : m₁.value ≠ [] := by rw [h₁]; decide
  obtain ⟨-, hiff⟩ := (List.pairwise_cons.mp hpair).1 m₂ List.mem_cons_self
  exact ⟨g, m₁, m₂, hload, hout, h₁, r, o, hfinds, hiff r o hfinds hv⟩

/-- Whether a rule finds a match that ends behind a byte of the input. -/
def endsBehind (g : Grammar) (text : Text) (m : Match) (byte : Nat) : Bool :=
  g.book.rules.any fun r => (r.pattern.occurrences text).any fun o =>
    decide (byte < r.inputEnd text o) &&
      (r.realize g.book.scripts).toOption.any fun r' =>
        (r'.matchOf g.resources.tables text o).toOption == some m

theorem exists_of_endsBehind {g : Grammar} {text : Text} {m : Match} {byte : Nat}
    (h : g.endsBehind text m byte = true) :
    ∃ r ∈ g.book.rules, ∃ o, r.Finds g.book.scripts g.resources.tables text o m ∧
      byte < r.inputEnd text o := by
  obtain ⟨r, hr, h⟩ := List.any_eq_true.mp h
  obtain ⟨o, ho, h⟩ := List.any_eq_true.mp h
  rw [Bool.and_eq_true, decide_eq_true_eq] at h
  obtain ⟨hlt, h⟩ := h
  obtain ⟨r', hr', hm⟩ := (Option.any_eq_true _ _).mp h
  have hmatch := Except.eq_ok_of_toOption (beq_iff_eq.mp hm)
  exact ⟨r, hr, o, ⟨ho, r', Except.eq_ok_of_toOption hr', hmatch⟩, hlt⟩

/-- The answer for `a bb c` is `a c` and `c`, and the first one ends behind the index of the second
    one, which is its last character. -/
theorem exists_extract_overlap : ∃ g m₁ m₂, load true (leavingOut "c") = .ok g ∧
    (g.extract .all "a bb c").2 = .ok [m₁, m₂] ∧ m₁.value = "a c".toList ∧
    m₂.value = "c".toList ∧
    ∃ r ∈ g.book.rules, ∃ o, r.Finds g.book.scripts g.resources.tables "a bb c" o m₁ ∧
      m₂.index < r.inputEnd "a bb c" o := by
  have hrun : (answer? (leavingOut "c") "a bb c").map (fun a => (a.2.map Match.value,
      a.2.head?.any fun m₁ => a.2.getLast?.any fun m₂ => a.1.endsBehind "a bb c" m₁ m₂.index)) =
      some (["a c".toList, "c".toList], true) := by
    decide +kernel
  obtain ⟨⟨g, out⟩, hanswer, hcheck⟩ := Option.map_eq_some_iff.mp hrun
  obtain ⟨hload, hout⟩ := of_answer? hanswer
  obtain ⟨hvalues, hends⟩ := Prod.mk.inj hcheck
  obtain ⟨m₁, rest, rfl, h₁, hrest⟩ := List.map_eq_cons_iff.mp hvalues
  obtain ⟨m₂, rest, rfl, h₂, hnil⟩ := List.map_eq_cons_iff.mp hrest
  obtain rfl := List.map_eq_nil_iff.mp hnil
  exact ⟨g, m₁, m₂, hload, hout, h₁, h₂, exists_of_endsBehind hends⟩

end TimePhrase.Grammar
