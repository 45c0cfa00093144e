import TimePhrase.Proofs.Pattern.CharSet
import TimePhrase.Proofs.Pattern.Names
import TimePhrase.Proofs.Pattern.Spans

/-!
# Patterns that hide what they match

Where nothing but blanks can be matched outside of some groups, the stretches that these groups
capture cover all else that is matched. They do so as long as none of them is captured twice, since
the later capture takes the place of the earlier one: no two groups have the same name, and none of
them stands in a repetition of more than one iteration.

* `Hides`  patterns that match nothing but blanks outside of some groups
* `isHereditary_hides`, `hides_repeated`  composed patterns are such patterns, too
* `exists_conceals_of_mem_ends`  the captures cover all that is not blank
* `IsFound.conceals`  such are the captures of an occurrence
-/

namespace TimePhrase.Pattern

open Text (byteSize placed)

/-! ## Patterns -/

/-- Whether a pattern matches nothing but blanks outside of groups with some of the names, and comes
    to each of these groups at most once. -/
def Hides : Pattern → List Text → Prop
  | .empty, _ | .assertion _, _ => True
  | .literal t, _ => t.isBlank = true
  | .char set, _ => set.IsProper ∧ ∀ c, set.has c = true → isBlank c = true
  | .group _ name p, hidden => (∃ n ∈ hidden, name = some n) ∨ p.Hides hidden
  | .concat p q, hidden => p.Hides hidden ∧ q.Hides hidden
  | .either p q, hidden => p.Hides hidden ∧ q.Hides hidden
  | .repetition p least most _, hidden =>
    p.Hides hidden ∧ (p.Hides [] ∨ least = 0 ∧ most = some 1)

variable {p : Pattern} {hidden : List Text}

/-- A pattern that matches nothing but blanks hides nothing. -/
theorem Hides.of_nil (h : p.Hides []) (hidden : List Text) : p.Hides hidden := by
  induction p with
  | empty | literal | char | assertion => exact h
  | group index name p ih =>
    rcases h with ⟨n, hn, -⟩ | h
    · exact absurd hn List.not_mem_nil
    · exact .inr (ih h)
  | concat p q ihp ihq => exact ⟨ihp h.1, ihq h.2⟩
  | either p q ihp ihq => exact ⟨ihp h.1, ihq h.2⟩
  | repetition p least most greedy ih => exact ⟨ih h.1, h.2⟩

theorem hides_ofSet {s : CharSet} (h : (Pattern.char s).Hides hidden) : (ofSet s).Hides hidden := by
  obtain ⟨hproper, hblank⟩ := h
  unfold ofSet
  split
  · rename_i c hc
    have hhas := (CharSet.has_iff_of_only? hproper hc c).mpr rfl
    show Text.isBlank [c] = true
    rw [Text.isBlank, List.all_cons, hblank c hhas]
    rfl
  · exact ⟨hproper, hblank⟩

theorem isHereditary_hides (hidden : List Text) : IsHereditary (Hides · hidden) where
  empty := trivial
  concat := Iff.rfl
  either := Iff.rfl
  literal hs ht := by
    show Text.isBlank (_ ++ _) = true
    rw [Text.isBlank, List.all_append, Bool.and_eq_true]
    exact ⟨hs, ht⟩
  single := by
    intro c hc
    refine ⟨CharSet.isProper_single c, fun d hd => ?_⟩
    rw [CharSet.has_single, beq_iff_eq] at hd
    rw [hd]
    have hc : Text.isBlank [c] = true := hc
    simpa [Text.isBlank] using hc
  unions := by
    intro ss hss
    obtain ⟨hproper, hhas⟩ := CharSet.has_unions fun s hs => (hss s hs).1
    refine hides_ofSet ⟨hproper, fun c hc => ?_⟩
    obtain ⟨s, hs, hsc⟩ := (hhas c).mp hc
    exact (hss s hs).2 c hsc

/-- A repetition of what only matches blanks hides as much as its body does, and so does a
    repetition of any number of iterations up to one. -/
theorem hides_repeated (h : p.Hides hidden) {least : Nat} {most : Option Nat} (greedy : Bool)
    (hone : p.Hides [] ∨ ∃ m, most = some m ∧ least ≤ m ∧ m ≤ 1) :
    (p.repeated least most greedy).Hides hidden := by
  have hcases (least : Nat) (most : Option Nat)
      (hone : p.Hides [] ∨ ∃ m, most = some m ∧ least ≤ m ∧ m ≤ 1) :
      (if least = 0 ∧ most = some 0 then Pattern.empty else
        if least = 1 ∧ most = some 1 then p else
          .repetition p least most greedy).Hides hidden := by
    split
    · trivial
    · split
      · exact h
      · rename_i hnone hexact
        refine ⟨h, hone.imp_right ?_⟩
        rintro ⟨m, rfl, hle, hm⟩
        simp only [Option.some.injEq] at hnone hexact ⊢
        omega
  refine hcases _ _ (hone.imp_right ?_)
  rintro ⟨m, rfl, hle, hm⟩
  split
  · refine ⟨min m 1, rfl, ?_, Nat.min_le_right m 1⟩
    omega
  · exact ⟨m, rfl, hle, hm⟩

/-! ## Matching -/

/-- All characters of `w`, which begins at a byte, that are not blank are covered by what groups
    with some of the names have captured last. -/
def Conceals (hidden : List Text) (byte : Nat) (w : Text) (captures : List (Text × Span)) : Prop :=
  ∀ x ∈ placed byte w, isBlank x.2 = true ∨
    ∃ n ∈ hidden, ∃ e, captures.find? (fun e => e.1 == n) = some e ∧ e.2.holds x.1 = true

theorem conceals_of_isBlank {byte : Nat} {w : Text} (h : ∀ c ∈ w, isBlank c = true)
    (captures : List (Text × Span)) : Conceals hidden byte w captures :=
  fun x hx => .inl (h x.2 (Text.mem_of_mem_placed hx))

theorem isBlank_of_conceals_nil {byte : Nat} {w : Text} {captures : List (Text × Span)}
    (h : Conceals [] byte w captures) : ∀ c ∈ w, isBlank c = true := by
  intro c hc
  rw [← Text.map_snd_placed byte w] at hc
  obtain ⟨x, hx, rfl⟩ := List.mem_map.mp hc
  rcases h x hx with hblank | ⟨n, hn, -⟩
  · exact hblank
  · exact absurd hn List.not_mem_nil

/-- What has been covered stays covered if later captures have other names. -/
theorem Conceals.append {byte : Nat} {v w : Text} {new more : List (Text × Span)}
    (hw : Conceals hidden byte w new) (hv : Conceals hidden (byte + byteSize w) v more)
    (hnames : ∀ e ∈ new, ∀ f ∈ more, f.1 ≠ e.1) : Conceals hidden byte (w ++ v) (more ++ new) := by
  intro x hx
  rw [Text.placed_append] at hx
  rcases List.mem_append.mp hx with hx | hx
  · refine (hw x hx).imp_right ?_
    rintro ⟨n, hn, e, he, hholds⟩
    have hne : more.find? (fun e => e.1 == n) = none := by
      refine List.find?_eq_none.mpr fun f hf hfn => ?_
      have hen := List.find?_some he
      refine hnames e (List.mem_of_find?_eq_some he) f hf ?_
      rw [eq_of_beq hfn, eq_of_beq hen]
    exact ⟨n, hn, e, by rw [List.find?_append, hne, Option.none_or, he], hholds⟩
  · refine (hv x hx).imp_right ?_
    rintro ⟨n, hn, e, he, hholds⟩
    exact ⟨n, hn, e, by rw [List.find?_append, he, Option.some_or], hholds⟩

/-- A repetition of at most one iteration has none or one. -/
theorem eq_or_mem_of_mem_repetitionEnds {step : Nat → Cursor → List Cursor} {advances greedy : Bool}
    {s t : Cursor} (h : t ∈ repetitionEnds step advances 0 (some 1) greedy s) :
    t = s ∨ t ∈ step 0 s := by
  obtain ⟨u, hu, hut⟩ := List.mem_flatMap.mp (mem_of_mem_firsts h)
  obtain rfl : u = s := by simpa [exactly] using hu
  have hfound := List.mem_reverse.mp (mem_of_mem_firsts hut)
  -- The only level of the walk follows one iteration, and the level below none.
  have hone (w : Walk (List Places)) :
      ∀ t ∈ ((step 0 u).foldl (walkUpTo (fun left => step (0 + left)) greedy u.byte 0) w).found,
        t ∈ w.found ∨ t ∈ step 0 u :=
    mem_found_foldl (fun w t ht v hv => mem_found_find ht hv) w
  simp only [Nat.sub_zero, walkUpTo] at hfound
  split at hfound
  · exact absurd hfound List.not_mem_nil
  · cases greedy with
    | true =>
      simp only [if_true] at hfound
      rcases mem_found_find (P := (· = u)) rfl hfound with hfound | rfl
      · exact .inr ((hone _ t hfound).resolve_left List.not_mem_nil)
      · exact .inl rfl
    | false =>
      simp only [Bool.false_eq_true, if_false] at hfound
      rcases hone _ t hfound with hfound | hfound
      · exact .inl (List.mem_singleton.mp hfound)
      · exact .inr hfound

/-- The captures on the way to an end cover all that is not blank. -/
theorem exists_conceals_of_mem_ends {s t : Cursor} (hp : p.Hides hidden) (hnames : p.names.Nodup)
    (h : t ∈ p.ends s) :
    ∃ w new, Leads p.names s w new t ∧ Conceals hidden s.byte w new := by
  induction p generalizing s t hidden with
  | empty =>
    obtain rfl := List.mem_singleton.mp h
    exact ⟨[], [], .refl _ t, nofun⟩
  | literal text =>
    refine ⟨text, [], .pass (Option.mem_toList.mp h), conceals_of_isBlank ?_ _⟩
    exact List.all_eq_true.mp hp
  | char set =>
    simp only [ends] at h
    split at h
    · exact absurd h List.not_mem_nil
    · rename_i c r hrest
      split at h
      · rename_i hhas
        obtain ⟨d, hd, hnext⟩ := Leads.next (Option.mem_toList.mp h)
        obtain rfl : c = d := by
          rw [hrest] at hd
          exact Option.some.inj hd
        refine ⟨[c], [], hnext, conceals_of_isBlank ?_ _⟩
        exact List.forall_mem_singleton.mpr (hp.2 c hhas)
      · exact absurd h List.not_mem_nil
  | assertion a =>
    simp only [ends] at h
    split at h
    · obtain rfl := List.mem_singleton.mp h
      exact ⟨[], [], .refl _ t, nofun⟩
    · exact absurd h List.not_mem_nil
  | group index name p ih =>
    obtain ⟨u, hu, rfl⟩ := List.mem_map.mp h
    rcases hp with ⟨n, hn, rfl⟩ | hp
    · -- Whatever the body matches, the group captures all of it.
      obtain ⟨w, new, hlead⟩ := exists_leads_of_mem_ends hu
      refine ⟨w, _, hlead.capture n, fun x hx => .inr ⟨n, hn, _, List.find?_cons_of_pos ?_, ?_⟩⟩
      · exact beq_self_eq_true n
      · have hbounds := Text.bounds_of_mem_placed hx
        have hlt := Text.lt_of_mem_placed hx
        simp only [Span.holds_iff, Span.between, Span.stop, hlead.byte]
        omega
    · cases name with
      | none => exact ih hp hnames hu
      | some n =>
        obtain ⟨hn, hnames⟩ : n ∉ p.names ∧ p.names.Nodup := List.nodup_cons.mp hnames
        obtain ⟨w, new, hlead, hw⟩ := ih hp hnames hu
        refine ⟨w, _, hlead.capture n, fun x hx => (hw x hx).imp_right ?_⟩
        rintro ⟨m, hm, e, he, hholds⟩
        -- The name of the group is none of those inside it.
        refine ⟨m, hm, e, ?_, hholds⟩
        rw [List.find?_cons_of_neg, he]
        intro hnm
        have hem := List.find?_some he
        have hname : e.1 = n := (eq_of_beq hem).trans (eq_of_beq hnm).symm
        exact hn (hname ▸ hlead.named e (List.mem_of_find?_eq_some he))
  | concat p q ihp ihq =>
    obtain ⟨hpn, hqn, hdisjoint⟩ := List.nodup_append.mp hnames
    obtain ⟨u, hu, hut⟩ := List.mem_flatMap.mp (mem_of_mem_firsts h)
    obtain ⟨_, _, x, hx, rfl⟩ := exists_of_mem_within hu
    obtain ⟨_, _, y, hy, rfl⟩ := exists_of_mem_within hut
    obtain ⟨w, new, hlead, hw⟩ := ihp hp.1 hpn hx
    obtain ⟨v, more, hlead', hv⟩ := ihq hp.2 hqn hy
    refine ⟨w ++ v, more ++ new, (hlead.mono (List.subset_append_left _ _)).trail.trans
      (hlead'.mono (List.subset_append_right _ _)).trail, hw.append ?_ fun e he f hf hfe => ?_⟩
    · rw [← hlead.byte]
      exact hv
    · exact hdisjoint e.1 (hlead.named e he) f.1 (hlead'.named f hf) hfe.symm
  | either p q ihp ihq =>
    obtain ⟨hpn, hqn, -⟩ := List.nodup_append.mp hnames
    rcases List.mem_append.mp (mem_of_mem_firsts h) with h | h
    · obtain ⟨_, _, u, hu, rfl⟩ := exists_of_mem_within h
      obtain ⟨w, new, hlead, hw⟩ := ihp hp.1 hpn hu
      exact ⟨w, new, (hlead.mono (List.subset_append_left _ _)).trail, hw⟩
    · obtain ⟨_, _, u, hu, rfl⟩ := exists_of_mem_within h
      obtain ⟨w, new, hlead, hw⟩ := ihq hp.2 hqn hu
      exact ⟨w, new, (hlead.mono (List.subset_append_right _ _)).trail, hw⟩
  | repetition p least most greedy ih =>
    rcases hp with ⟨hp, hblank | ⟨rfl, rfl⟩⟩
    · -- However often the body is repeated, it matches nothing but blanks.
      have hway := isWay_leads p.names fun c => isBlank c = true
      have hends : ∀ s, ∀ t ∈ p.ends s,
          ∃ w new, Leads p.names s w new t ∧ ∀ c ∈ w, isBlank c = true := by
        intro s t ht
        obtain ⟨w, new, hlead, hw⟩ := ih hblank hnames ht
        exact ⟨w, new, hlead, isBlank_of_conceals_nil hw⟩
      obtain ⟨w, new, hlead, hw⟩ :=
        hway.of_mem_repetitionEnds (fun _ _ _ => hway.of_mem_within hends) h
      exact ⟨w, new, hlead, conceals_of_isBlank hw new⟩
    · rcases eq_or_mem_of_mem_repetitionEnds h with rfl | h
      · exact ⟨[], [], .refl _ t, nofun⟩
      · obtain ⟨_, _, u, hu, rfl⟩ := exists_of_mem_within h
        obtain ⟨w, new, hlead, hw⟩ := ih hp hnames hu
        exact ⟨w, new, hlead.trail, hw⟩

/-- Of the characters of an occurrence, those that are not blank have been captured. -/
theorem IsFound.conceals {text : Text} {m : Occurrence} {s : Cursor} (h : IsFound p text m s)
    (hp : p.Hides hidden) (hnames : p.names.Nodup) :
    ∃ a w, IsOccurrence text m a w ∧ Conceals hidden m.start w m.stop.captures := by
  obtain ⟨a, w, hocc⟩ := h.isOccurrence
  obtain ⟨v, new, hlead, hv⟩ := exists_conceals_of_mem_ends hp hnames h.stop
  refine ⟨a, w, hocc, ?_⟩
  have hcaptures : m.stop.captures = new := by
    rw [hlead.captures, h.fresh, List.append_nil]
  -- Both texts stand between the same two places.
  obtain ⟨a', ha', hstart'⟩ := h.isIn
  obtain ⟨b, htext⟩ := hocc.isIn
  have hsame : a ++ (w ++ b) = a' ++ (v ++ m.stop.rest) := by
    rw [← List.append_assoc, ← htext, ha', hlead.rest]
  obtain ⟨-, hsame⟩ := Text.eq_of_byteSize_eq hsame (by rw [← hocc.start, h.start, hstart'])
  have hsize : byteSize w = byteSize v := by
    have hstop := hocc.stop
    rw [hlead.byte, ← h.start, hocc.start, Text.byteSize_append] at hstop
    omega
  obtain ⟨rfl, -⟩ := Text.eq_of_byteSize_eq hsame hsize
  rw [hcaptures, h.start]
  exact hv

end TimePhrase.Pattern
