import Mathlib.Data.Finset.Card
import TimePhrase.Proofs.Fallible
import TimePhrase.Script.Registry

/-!
# The registry as a map

Sources are handed in for groups of rules, and the registry keeps the scripts they are compiled to.
It holds one script for each group that a source has come in for, and that is the last one.

* `Submission`  a source that is handed in for a group of a rule
* `Registry.Holds`  what a registry looks like from outside, given what it has accepted
* `Registry.Holds.submit`  one more source that compiles
* `Registry.get?_submitAll_of_ne`  the scripts of other rules
-/

namespace TimePhrase

namespace TagScript

theorem of_compile {ruleId group source : Text} {s : TagScript}
    (h : compile ruleId group source = .ok s) : s.ruleId = ruleId ∧ s.group = group := by
  obtain ⟨statements, -, rfl⟩ := Except.map_eq_ok.mp h
  exact ⟨rfl, rfl⟩

end TagScript

/-! ## Sources that are handed in -/

/-- A source that is handed in for a group of a rule. -/
structure Submission where
  ruleId : Text
  group : Text
  source : Text
deriving DecidableEq

namespace Submission

/-- The group that the source is for, in its rule. -/
def place (s : Submission) : Text × Text := (s.ruleId, s.group)

/-- The script that the source is compiled to, if it can be compiled. -/
def script? (s : Submission) : Option TagScript :=
  (TagScript.compile s.ruleId s.group s.source).toOption

/-- Whether the source can be compiled. -/
def compiles (s : Submission) : Bool := s.script?.isSome

/-- Of the sources in a list, the last one for a group of a rule. -/
def lastFor? (l : List Submission) (ruleId group : Text) : Option Submission :=
  l.reverse.find? fun s => s.place == (ruleId, group)

theorem compiles_iff {s : Submission} :
    s.compiles = true ↔ ∃ t, TagScript.compile s.ruleId s.group s.source = .ok t := by
  rw [compiles, script?]
  cases TagScript.compile s.ruleId s.group s.source with
  | ok t => exact iff_of_true rfl ⟨t, rfl⟩
  | error cause => exact iff_of_false nofun nofun

theorem of_script? {s : Submission} {t : TagScript} (h : s.script? = some t) :
    t.ruleId = s.ruleId ∧ t.group = s.group :=
  TagScript.of_compile (Except.eq_ok_of_toOption h)

theorem lastFor?_concat (l : List Submission) (s : Submission) (ruleId group : Text) :
    lastFor? (l ++ [s]) ruleId group =
      if s.place = (ruleId, group) then some s else lastFor? l ruleId group := by
  simp only [lastFor?, List.reverse_concat, List.find?_cons]
  by_cases h : s.place = (ruleId, group)
  · rw [if_pos h, beq_iff_eq.mpr h]
  · rw [if_neg h, beq_eq_false_iff_ne.mpr h]

theorem lastFor?_isSome {l : List Submission} {ruleId group : Text} :
    (lastFor? l ruleId group).isSome = true ↔ (ruleId, group) ∈ l.map place := by
  simp only [lastFor?, List.find?_isSome, List.mem_reverse, beq_iff_eq, List.mem_map]

end Submission

namespace Registry

/-! ## Handing in -/

/-- The registry after a source has been handed in. It stays as it is if the source does not
    compile. -/
def submit (r : Registry) (s : Submission) : Registry :=
  match r.append s.ruleId s.group s.source with
  | .ok r => r
  | .error _ => r

/-- The registry after several sources have been handed in. -/
def submitAll (r : Registry) (l : List Submission) : Registry := l.foldl submit r

theorem submitAll_cons (r : Registry) (s : Submission) (l : List Submission) :
    r.submitAll (s :: l) = (r.submit s).submitAll l := rfl

theorem append_eq_ok {r r' : Registry} {ruleId group source : Text} :
    r.append ruleId group source = .ok r' ↔
      ∃ t, TagScript.compile ruleId group source = .ok t ∧ r.put t = r' :=
  Except.map_eq_ok

theorem append_eq_error {r : Registry} {ruleId group source : Text} {cause : Script.Error} :
    r.append ruleId group source = .error cause ↔
      TagScript.compile ruleId group source = .error cause :=
  Except.map_eq_error

theorem submit_of_append_eq_ok {r r' : Registry} {s : Submission}
    (h : r.append s.ruleId s.group s.source = .ok r') : r.submit s = r' := by
  rw [submit, h]

theorem submit_of_append_eq_error {r : Registry} {s : Submission} {cause : Script.Error}
    (h : r.append s.ruleId s.group s.source = .error cause) : r.submit s = r := by
  rw [submit, h]

theorem submit_of_script? (r : Registry) {s : Submission} {t : TagScript}
    (h : s.script? = some t) : r.submit s = r.put t :=
  submit_of_append_eq_ok (append_eq_ok.mpr ⟨t, Except.eq_ok_of_toOption h, rfl⟩)

theorem submit_of_not_compiles (r : Registry) {s : Submission} (h : s.compiles = false) :
    r.submit s = r := by
  unfold Submission.compiles Submission.script? at h
  cases hs : TagScript.compile s.ruleId s.group s.source with
  | ok t =>
    rw [hs] at h
    exact nomatch h
  | error cause => exact submit_of_append_eq_error (append_eq_error.mpr hs)

/-- The scripts of other rules stay where they are. -/
theorem get?_submit_of_ne (r : Registry) {s : Submission} {ruleId : Text} (h : s.ruleId ≠ ruleId)
    (group : Text) : (r.submit s).get? ruleId group = r.get? ruleId group := by
  cases hs : s.compiles with
  | false => rw [submit_of_not_compiles r hs]
  | true =>
    obtain ⟨t, ht⟩ := Option.isSome_iff_exists.mp hs
    rw [submit_of_script? r ht]
    refine get?_put_of_ne r t ?_
    rw [TagScript.isFor, (Submission.of_script? ht).1, beq_eq_false_iff_ne.mpr h, Bool.false_and]

theorem get?_submitAll_of_ne (r : Registry) {l : List Submission} {ruleId : Text}
    (h : ∀ s ∈ l, s.ruleId ≠ ruleId) (group : Text) :
    (r.submitAll l).get? ruleId group = r.get? ruleId group := by
  induction l generalizing r with
  | nil => rfl
  | cons s l ih =>
    obtain ⟨hs, hl⟩ := List.forall_mem_cons.mp h
    exact (ih (r.submit s) hl).trans (get?_submit_of_ne r hs group)

/-- A script takes the place of the one that was found there, or a place of its own. -/
theorem size_put (r : Registry) (t : TagScript) :
    (r.put t).size = if (r.get? t.ruleId t.group).isSome then r.size else r.size + 1 := by
  obtain ⟨ts⟩ := r
  simp only [put, size, get?]
  induction ts with
  | nil => rfl
  | cons u ts ih =>
    by_cases hu : u.isFor t.ruleId t.group = true
    · simp only [putIn, List.find?_cons, hu, if_true, Option.isSome_some, List.length_cons]
    · simp only [putIn, List.find?_cons, hu, Bool.false_eq_true, if_false, List.length_cons, ih]
      exact apply_ite (· + 1) _ _ _

/-! ## What the registry holds -/

/-- A registry holds the sources of a list, each of which compiles: it finds the script compiled from
    the last one for a group, and it has as many scripts as there are groups in the list. -/
structure Holds (r : Registry) (l : List Submission) : Prop where
  compiles : ∀ s ∈ l, s.compiles = true
  get?_eq : ∀ ruleId group,
    r.get? ruleId group = (Submission.lastFor? l ruleId group).bind Submission.script?
  size_eq : r.size = (l.map Submission.place).toFinset.card

theorem holds_empty : Holds .empty [] := ⟨nofun, fun _ _ => rfl, rfl⟩

/-- A script is found for a group exactly if a source for it has been accepted. -/
theorem Holds.get?_isSome {r : Registry} {l : List Submission} (h : r.Holds l)
    {ruleId group : Text} :
    (r.get? ruleId group).isSome = true ↔ (ruleId, group) ∈ l.map Submission.place := by
  rw [h.get?_eq, ← Submission.lastFor?_isSome]
  constructor
  · intro hsome
    obtain ⟨t, ht⟩ := Option.isSome_iff_exists.mp hsome
    obtain ⟨s, hs, -⟩ := Option.bind_eq_some_iff.mp ht
    exact Option.isSome_iff_exists.mpr ⟨s, hs⟩
  · intro hlast
    obtain ⟨s, hs⟩ := Option.isSome_iff_exists.mp hlast
    rw [hs, Option.bind_some]
    exact h.compiles s (List.mem_reverse.mp (List.mem_of_find?_eq_some hs))

/-- One more source that compiles. -/
theorem Holds.submit {r : Registry} {l : List Submission} (h : r.Holds l) {s : Submission}
    (hs : s.compiles = true) : (r.submit s).Holds (l ++ [s]) := by
  obtain ⟨t, ht⟩ := Option.isSome_iff_exists.mp hs
  obtain ⟨hid, hgroup⟩ := Submission.of_script? ht
  rw [submit_of_script? r ht]
  constructor
  · exact List.forall_mem_append.mpr ⟨h.compiles, List.forall_mem_singleton.mpr hs⟩
  · intro ruleId group
    rw [Submission.lastFor?_concat]
    by_cases hplace : s.place = (ruleId, group)
    · rw [if_pos hplace, Option.bind_some, ht]
      obtain ⟨rfl, rfl⟩ := Prod.mk.inj hplace
      rw [← hid, ← hgroup]
      exact get?_put_self r t
    · rw [if_neg hplace, ← h.get?_eq]
      refine get?_put_of_ne r t (Bool.eq_false_iff.mpr fun hfor => hplace ?_)
      rw [TagScript.isFor, hid, hgroup, Bool.and_eq_true, beq_iff_eq, beq_iff_eq] at hfor
      exact Prod.ext hfor.1 hfor.2
  · have hfound : (r.get? t.ruleId t.group).isSome = true ↔ s.place ∈ l.map Submission.place := by
      rw [hid, hgroup]
      exact h.get?_isSome
    rw [size_put, h.size_eq, List.map_append, List.map_singleton, List.toFinset_append,
      List.toFinset_cons, List.toFinset_nil, insert_empty_eq]
    by_cases hmem : s.place ∈ l.map Submission.place
    · rw [if_pos (hfound.mpr hmem), Finset.union_eq_left.mpr]
      rwa [Finset.singleton_subset_iff, List.mem_toFinset]
    · rw [if_neg (hfound.not.mpr hmem), Finset.card_union_of_disjoint, Finset.card_singleton]
      rwa [Finset.disjoint_singleton_right, List.mem_toFinset]

/-- Several more sources that compile. -/
theorem Holds.submitAll {r : Registry} {l : List Submission} (h : r.Holds l) {m : List Submission}
    (hm : ∀ s ∈ m, s.compiles = true) : (r.submitAll m).Holds (l ++ m) := by
  induction m generalizing r l with
  | nil =>
    rw [List.append_nil]
    exact h
  | cons s m ih =>
    obtain ⟨hs, hm⟩ := List.forall_mem_cons.mp hm
    rw [List.append_cons]
    exact ih (h.submit hs) hm

end Registry

end TimePhrase
