import TimePhrase.Text.CharTable

/-!
# Maps between characters by ranges

A case mapping of a standard sends each character of a range, or every second one, to the
character a fixed distance away.
-/

namespace TimePhrase

/-- The characters `first`, `first + step`, … up to `last` are sent `offset` code points away. -/
structure CaseRun where
  first : Nat
  last : Nat
  step : Nat
  offset : Int

/-- Ascending, disjoint runs. -/
abbrev CaseMap := List CaseRun

namespace CaseRun

/-- Whether a code point is one of the sources of the run. -/
def holds (r : CaseRun) (n : Nat) : Bool :=
  r.first ≤ n && n ≤ r.last && (n - r.first) % r.step == 0

/-- The source of the run that is sent to `n`, if there is one. -/
def source? (r : CaseRun) (n : Nat) : Option Nat :=
  let m := (n - r.offset : Int).toNat
  if r.holds m then some m else none

/-- The sources of the run from `lo` to `hi`, as ranges. -/
def within (r : CaseRun) (lo hi : Int) : CharTable :=
  let hi := min (r.last : Int) hi
  -- The first source that is not below `lo`.
  let steps := (lo - r.first + r.step - 1) / r.step
  let lo := r.first + max 0 steps * r.step
  if hi < lo then []
  else if r.step = 1 then [(lo.toNat, hi.toNat)]
  else (List.range (((hi - lo) / r.step).toNat + 1)).map fun k =>
    (lo.toNat + k * r.step, lo.toNat + k * r.step)

/-- The code points that the sources in a table are sent to. -/
def images (r : CaseRun) (t : CharTable) : CharTable :=
  t.flatMap fun q =>
    (r.within q.1 q.2).map fun q => ((q.1 + r.offset).toNat, (q.2 + r.offset).toNat)

/-- The sources that are sent to a code point in a table. -/
def sources (r : CaseRun) (t : CharTable) : CharTable :=
  t.flatMap fun q => r.within (q.1 - r.offset) (q.2 - r.offset)

end CaseRun

namespace CaseMap

/-- The code point that `n` is sent to; outside the runs, `n` itself. -/
def applyTo : CaseMap → Nat → Nat
  | [], n => n
  | r :: rs, n =>
    if n < r.first then n
    else if r.holds n then (n + r.offset : Int).toNat
    else applyTo rs n

/-- The code points, other than fixed ones, that are sent to `n`. -/
def sources (m : CaseMap) (n : Nat) : List Nat := m.filterMap (·.source? n)

end CaseMap

end TimePhrase
