import TimePhrase.Pattern.Automaton.ByteRange
import TimePhrase.Pattern.Automaton.Slots
import TimePhrase.Pattern.Automaton.Tally

/-!
# States for one character

The states with which an automaton reads one character of a set. States with the same transitions
are built once, as far as a table of limited size remembers them: a state is forgotten when another
one falls into its slot.

* `Tally.addForward`, `Tally.addBackward`  count the states of a set
-/

namespace TimePhrase

/-- A transition of a state: the bytes, and the number of the next state. -/
structure Edge where
  bytes : ByteRange
  next : Nat
deriving DecidableEq

namespace Edge

/-- Mixes one more number into a hash. -/
def mix (h : UInt64) (n : Nat) : UInt64 := (h ^^^ n.toUInt64) * 1099511628211

/-- The hash of nothing. -/
def hashBasis : UInt64 := 14695981039346656037

/-- The hash of the edges of a state. -/
def hashAll (es : List Edge) : UInt64 :=
  es.foldl (fun h e => mix (mix (mix h e.bytes.lo) e.bytes.hi) e.next) hashBasis

/-- The hash of an edge by itself. -/
def hash (e : Edge) : UInt64 := mix (mix (mix hashBasis e.next) e.bytes.lo) e.bytes.hi

end Edge

/-- States under construction: the tally, and the states that are remembered with their numbers. -/
structure Sharing (α : Type) where
  tally : Tally
  known : Slots (α × Nat)

namespace Sharing

/-- The number of the state for `key`, which is built with `build` if it is not remembered. -/
def state {α : Type} [DecidableEq α] (w : Sharing α) (slot : Nat) (key : α)
    (build : Tally → Tally) : Nat × Sharing α :=
  let fresh := (w.tally.states, ⟨build w.tally, w.known.put slot (key, w.tally.states)⟩)
  match w.known.get? slot with
  | some (k, n) => if k = key then (n, w) else fresh
  | none => fresh

end Sharing

namespace Tally

/-! ## Reading forward -/

/-- Sequences grouped by the ranges that they begin with, neighbours only. -/
def byFirst : List (List ByteRange) → List (ByteRange × List (List ByteRange))
  | [] => []
  | [] :: r => byFirst r
  | (b :: s) :: r =>
    match byFirst r with
    | (c, tails) :: g => if b = c then (c, (s :: tails)) :: g else (b, [s]) :: (c, tails) :: g
    | [] => [(b, [s])]

/-- The number of slots that remember states when reading forward. -/
def forwardSlots : Nat := 10000

/-- Builds the state that reads one of some sequences and goes on to `target`; what the sequences
    have in common at their ends is built once. `fuel` bounds their length. -/
def forwardState (target : Nat) :
    Nat → Sharing (List Edge) → List (List ByteRange) → Nat × Sharing (List Edge)
  | 0, w, _ => (target, w)
  | fuel + 1, w, seqs =>
    let (edges, w) := (byFirst seqs).foldl
      (fun (edges, w) (bytes, tails) =>
        if tails.all List.isEmpty then (⟨bytes, target⟩ :: edges, w)
        else
          let (next, w) := forwardState target fuel w tails
          (⟨bytes, next⟩ :: edges, w))
      ([], w)
    let edges := edges.reverse
    w.state ((Edge.hashAll edges).toNat % forwardSlots) edges (·.addTransitions edges.length)

/-- Whether the set has no characters beyond one byte. -/
def isOneByte (s : CharSet) : Bool := s.ranges.all (·.2 ≤ 0x7F)

/-- Adds the states that read one character of a set forward: the state to end with comes first. -/
def addForward (t : Tally) (s : CharSet) : Tally :=
  if isOneByte s then (t.addStates 1).addTransitions s.ranges.length
  else (forwardState t.states 5 ⟨t.addStates 1, .empty⟩ (ByteRange.sequences s)).2.tally

/-! ## Reading backward -/

/-- The number of slots that remember states when reading backward. -/
def backwardSlots : Nat := 1000

/-- Builds the states that read one sequence from its end, beginning with the last one. -/
def addSequence (target : Nat) (w : Sharing Edge) (seq : List ByteRange) : Sharing Edge :=
  (seq.foldl
    (fun (next, w) bytes =>
      let edge : Edge := ⟨bytes, next⟩
      w.state (edge.hash.toNat % backwardSlots) edge (·.addStates 1))
    (target, w)).2

/-- Adds the states that read one character of a set backward. A state with one alternative for
    each sequence comes first, and then the one to end with. -/
def addBackward (t : Tally) (s : CharSet) : Tally :=
  if isOneByte s then (t.addStates 1).addTransitions s.ranges.length
  else
    let seqs := ByteRange.sequences s
    let t := (t.addAlternatives seqs.length).addStates 1
    (seqs.foldl (addSequence (t.states - 1)) ⟨t, .empty⟩).tally

end Tally

end TimePhrase
