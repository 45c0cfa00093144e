import TimePhrase.Pattern.Automaton.Tally

/-!
# States for a choice between words

Words between which there is a choice are read along a tree that is forked where they differ. A
word that ends at a fork is a choice before the words that go on, if it was listed before them.
-/

namespace TimePhrase.Tally

/-- The words at a fork that go on, in groups: a word that ends there closes a group, unless none
    has gone on so far and the first group is closed already. The last group is open. -/
def groups (words : List (List Nat)) : List (List (List Nat)) :=
  let step (acc : List (List (List Nat)) × List (List Nat)) (word : List Nat) :=
    let (closed, current) := acc
    if !word.isEmpty then (closed, word :: current)
    else if current.isEmpty && !closed.isEmpty && closed.all List.isEmpty then acc
    else (current.reverse :: closed, [])
  let (closed, current) := words.foldl step ([], [])
  (current.reverse :: closed).reverse

/-- The ends of words by their first bytes, in the order of the first words. -/
def byByte (words : List (List Nat)) : List (Nat × List (List Nat)) :=
  words.foldr
    (fun word found =>
      match word with
      | [] => found
      | b :: tail =>
        match found.find? (·.1 == b) with
        | some (_, tails) => (b, tail :: tails) :: found.filter (·.1 != b)
        | none => (b, [tail]) :: found)
    []

/-- Adds the states of a fork and of those behind it. `fuel` bounds the length of the words. -/
def addFork : Nat → Tally → List (List Nat) → Tally
  | 0, t, _ => t
  | fuel + 1, t, words =>
    let groups := (groups words).map byByte
    let used := groups.filter (!·.isEmpty)
    let t := used.foldl
      (fun t branches =>
        let t := if branches.length = 1 then t.addStates 1 else t.addTransitions branches.length
        branches.foldl
          (fun t branch =>
            if branch.2.all List.isEmpty then t else addFork fuel t branch.2)
          t)
      t
    -- Between two groups stands the end of the word that closed the first one.
    t.addAlternatives (used.length + (groups.length - 1))

/-- Adds the states of a choice between words, none of which is empty. -/
def addWords (t : Tally) (words : List (List Nat)) : Tally :=
  addFork ((words.map List.length).foldl max 0 + 1) (t.addStates 1) words

end TimePhrase.Tally
