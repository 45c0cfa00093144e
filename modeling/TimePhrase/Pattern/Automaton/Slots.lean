/-!
# Numbered slots

A table of a fixed number of slots, each of which holds what was put there last. A slot is found by
its number: from the root of a tree, odd numbers are to the left and even ones to the right.
-/

namespace TimePhrase

/-- Slots with values. -/
inductive Slots (α : Type) where
  | empty
  | node (here : Option α) (left right : Slots α)

namespace Slots

variable {α : Type}

/-- The value in a slot. -/
def get? : Slots α → Nat → Option α
  | .empty, _ => none
  | .node here left right, n =>
    if n = 0 then here else if n % 2 = 1 then left.get? (n / 2) else right.get? (n / 2 - 1)

/-- Puts a value into a slot. `fuel` bounds the depth of the tree. -/
def putFrom (a : α) : Nat → Slots α → Nat → Slots α
  | 0, t, _ => t
  | fuel + 1, t, n =>
    let (here, left, right) := match t with
      | .empty => (none, .empty, .empty)
      | .node here left right => (here, left, right)
    if n = 0 then .node (some a) left right
    else if n % 2 = 1 then .node here (putFrom a fuel left (n / 2)) right
    else .node here left (putFrom a fuel right (n / 2 - 1))

/-- Puts a value into a slot with a number below 65535. -/
def put (t : Slots α) (n : Nat) (a : α) : Slots α := putFrom a 16 t n

end Slots

end TimePhrase
