/-!
# Sorted lists

In a sorted list, what is repeated stands side by side, and a number is found by halving.
-/

namespace LogSweep.Sorted

/-- Drops every element that has the same key as the one that was kept before it. -/
def dropRepeated [BEq β] (key : α → β) : List α → List α
  | [] => []
  | x :: xs => x :: go x xs
where
  go (previous : α) : List α → List α
    | [] => []
    | x :: xs => if key x == key previous then go previous xs else x :: go x xs

/-- Looks for a number among the `size` sorted numbers that start at `base`, halving the stretch. -/
def searchFrom (numbers : Array Nat) (n base size : Nat) : Bool :=
  if size ≤ 1 then
    numbers[base]? == some n
  else
    let half := size / 2
    let base := match numbers[base + half]? with
      | some m => if n < m then base else base + half
      | none => base
    searchFrom numbers n base (size - half)
termination_by size

/-- Whether a number is among sorted numbers. -/
def isAmong (numbers : Array Nat) (n : Nat) : Bool :=
  searchFrom numbers n 0 numbers.size

end LogSweep.Sorted
