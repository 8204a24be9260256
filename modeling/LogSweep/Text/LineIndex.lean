import LogSweep.Text.Lines

/-!
# Line index

The offsets at which the lines of a text start, collected in one pass, so that the line of any
offset is found by halving the table again and again.
-/

namespace LogSweep

/-- Where a number stands in an increasing table: at an index, or right in front of one. -/
inductive Rank where
  | hit (index : Nat)
  | gap (index : Nat)
  deriving DecidableEq, Repr, Inhabited

/-- How many numbers of the table come up to the one looked up. -/
def Rank.reached : Rank → Nat
  | .hit index => index + 1
  | .gap index => index

/-- Looks a number up between two indices of an increasing table. -/
def bisect (table : Array Nat) (x low high : Nat) (h : high ≤ table.size) : Rank :=
  if hlt : low < high then
    let middle := low + (high - low) / 2
    have hmiddle : middle < table.size := by omega
    if table[middle] = x then .hit middle
    else if table[middle] < x then bisect table x (middle + 1) high h
    else bisect table x low middle (Nat.le_of_lt hmiddle)
  else .gap low
termination_by high - low

/-- The line starts of a text that begins at `offset`, behind those found so far. -/
def lineStarts (found : Array Nat) (offset : Nat) : Bytes → Array Nat
  | [] => found
  | b :: text =>
    lineStarts (if b == Byte.newline then found.push (offset + 1) else found) (offset + 1) text

/-- The table keeps its first entry: the first line starts with the text. -/
theorem first_lineStarts {found : Array Nat} (h : found[0]? = some 0) (offset : Nat)
    (text : Bytes) : (lineStarts found offset text)[0]? = some 0 := by
  induction text generalizing found offset with
  | nil => exact h
  | cons b text ih =>
    refine ih ?_ _
    split
    · have hpos := (Array.getElem?_eq_some_iff.1 h).1
      rw [Array.getElem?_push, if_neg (Nat.ne_of_lt hpos), h]
    · exact h

/-- Starts are found in increasing order. -/
theorem increasing_lineStarts {found : Array Nat} {offset : Nat}
    (h : found.toList.Pairwise (· < ·)) (hle : ∀ start ∈ found.toList, start ≤ offset)
    (text : Bytes) : (lineStarts found offset text).toList.Pairwise (· < ·) := by
  induction text generalizing found offset with
  | nil => exact h
  | cons b text ih =>
    rw [lineStarts]
    split
    · refine ih ?_ ?_
      · rw [Array.toList_push, List.pairwise_append]
        refine ⟨h, List.pairwise_singleton _ _, fun start hstart next hnext => ?_⟩
        rw [List.mem_singleton.1 hnext]
        exact Nat.lt_succ_of_le (hle start hstart)
      · rw [Array.toList_push, List.forall_mem_append, List.forall_mem_singleton]
        exact ⟨fun start hstart => Nat.le_succ_of_le (hle start hstart), Nat.le_refl _⟩
    · exact ih h fun start hstart => Nat.le_succ_of_le (hle start hstart)

/-- The offsets at which lines start. -/
structure LineIndex where
  starts : Array Nat
  /-- The first line starts at the beginning. -/
  first : starts[0]? = some 0
  increasing : starts.toList.Pairwise (· < ·)

namespace LineIndex

/-- The index of a text. -/
def ofText (text : Bytes) : LineIndex where
  starts := lineStarts #[0] 0 text
  first := first_lineStarts rfl 0 text
  increasing := increasing_lineStarts (List.pairwise_singleton _ _) (by simp) text

/-- The number of lines. -/
def count (index : LineIndex) : Nat :=
  index.starts.size

/-- The line that the offset lies on, counted from one. -/
def line (index : LineIndex) (offset : Nat) : Nat :=
  (bisect index.starts offset 0 index.starts.size (Nat.le_refl _)).reached

end LineIndex

end LogSweep
