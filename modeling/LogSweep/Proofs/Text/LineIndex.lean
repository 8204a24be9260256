import LogSweep.Proofs.Sorted
import LogSweep.Text.LineIndex
import Mathlib.Algebra.Order.Interval.Finset.SuccPred
import Mathlib.Data.Nat.SuccPred
import Mathlib.Order.Interval.Finset.Nat

/-!
# The line index counts newlines

A line starts behind every newline, and the first one with the text. So the number of line starts up
to an offset is one more than the number of newlines before it (`countP_lineStarts`). Looking the
offset up gives that number whether it is found or not (`bisect_separates`), because the table is
increasing: an offset that is found is itself the last start that counts, and one that is not found
would be put right behind it.
-/

namespace LogSweep

/-! ## Counting positions -/

/-- The positions of a stretch at which a value stands are as many as its occurrences there. -/
theorem card_positions {α : Type} [DecidableEq α] (l : List α) (x : α) (start n : Nat) :
    ((Finset.Ico start (start + n)).filter fun i => l[i]? = some x).card =
      ((l.drop start).take n).count x := by
  induction n with
  | zero => simp
  | succ n ih =>
    rw [← Nat.add_assoc, ← Finset.insert_Ico_right_eq_Ico_add_one (Nat.le_add_right start n),
      Finset.filter_insert, List.take_add_one, List.count_append, List.getElem?_drop, ← ih]
    cases l[start + n]? with
    | none => simp
    | some y =>
      by_cases hy : y = x
      · simp [hy]
      · simp [hy]

/-! ## Looking a number up -/

/-- The numbers of a table that come up to `x` are the first `k`. -/
structure Separates (table : Array Nat) (x k : Nat) : Prop where
  le : k ≤ table.size
  reached : ∀ {j y : Nat}, table[j]? = some y → (y ≤ x ↔ j < k)

/-- A place that separates the table counts the entries before it. -/
theorem Separates.countP_eq {table : Array Nat} {x k : Nat} (h : Separates table x k) :
    table.toList.countP (· ≤ x) = k := by
  have hfront : ∀ y ∈ table.toList.take k, y ≤ x := by
    intro y hy
    obtain ⟨j, hj⟩ := List.getElem?_of_mem hy
    rw [List.getElem?_take, Array.getElem?_toList] at hj
    split at hj
    · next hlt => exact (h.reached hj).2 hlt
    · cases hj
  have hback : ∀ y ∈ table.toList.drop k, ¬ y ≤ x := by
    intro y hy hle
    obtain ⟨j, hj⟩ := List.getElem?_of_mem hy
    rw [List.getElem?_drop, Array.getElem?_toList] at hj
    have := (h.reached hj).1 hle
    omega
  rw [← List.take_append_drop k table.toList, List.countP_append,
    List.countP_eq_length.2 (by simpa using hfront), List.countP_eq_zero.2 (by simpa using hback)]
  simpa using h.le

section
variable {table : Array Nat} (hinc : table.toList.Pairwise (· < ·))
include hinc

/-- Looking a number up tells how many numbers come up to it, as long as those in front of the
stretch that is left are smaller and those behind it are larger. -/
theorem bisect_separates {x low high : Nat} (h : high ≤ table.size) (hle : low ≤ high)
    (hlow : ∀ {j y : Nat}, table[j]? = some y → j < low → y < x)
    (hhigh : ∀ {j y : Nat}, table[j]? = some y → high ≤ j → x < y) :
    Separates table x (bisect table x low high h).reached := by
  fun_induction bisect table x low high h with
  | case1 low high h hlt middle hmiddle heq =>
    refine ⟨hmiddle, fun {j y} hy => ?_⟩
    have hx : table[middle]? = some x := Array.getElem?_eq_some_iff.2 ⟨hmiddle, heq⟩
    rw [← Nat.not_lt, Sorted.lt_iff_of_increasing hinc hx hy]
    exact Nat.not_lt.trans Nat.lt_succ_iff.symm
  | case2 low high h hlt middle hmiddle hne hless ih =>
    refine ih (by omega) (fun {j y} hy hj => ?_) hhigh
    have hx := Array.getElem?_eq_getElem hmiddle
    have := mt (Sorted.lt_iff_of_increasing hinc hx hy).1 (by omega)
    omega
  | case3 low high h hlt middle hmiddle hne hmore ih =>
    refine ih (by omega) hlow fun {j y} hy hj => ?_
    have hx := Array.getElem?_eq_getElem hmiddle
    have := mt (Sorted.lt_iff_of_increasing hinc hy hx).1 (by omega)
    omega
  | case4 low high h hlt =>
    refine ⟨Nat.le_trans hle h, fun {j y} hy => ⟨fun hyx => ?_, fun hj => ?_⟩⟩
    · show j < low
      by_contra hj
      exact absurd (hhigh hy (by omega)) (Nat.not_lt.2 hyx)
    · exact Nat.le_of_lt (hlow hy hj)

end

namespace LineIndex

/-! ## Every index -/

section
variable (index : LineIndex)

/-- The line of an offset is the number of line starts up to it. -/
theorem line_eq_countP (offset : Nat) :
    index.line offset = index.starts.toList.countP (· ≤ offset) := by
  have hsep : Separates index.starts offset (index.line offset) := by
    refine bisect_separates index.increasing _ (Nat.zero_le _) (fun _ hj => absurd hj ?_) ?_
    · exact Nat.not_lt_zero _
    · intro j y hy hj
      exact absurd (Array.getElem?_eq_some_iff.1 hy).1 (Nat.not_lt.2 hj)
  exact hsep.countP_eq.symm

/-- Lines are counted from one. -/
theorem one_le_line (offset : Nat) : 1 ≤ index.line offset := by
  have hmem : 0 ∈ index.starts.toList :=
    List.mem_of_getElem? (by rw [Array.getElem?_toList]; exact index.first)
  rw [line_eq_countP, Nat.one_le_iff_ne_zero, ← Nat.pos_iff_ne_zero, List.countP_pos_iff]
  exact ⟨0, hmem, by simp⟩

/-- Later offsets lie on later lines. -/
theorem line_le_line {m n : Nat} (h : m ≤ n) : index.line m ≤ index.line n := by
  rw [line_eq_countP, line_eq_countP]
  refine List.countP_mono_left fun start _ hstart => ?_
  simp only [decide_eq_true_eq] at hstart ⊢
  exact Nat.le_trans hstart h

/-- No offset lies behind the last line. -/
theorem line_le_count (offset : Nat) : index.line offset ≤ index.count := by
  rw [line_eq_countP, count, ← Array.length_toList]
  exact List.countP_le_length

end

end LineIndex

/-! ## The index of a text -/

/-- Of the line starts that are collected, those behind a newline before `x` come up to it. -/
theorem countP_lineStarts (found : Array Nat) (offset : Nat) (text : Bytes) (x : Nat) :
    (lineStarts found offset text).toList.countP (· ≤ x) =
      found.toList.countP (· ≤ x) + (text.take (x - offset)).count Byte.newline := by
  induction text generalizing found offset with
  | nil => rw [lineStarts, List.take_nil, List.count_nil, Nat.add_zero]
  | cons b text ih =>
    rw [lineStarts, ih]
    rcases Nat.lt_or_ge offset x with hlt | hge
    · have hsucc : x - offset = x - (offset + 1) + 1 := by omega
      rw [hsucc, List.take_succ_cons]
      by_cases hb : b = Byte.newline
      · -- the start behind this newline comes up to `x`
        have hnew : [offset + 1].countP (· ≤ x) = 1 := List.countP_eq_length.2 (by simpa using hlt)
        rw [hb, beq_self_eq_true, if_pos rfl, Array.toList_push, List.countP_append, hnew,
          List.count_cons_self]
        omega
      · rw [if_neg (by simpa using hb), List.count_cons_of_ne hb]
    · -- nothing is left to count, and what starts behind `offset` starts behind `x`
      have hnone : x - offset = 0 ∧ x - (offset + 1) = 0 := by omega
      rw [hnone.1, hnone.2, List.take_zero, List.take_zero]
      split
      · have hnew : [offset + 1].countP (· ≤ x) = 0 := List.countP_eq_zero.2 (by simpa using hge)
        rw [Array.toList_push, List.countP_append, hnew, Nat.add_zero]
      · rfl

/-- Every newline adds a line. -/
theorem size_lineStarts (found : Array Nat) (offset : Nat) (text : Bytes) :
    (lineStarts found offset text).size = found.size + text.count Byte.newline := by
  induction text generalizing found offset with
  | nil => rw [lineStarts, List.count_nil, Nat.add_zero]
  | cons b text ih =>
    rw [lineStarts, ih]
    by_cases hb : b = Byte.newline
    · rw [hb, beq_self_eq_true, if_pos rfl, Array.size_push, List.count_cons_self]
      omega
    · rw [if_neg (by simpa using hb), List.count_cons_of_ne hb]

namespace LineIndex

/-- The table gives the line that the newlines before an offset count. -/
theorem line_ofText (text : Bytes) (offset : Nat) :
    (ofText text).line offset = lineNumber text offset := by
  rw [line_eq_countP, ofText, countP_lineStarts]
  rfl

/-- The table gives the number of lines. -/
theorem count_ofText (text : Bytes) : (ofText text).count = lineCount text := by
  rw [count, ofText, size_lineStarts]
  rfl

/-- The line of an offset is one more than the number of newlines at smaller positions, wherever the
offset lies. So it is at least one, and it grows with the offset up to the number of lines, which is
the line of the end of the text. Behind a text the lines of the next one are counted on. -/
theorem line_counts_newlines (text : Bytes) :
    let index := ofText text
    (∀ offset, index.line offset =
      1 + ((Finset.range offset).filter fun i => text[i]? = some Byte.newline).card) ∧
    (∀ offset, 1 ≤ index.line offset ∧ index.line offset ≤ index.count) ∧
    (∀ m n, m ≤ n → index.line m ≤ index.line n) ∧
    index.line text.length = index.count ∧
    ∀ (more : Bytes) (k : Nat), (ofText (text ++ more)).line (text.length + k) =
      (ofText (text ++ more)).line text.length + (ofText more).line k - 1 := by
  intro index
  refine ⟨fun offset => ?_, fun offset => ⟨index.one_le_line offset, index.line_le_count offset⟩,
    fun m n => index.line_le_line, ?_, fun more k => ?_⟩
  · have hcard := card_positions text Byte.newline 0 offset
    rw [Nat.zero_add, List.drop_zero, ← Finset.range_eq_Ico] at hcard
    rw [hcard]
    exact line_ofText text offset
  · rw [line_ofText, count_ofText, lineNumber, List.take_length]
    rfl
  · simp only [line_ofText, lineNumber, List.take_length_add_append, List.take_left,
      List.count_append]
    omega

end LineIndex

end LogSweep
