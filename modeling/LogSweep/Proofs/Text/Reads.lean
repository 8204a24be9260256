import LogSweep.Text.Bytes

/-!
# Reads that can fail

A range of a text is read only when it lies in the text, a piece of a string is cut out only when
the cuts split no character besides, and a number is taken only from one that is not smaller. Where
the library takes what there is, these give nothing, so that a computation written with them tells
whether every one of its steps is in order.
-/

namespace LogSweep

/-- The difference of two numbers; `none` when the second one is larger. -/
def minus? (a b : Nat) : Option Nat :=
  if b ≤ a then some (a - b) else none

theorem minus?_eq {a b : Nat} (h : b ≤ a) : minus? a b = some (a - b) :=
  if_pos h

namespace Bytes

/-- The bytes in a range; `none` when the range is reversed or reaches beyond the text. -/
def range? (text : Bytes) (s : Span) : Option Bytes :=
  if s.start ≤ s.stop ∧ s.stop ≤ text.length then some (text.slice s) else none

/-- The bytes in a range whose ends split no character; `none` for any other range. -/
def cut? (text : Bytes) (s : Span) : Option Bytes :=
  if isBoundary text.toArray s.start && isBoundary text.toArray s.stop then text.range? s else none

/-- Whether the byte right before an offset satisfies `p`. Before the first one there is none. -/
def precededBy? (p : UInt8 → Bool) (text : Bytes) (offset : Nat) : Option Bool :=
  if 0 < offset then do
    let b ← text[offset - 1]?
    return p b
  else some false

variable {text : Bytes} {start stop : Nat}

/-- A range within the text can be read. -/
theorem range?_eq (hle : start ≤ stop) (hstop : stop ≤ text.length) :
    text.range? ⟨start, stop⟩ = some ((text.drop start).take (stop - start)) :=
  if_pos ⟨hle, hstop⟩

/-- So can everything from an offset on. -/
theorem range?_end (h : start ≤ text.length) :
    text.range? ⟨start, text.length⟩ = some (text.drop start) := by
  rw [range?_eq h (Nat.le_refl _), List.take_of_length_le (Nat.le_of_eq List.length_drop)]

/-- The middle one of three texts can be read. -/
theorem range?_middle (a b c : Bytes) :
    range? (a ++ b ++ c) ⟨a.length, (a ++ b).length⟩ = some b := by
  rw [range?_eq (by simp) (by simp), List.append_assoc, List.drop_left, List.length_append,
    Nat.add_sub_cancel_left, List.take_left]

/-- Where no character is split a cut is a range. -/
theorem cut?_eq_range? (hstart : isBoundary text.toArray start = true)
    (hstop : isBoundary text.toArray stop = true) :
    text.cut? ⟨start, stop⟩ = text.range? ⟨start, stop⟩ := by
  simp [cut?, hstart, hstop]

/-- The byte before an offset can be read. -/
theorem precededBy?_append (p : UInt8 → Bool) (a b : Bytes) :
    precededBy? p (a ++ b) a.length = some (a.getLast?.any p) := by
  rcases List.eq_nil_or_concat a with rfl | ⟨init, x, rfl⟩
  · rfl
  · have hbyte : (init ++ [x] ++ b)[(init ++ [x]).length - 1]? = some x := by simp
    rw [List.concat_eq_append, precededBy?, if_pos (by simp), hbyte, List.getLast?_concat]
    rfl

/-- A text ends at a boundary. -/
theorem isBoundary_length (text : Bytes) : isBoundary text.toArray text.length = true := by
  simp [isBoundary]

/-- A cut in front of a byte that begins a character splits none. -/
theorem isBoundary_before (a rest : Bytes) {b : UInt8} (h : Byte.isContinuation b = false) :
    isBoundary (a ++ b :: rest).toArray a.length = true := by
  simp [isBoundary, h]

end Bytes

end LogSweep
