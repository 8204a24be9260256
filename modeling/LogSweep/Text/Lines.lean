import LogSweep.Text.Bytes

/-!
# Lines

Lines end after each newline byte and are counted from one.
-/

namespace LogSweep

/-- The line that the offset lies on; an offset beyond the end lies on the last line. -/
def lineNumber (text : Bytes) (offset : Nat) : Nat :=
  1 + (text.take offset).count Byte.newline

/-- The number of lines of a text; a trailing newline opens one more line. -/
def lineCount (text : Bytes) : Nat :=
  1 + text.count Byte.newline

/-- Cuts a text into lines, given the bytes of the current line and the lines so far, latest first.
-/
def linesFrom (line : Bytes) (done : List Bytes) : Bytes → List Bytes
  | [] => (if line.isEmpty then done else line.reverse :: done).reverse
  | b :: text =>
    if b == Byte.newline then linesFrom [] ((b :: line).reverse :: done) text
    else linesFrom (b :: line) done text

/-- The lines of a text, each with the newline that ends it; nothing follows the last newline. -/
def lines (text : Bytes) : List Bytes :=
  linesFrom [] [] text

end LogSweep
