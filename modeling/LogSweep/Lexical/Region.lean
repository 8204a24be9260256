import LogSweep.Lexical.Scan

/-!
# Regions

The comments and literals of a text as ranges of offsets, in the order of the text. What no region
covers is code, and so is everything beyond the end.
-/

namespace LogSweep.Lexical

/-- A comment or literal, delimiters included. -/
structure Region where
  kind : Kind
  span : Span
  deriving DecidableEq, Repr, Inhabited

/-- Lengthens the latest region by one byte. -/
def Region.extend : List Region → List Region
  | [] => []
  | r :: rs => { r with span.stop := r.span.stop + 1 } :: rs

/-- Collects the regions of the cells that start at `offset`, with those found so far, latest
first. -/
def regionsFrom (offset : Nat) (found : List Region) : List Cell → List Region
  | [] => found.reverse
  | c :: cells =>
    match c.mark with
    | .code => regionsFrom (offset + 1) found cells
    | .opening kind => regionsFrom (offset + 1) (⟨kind, ⟨offset, offset + 1⟩⟩ :: found) cells
    | .inside _ => regionsFrom (offset + 1) (Region.extend found) cells

/-- The comments and literals of a text. -/
def regions (text : Bytes) : List Region :=
  regionsFrom 0 [] (scan text)

/-- The region that covers the offset, if any. -/
def regionAt? (rs : List Region) (offset : Nat) : Option Region :=
  rs.find? (·.span.contains offset)

end LogSweep.Lexical
