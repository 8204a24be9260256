import LogSweep.Text.Bytes

/-!
# Edits

An edit replaces a range of a text. A batch of edits addresses one unchanged text; it is accepted
when every edit lies in the text, splits no character and overlaps no other edit, and it is then
applied in one pass in the order of the text. Insertions at one place keep the order of the batch.
-/

namespace LogSweep

/-- The replacement of a range of a text. -/
structure Edit where
  start : Nat
  stop : Nat
  replacement : Bytes
  deriving DecidableEq, Repr, Inhabited

namespace Edit

/-- Whether two edits have a byte in common, or one inserts strictly inside the other. -/
def overlaps (a b : Edit) : Bool :=
  a.start < b.stop && b.start < a.stop

/-- Why a batch of edits is refused; edits are named by their place in the batch. -/
inductive Fault where
  | overlapping (first second : Nat)
  | outOfBounds (index start stop length : Nat)
  | splitsCharacter (index : Nat)
  deriving DecidableEq, Repr, Inhabited

def Fault.message : Fault → String
  | .overlapping a b => s!"overlapping edits at indices {a} and {b}"
  | .outOfBounds i a b n => s!"edit {i} out of bounds: {a}..{b} in source of length {n}"
  | .splitsCharacter i => s!"edit {i} does not fall on a character boundary"

/-- What is wrong with an edit by itself. -/
def fault? (text : Array UInt8) (index : Nat) (e : Edit) : Option Fault :=
  if e.stop < e.start || text.size < e.stop then
    some (.outOfBounds index e.start e.stop text.size)
  else if !Bytes.isBoundary text e.start || !Bytes.isBoundary text e.stop then
    some (.splitsCharacter index)
  else none

/-- The order of the text: by start, then by end. -/
def before (a b : Edit) : Bool :=
  a.start < b.start || a.start == b.start && a.stop ≤ b.stop

/-- The first two neighbours that overlap. -/
def clash? : List (Edit × Nat) → Option Fault
  | (a, i) :: (b, j) :: rest =>
    if a.overlaps b then some (.overlapping (min i j) (max i j)) else clash? ((b, j) :: rest)
  | _ => none

/-- The first fault of a batch: edits that are wrong by themselves come first, in the order of the
batch, then overlaps, in the order of the text. -/
def firstFault? (text : Bytes) (edits : List Edit) : Option Fault :=
  let bytes := text.toArray
  let numbered := edits.zipIdx
  match numbered.findSome? fun (e, i) => fault? bytes i e with
  | some fault => some fault
  | none => clash? (numbered.mergeSort fun a b => before a.1 b.1)

/-- Writes a text out with edits in its order; the text given starts at `offset`. -/
def splice (offset : Nat) (text : Bytes) : List Edit → Bytes
  | [] => text
  | e :: edits =>
    text.take (e.start - offset) ++
      (e.replacement ++ splice e.stop (text.drop (e.stop - offset)) edits)

/-- Applies a batch of edits to a text. -/
def apply (text : Bytes) (edits : List Edit) : Except Fault Bytes :=
  match firstFault? text edits with
  | some fault => .error fault
  | none => .ok (splice 0 text (edits.mergeSort before))

end Edit

end LogSweep
