import LogSweep.Text.Bytes

/-!
# Comments, literals and code

A source text is read from left to right by a scanner with a handful of modes. Each byte becomes a
cell that remembers whether the byte is code or belongs to a comment or a literal, and whether it
opens one. The scanner looks one byte ahead, only to tell a comment from a lone slash; everything
else follows from the mode. An unclosed comment or literal reaches to the end of the text.
-/

namespace LogSweep.Lexical

/-- What a stretch of text that is not code holds. -/
inductive Kind where
  | lineComment
  | blockComment
  | string
  | template
  deriving DecidableEq, Repr, Inhabited

/-- Comments, as opposed to literals. -/
def Kind.isComment : Kind → Bool
  | .lineComment | .blockComment => true
  | .string | .template => false

/-- The lexical role of one byte. -/
inductive Mark where
  /-- Ordinary code. -/
  | code
  /-- The first byte of a comment or literal. -/
  | opening (kind : Kind)
  /-- A later byte of a comment or literal. -/
  | inside (kind : Kind)
  deriving DecidableEq, Repr, Inhabited

/-- One byte of a source text with its lexical role. -/
structure Cell where
  byte : UInt8
  mark : Mark
  deriving DecidableEq, Repr, Inhabited

namespace Cell

/-- The kind of the comment or literal that the cell belongs to. -/
def kind? (c : Cell) : Option Kind :=
  match c.mark with
  | .code => none
  | .opening k => some k
  | .inside k => some k

def isCode (c : Cell) : Bool :=
  c.mark == .code

/-- Whether the cell continues a comment or literal that began before it. -/
def isInside (c : Cell) : Bool :=
  match c.mark with
  | .inside _ => true
  | _ => false

/-- Code other than white space. -/
def isSignificant (c : Cell) : Bool :=
  c.isCode && !Byte.isBlank c.byte

/-- What may stand between two tokens: comments, and white space in code. -/
def isGap (c : Cell) : Bool :=
  match c.kind? with
  | none => Byte.isBlank c.byte
  | some k => k.isComment

end Cell

/-- What the scanner is inside of. -/
inductive Mode where
  | code
  /-- A line comment, up to the newline. -/
  | line
  /-- A block comment of which only the slash has been read. -/
  | blockSlash
  /-- The inside of a block comment; `star` says that the byte just read is a star that a slash
  would complete. -/
  | block (star : Bool)
  /-- A literal closed by `quote`; `escaped` says that a backslash takes the next byte. -/
  | quoted (quote : UInt8) (escaped : Bool)
  deriving DecidableEq, Repr, Inhabited

/-- Backticks delimit templates, the other quotes strings. -/
def quotedKind (quote : UInt8) : Kind :=
  if quote == Byte.backtick then .template else .string

/-- What a byte met in code opens, seeing the byte after it. -/
def opens? (b : UInt8) (next : Option UInt8) : Option (Kind × Mode) :=
  if b == Byte.slash then
    match next with
    | some Byte.slash => some (.lineComment, .line)
    | some Byte.star => some (.blockComment, .blockSlash)
    | _ => none
  else if b == Byte.singleQuote || b == Byte.doubleQuote || b == Byte.backtick then
    some (quotedKind b, .quoted b false)
  else
    none

/-- Reads one byte, seeing the byte after it: its mark, and the mode that follows. -/
def Mode.read (mode : Mode) (b : UInt8) (next : Option UInt8) : Mark × Mode :=
  match mode with
  | .code =>
    match opens? b next with
    | some (kind, mode) => (.opening kind, mode)
    | none => (.code, .code)
  | .line =>
    if b == Byte.newline then (.code, .code) else (.inside .lineComment, .line)
  | .blockSlash => (.inside .blockComment, .block false)
  | .block star =>
    (.inside .blockComment, if star && b == Byte.slash then .code else .block (b == Byte.star))
  | .quoted quote escaped =>
    (.inside (quotedKind quote),
      if escaped then .quoted quote false
      else if b == Byte.backslash then .quoted quote true
      else if b == quote then .code
      else .quoted quote false)

/-- Scans a text from a given mode, with the cells read so far, latest first. -/
def scanFrom (mode : Mode) (done : List Cell) : Bytes → List Cell
  | [] => done.reverse
  | b :: rest =>
    let (mark, mode) := mode.read b rest.head?
    scanFrom mode (⟨b, mark⟩ :: done) rest

/-- The cells of a source text, one per byte. -/
def scan (text : Bytes) : List Cell :=
  scanFrom .code [] text

end LogSweep.Lexical
