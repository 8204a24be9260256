/-!
# Texts as bytes

Source texts are handled as the bytes of their UTF-8 form, so that an offset is a position in a
list. The bytes with a role of their own have names here, and the classes of bytes that the scanner,
the search for calls and the block cursor tell apart are decided here, once.
-/

namespace LogSweep

/-- A text as the bytes of its UTF-8 form. -/
abbrev Bytes := List UInt8

/-- A half-open range `[start, stop)` of offsets. -/
structure Span where
  start : Nat
  stop : Nat
  deriving DecidableEq, Repr, Inhabited

/-- Whether the offset lies in the range. -/
def Span.contains (s : Span) (offset : Nat) : Bool :=
  s.start ≤ offset && offset < s.stop

/-- A span contains its start and not its stop. -/
theorem Span.contains_iff {span : Span} {place : Nat} :
    span.contains place = true ↔ span.start ≤ place ∧ place < span.stop := by
  simp [Span.contains]

/-- What a span does not contain lies before its start, or at its stop and behind. -/
theorem Span.not_contains_iff {span : Span} {place : Nat} :
    span.contains place = false ↔ place < span.start ∨ span.stop ≤ place := by
  rw [← Bool.not_eq_true, Span.contains_iff]
  omega

namespace Byte

@[match_pattern] abbrev tab : UInt8 := 9
@[match_pattern] abbrev newline : UInt8 := 10
@[match_pattern] abbrev formFeed : UInt8 := 12
@[match_pattern] abbrev carriageReturn : UInt8 := 13
@[match_pattern] abbrev space : UInt8 := 32
@[match_pattern] abbrev doubleQuote : UInt8 := 34
@[match_pattern] abbrev dollar : UInt8 := 36
@[match_pattern] abbrev singleQuote : UInt8 := 39
@[match_pattern] abbrev openParen : UInt8 := 40
@[match_pattern] abbrev closeParen : UInt8 := 41
@[match_pattern] abbrev star : UInt8 := 42
@[match_pattern] abbrev dot : UInt8 := 46
@[match_pattern] abbrev slash : UInt8 := 47
@[match_pattern] abbrev semicolon : UInt8 := 59
@[match_pattern] abbrev less : UInt8 := 60
@[match_pattern] abbrev greater : UInt8 := 62
@[match_pattern] abbrev openSquare : UInt8 := 91
@[match_pattern] abbrev backslash : UInt8 := 92
@[match_pattern] abbrev closeSquare : UInt8 := 93
@[match_pattern] abbrev underscore : UInt8 := 95
@[match_pattern] abbrev backtick : UInt8 := 96
@[match_pattern] abbrev openBrace : UInt8 := 123
@[match_pattern] abbrev closeBrace : UInt8 := 125

/-- Spaces and tabs: blanks that do not end a line. -/
def isHorizontal (b : UInt8) : Bool :=
  b == space || b == tab

/-- The ASCII white space: space, tab, newline, form feed and carriage return. -/
def isBlank (b : UInt8) : Bool :=
  b == space || b == tab || b == newline || b == formFeed || b == carriageReturn

def isDigit (b : UInt8) : Bool :=
  48 ≤ b && b ≤ 57

def isUpper (b : UInt8) : Bool :=
  65 ≤ b && b ≤ 90

def isLower (b : UInt8) : Bool :=
  97 ≤ b && b ≤ 122

/-- Bytes that can stand in a name. Every byte of a character outside ASCII counts, so a name is
never cut out of a longer one that uses such characters. -/
def isName (b : UInt8) : Bool :=
  isDigit b || isUpper b || isLower b || b == underscore || b == dollar || 128 ≤ b

/-- A byte inside a character, not its first one. -/
def isContinuation (b : UInt8) : Bool :=
  128 ≤ b && b < 192

/-- Folds the upper-case ASCII letters to lower case. -/
def toLower (b : UInt8) : UInt8 :=
  if isUpper b then b + 32 else b

end Byte

namespace Bytes

/-- The UTF-8 form of a string. -/
def ofString (s : String) : Bytes :=
  s.toList.flatMap String.utf8EncodeChar

/-- Reads a UTF-8 form back; `none` when the bytes are not one. -/
def decode? (text : Bytes) : Option String :=
  String.fromUTF8? ⟨text.toArray⟩

/-- Reads a UTF-8 form back; bytes that are not one give the empty string. -/
def decode (text : Bytes) : String :=
  (decode? text).getD ""

/-- Whether the offset does not split a character. Both ends of the text count; offsets beyond the
end do not. -/
def isBoundary (text : Array UInt8) (offset : Nat) : Bool :=
  match text[offset]? with
  | some b => !Byte.isContinuation b
  | none => offset == text.size

/-- The bytes in a range; what lies beyond the end of the text is left out. -/
def slice (text : Bytes) (s : Span) : Bytes :=
  (text.drop s.start).take (s.stop - s.start)

end Bytes

end LogSweep
