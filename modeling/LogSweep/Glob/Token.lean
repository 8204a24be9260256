import LogSweep.Glob.Pattern

/-!
# Tokens of globs

A glob is a row of tokens. A star and a question mark stay within one name of a path, two stars that
stand alone between slashes cross names, brackets hold a class of characters, and braces hold
alternatives, which are rows of tokens again.
-/

namespace LogSweep.Glob

inductive Token where
  | literal (c : Char)
  /-- One byte of a name. -/
  | any
  /-- Any number of bytes of a name. -/
  | star
  /-- Two stars at the front: any number of leading names. -/
  | leading
  /-- Two stars at the end: everything below. -/
  | trailing
  /-- Two stars between slashes: any number of names. -/
  | inner
  /-- One of the characters in closed ranges, or one of all others. -/
  | class (negated : Bool) (ranges : List (Char × Char))
  /-- Alternatives in braces; those without tokens say nothing. -/
  | group (branches : List (List Token))
  deriving Repr, Inhabited

/-- The byte ranges of a character range: the bytes before the last one of its first character and
after the first one of its last character stand by themselves. -/
def byteRanges (first last : Char) : List (UInt8 × UInt8) :=
  let single := fun (b : UInt8) => (b, b)
  if first == last then (String.utf8EncodeChar first).map single else
  match (String.utf8EncodeChar first).reverse, String.utf8EncodeChar last with
  | low :: before, high :: after => before.reverse.map single ++ (low, high) :: after.map single
  | _, _ => []

/-- The byte ranges of a class. -/
def classBytes (ranges : List (Char × Char)) : List (UInt8 × UInt8) :=
  ranges.flatMap fun (first, last) => byteRanges first last

mutual

/-- The pattern of a token, unless it says nothing. -/
def Token.pattern? : Token → Option Pattern
  | .literal c => some (.literal (String.utf8EncodeChar c))
  | .any => some (.one .noSlash)
  | .star => some (.many .noSlash)
  | .leading => some (.alt .empty (.alt .slash (.seq .anything .slash)))
  | .trailing => some (.seq .slash .anything)
  | .inner => some (.alt .slash (.seq .slash (.seq .anything .slash)))
  | .class negated ranges => some (.one ⟨negated, classBytes ranges⟩)
  | .group branches => Pattern.choice? (branchPatterns branches)

/-- The patterns of some tokens. -/
def tokenPatterns : List Token → List Pattern
  | [] => []
  | token :: tokens => token.pattern?.toList ++ tokenPatterns tokens

/-- The patterns of alternatives, without those that say nothing. -/
def branchPatterns : List (List Token) → List Pattern
  | [] => []
  | branch :: branches =>
    match tokenPatterns branch with
    | [] => branchPatterns branches
    | ps => .sequence ps :: branchPatterns branches

end

/-- The pattern of a whole glob; two stars alone match everything. -/
def pattern (tokens : List Token) : Pattern :=
  match tokens with
  | [.leading] => .anything
  | _ => .sequence (tokenPatterns tokens)

end LogSweep.Glob
