import LogSweep.Glob.Token

/-!
# Expressions of globs

Globs that are more than literal text are searched for as regular expressions, and an expression may
be nested only so deeply. The text of an expression is shown when it is refused.
-/

namespace LogSweep.Glob

/-! ## Text -/

/-- The characters that have a meaning of their own in an expression. -/
def isSpecial (c : Char) : Bool :=
  ['\\', '.', '+', '*', '?', '(', ')', '|', '[', ']', '^', '$', '#', '&', '-', '~'].contains c ||
    c.toNat == 123 || c.toNat == 125

/-- A byte in an expression. -/
def escapedByte (b : UInt8) : List Char :=
  let c := Char.ofNat b.toNat
  if 128 ≤ b then ['\\', 'x', Nat.digitChar (b.toNat / 16), Nat.digitChar (b.toNat % 16)]
  else if isSpecial c then ['\\', c]
  else [c]

/-- A character in an expression, byte by byte. -/
def escapedChar (c : Char) : String :=
  String.ofList ((String.utf8EncodeChar c).flatMap escapedByte)

/-- A range of a class in an expression. -/
def rangeText (first last : Char) : String :=
  if first == last then escapedChar first else escapedChar first ++ "-" ++ escapedChar last

mutual

/-- The text of a token in an expression. -/
def Token.text : Token → String
  | .literal c => escapedChar c
  | .any => "[^/]"
  | .star => "[^/]*"
  | .leading => "(?:/?|.*/)"
  | .trailing => "/.*"
  | .inner => "(?:/|/.*/)"
  | .class negated ranges =>
    (if negated then "[^" else "[") ++
      String.join (ranges.map fun (first, last) => rangeText first last) ++ "]"
  | .group branches =>
    match branchTexts branches with
    | [] => ""
    | texts => "(?:" ++ "|".intercalate texts ++ ")"

/-- The text of some tokens in an expression. -/
def tokensText : List Token → String
  | [] => ""
  | token :: tokens => token.text ++ tokensText tokens

/-- The texts of alternatives, without those that say nothing. -/
def branchTexts : List (List Token) → List String
  | [] => []
  | branch :: branches =>
    let text := tokensText branch
    if text == "" then branchTexts branches else text :: branchTexts branches

end

/-- The expression of a whole glob. -/
def expression (tokens : List Token) : String :=
  let body := match tokens with
    | [.leading] => ".*"
    | _ => tokensText tokens
  "(?-u)^" ++ body ++ "$"

/-! ## Nesting -/

/-- How deeply the parts of an expression are nested when they stand in a row. -/
def rowHeight : List Nat → Nat
  | [] => 0
  | [height] => height
  | heights => heights.foldl max 0 + 1

mutual

/-- How deeply each part of an expression is nested that a token stands for. -/
def Token.heights : Token → List Nat
  | .literal c => (String.utf8EncodeChar c).map fun _ => 0
  | .any => [1]
  | .star => [2]
  | .leading => [4]
  | .trailing => [0, 1]
  | .inner => [4]
  | .class _ ranges => [rowHeight ((classBytes ranges).map fun _ => 0) + 1]
  | .group branches =>
    match branchHeights branches with
    | [] => []
    | heights => [rowHeight heights + 1]

/-- How deeply each part of an expression is nested that some tokens stand for. -/
def tokensHeights : List Token → List Nat
  | [] => []
  | token :: tokens => token.heights ++ tokensHeights tokens

/-- How deeply alternatives are nested, without those that say nothing. -/
def branchHeights : List (List Token) → List Nat
  | [] => []
  | branch :: branches =>
    match tokensHeights branch with
    | [] => branchHeights branches
    | heights => rowHeight heights :: branchHeights branches

end

/-- How deeply the expression of a whole glob is nested. -/
def height (tokens : List Token) : Nat :=
  (tokensHeights tokens).foldl max 0 + 1

/-- How deeply an expression may be nested. -/
def nestLimit : Nat := 250

/-! ## Searching -/

/-- How a glob is searched for. -/
inductive Search where
  /-- As literal text. -/
  | literal
  /-- By the extension that it demands, and then by its expression. -/
  | extension
  /-- By its expression, together with other globs. -/
  | expression
  deriving DecidableEq, Repr, Inhabited

def Token.isLiteral : Token → Bool
  | .literal _ => true
  | _ => false

/-- Whether tokens, last first, begin with literal characters up to a dot, within one name. -/
def demandsExtension : List Token → Bool
  | .literal c :: tokens => c == '.' || c != '/' && demandsExtension tokens
  | _ => false

/-- Whether tokens are the literal characters of an extension. -/
def isExtension (tokens : List Token) : Bool :=
  tokens.all fun
    | .literal c => c != '.' && c != '/'
    | _ => false

/-- Whether tokens are literal text at any depth or at the top, or names with an extension at any
depth. -/
def isLiteral (tokens : List Token) : Bool :=
  match tokens with
  | .leading :: .star :: .literal '.' :: rest => isExtension rest
  | .leading :: rest | rest => !rest.isEmpty && rest.all Token.isLiteral

def search (tokens : List Token) : Search :=
  if isLiteral tokens then .literal
  else if demandsExtension tokens.reverse then .extension
  else .expression

end LogSweep.Glob
