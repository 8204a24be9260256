import LogSweep.Glob.Token

/-!
# Reading globs

A glob is read from left to right into tokens. Groups of alternatives that are still open stand on a
stack.
-/

namespace LogSweep.Glob

/-- Why a text is not a glob. -/
inductive Fault where
  | unclosedClass
  | reversedRange (first last : Char)
  | danglingEscape
  | unclosedGroup
  | unopenedGroup
  deriving DecidableEq, Repr, Inhabited

def Fault.message : Fault → String
  | .unclosedClass => "unclosed character class; missing ']'"
  | .reversedRange first last =>
    "invalid range; '" ++ String.singleton first ++ "' > '" ++ String.singleton last ++ "'"
  | .danglingEscape => "dangling '\\'"
  | .unclosedGroup =>
    "unclosed alternate group; missing '\x7d' (maybe escape '\x7b' with '[\x7b]'?)"
  | .unopenedGroup =>
    "unopened alternate group; missing '\x7b' (maybe escape '\x7d' with '[\x7d]'?)"

/-- Alternatives that are being read: those complete, and the tokens of the current one, each latest
first. -/
structure Group where
  done : List (List Token) := []
  current : List Token := []
  deriving Repr, Inhabited

/-- The state of reading: the innermost open group, and those around it. The outermost one is the
glob itself. -/
structure State where
  group : Group := {}
  outer : List Group := []
  deriving Repr, Inhabited

namespace State

def push (s : State) (t : Token) : State :=
  { s with group.current := t :: s.group.current }

/-- Whether braces are open. -/
def inGroup (s : State) : Bool :=
  !s.outer.isEmpty

def openGroup (s : State) : State :=
  ⟨{}, s.group :: s.outer⟩

/-- A comma divides alternatives inside braces and stands for itself elsewhere. -/
def comma (s : State) : State :=
  if s.inGroup then { s with group := ⟨s.group.current :: s.group.done, []⟩ }
  else s.push (.literal ',')

def closeGroup? (s : State) : Option State :=
  match s.outer with
  | [] => none
  | group :: outer =>
    let branches := (s.group.current :: s.group.done).reverse.map List.reverse
    some (State.push ⟨group, outer⟩ (.group branches))

/-- Reads two stars, seeing the characters around them: the state, and whether the slash behind them
belongs to them. -/
def doubleStar (s : State) (previous next : Option Char) : State × Bool :=
  let stars := (s.push .star).push .star
  match s.group.current with
  | [] =>
    match next with
    | none => (s.push .leading, false)
    | some '/' => (s.push .leading, true)
    | some _ => (stars, false)
  | last :: earlier =>
    let startsName := previous == some '/' ||
      (s.inGroup && (previous == some ',' || previous.any (·.toNat == 123)))
    if !startsName then (stars, false) else
    let merged := fun (t : Token) =>
      let token := match last with
        | .leading | .trailing => last
        | _ => t
      { s with group.current := token :: earlier }
    match next with
    | none => (merged .trailing, false)
    | some '/' => (merged .inner, true)
    | some c =>
      if s.inGroup && (c == ',' || c.toNat == 125) then (merged .trailing, false)
      else (stars, false)

end State

/-- Reads the characters of a class up to its bracket: the ranges, latest first, and the text
behind. `inRange` says that a dash awaits the end of the latest range. -/
def readClass (isFirst inRange : Bool) (ranges : List (Char × Char)) :
    List Char → Except Fault (Option (List (Char × Char) × List Char))
  | [] => .ok none
  | c :: rest =>
    if c == ']' && !isFirst then
      .ok (some (if inRange then ('-', '-') :: ranges else ranges, rest))
    else if inRange then
      match ranges with
      | (first, _) :: earlier =>
        if c < first then .error (.reversedRange first c)
        else readClass false false ((first, c) :: earlier) rest
      | [] => readClass false false [(c, c)] rest
    else if c == '-' && !isFirst then readClass false true ranges rest
    else readClass false false ((c, c) :: ranges) rest

/-- Reading a class consumes at least its closing bracket. -/
theorem readClass_length_lt {isFirst inRange : Bool} {ranges ranges' : List (Char × Char)}
    {text rest : List Char}
    (h : readClass isFirst inRange ranges text = .ok (some (ranges', rest))) :
    rest.length < text.length := by
  induction text generalizing isFirst inRange ranges with
  | nil => simp [readClass] at h
  | cons c text ih =>
    simp only [readClass] at h
    repeat' split at h
    all_goals
      first
      | exact Nat.lt_succ_of_lt (ih h)
      | (cases h; exact Nat.lt_succ_self _)
      | simp at h

/-- Whether a class is negated, and the text of its characters. -/
def classBody (text : List Char) : Bool × List Char :=
  match text with
  | '!' :: rest | '^' :: rest => (true, rest)
  | _ => (false, text)

/-- The body of a class is not longer than the text behind its bracket. -/
theorem classBody_length_le (text : List Char) : (classBody text).2.length ≤ text.length := by
  unfold classBody
  split <;> simp

/-- Reads a glob from a state. A bracket without a partner is a fault, unless `lenient` lets it and
all later ones stand for themselves; `literal` says that this has happened. -/
def readFrom (lenient literal : Bool) (s : State) (previous : Option Char) (text : List Char) :
    Except Fault State :=
  match text with
  | [] => .ok s
  | '?' :: rest => readFrom lenient literal (s.push .any) (some '?') rest
  | '*' :: '*' :: '/' :: rest =>
    let (s, taken) := s.doubleStar previous (some '/')
    if taken then readFrom lenient literal s (some '/') rest
    else readFrom lenient literal s (some '*') ('/' :: rest)
  | '*' :: '*' :: rest =>
    readFrom lenient literal (s.doubleStar previous rest.head?).1 (some '*') rest
  | '*' :: rest => readFrom lenient literal (s.push .star) (some '*') rest
  | '\\' :: [] => .error .danglingEscape
  | '\\' :: c :: rest => readFrom lenient literal (s.push (.literal c)) (some c) rest
  | ',' :: rest => readFrom lenient literal s.comma (some ',') rest
  | c :: rest =>
    if c == '[' && !literal then
      have := classBody_length_le rest
      match h : readClass true false [] (classBody rest).2 with
      | .error fault => .error fault
      | .ok none =>
        if lenient then readFrom lenient true (s.push (.literal '[')) (some '[') rest
        else .error .unclosedClass
      | .ok (some (ranges, behind)) =>
        have := readClass_length_lt h
        let token := Token.class (classBody rest).1 ranges.reverse
        readFrom lenient literal (s.push token) (some ']') behind
    else if c.toNat == 123 then readFrom lenient literal s.openGroup (some c) rest
    else if c.toNat == 125 then
      match s.closeGroup? with
      | none => .error .unopenedGroup
      | some s => readFrom lenient literal s (some c) rest
    else readFrom lenient literal (s.push (.literal c)) (some c) rest
termination_by text.length

/-- Reads a glob. -/
def read (lenient : Bool) (text : List Char) : Except Fault (List Token) :=
  match readFrom lenient false {} none text with
  | .error fault => .error fault
  | .ok s => if s.inGroup then .error .unclosedGroup else .ok s.group.current.reverse

end LogSweep.Glob
