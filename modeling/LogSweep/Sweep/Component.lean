import LogSweep.Sweep.Script
import LogSweep.Text.Lines

/-!
# Sweeping a component

In a single-file component only the bodies of the script elements are code. Each body is swept as a
script of its own; the markup around the bodies is kept.
-/

namespace LogSweep.Component

def openTag : Bytes := Bytes.ofString "<script"

def closeTag : Bytes := Bytes.ofString "</script"

/-- Whether a text begins with a tag, in any case, and with no longer tag name. -/
def beginsTag : Bytes → Bytes → Bool
  | [], [] => true
  | [], b :: _ => b == Byte.greater || Byte.isBlank b
  | _ :: _, [] => false
  | t :: tag, b :: text => t == Byte.toLower b && beginsTag tag text

/-- The next place where a tag begins: its offset, and the text behind the tag's name. -/
def findTag? (tag : Bytes) (offset : Nat) : Bytes → Option (Nat × Bytes)
  | [] => if beginsTag tag [] then some (offset, []) else none
  | b :: text =>
    if beginsTag tag (b :: text) then some (offset, (b :: text).drop tag.length)
    else findTag? tag (offset + 1) text

/-- What comes behind a tag name that is found is no longer than the text. -/
theorem findTag?_length_le {tag : Bytes} {offset : Nat} {text : Bytes} {at' : Nat} {rest : Bytes}
    (h : findTag? tag offset text = some (at', rest)) : rest.length ≤ text.length := by
  induction text generalizing offset with
  | nil =>
    simp only [findTag?] at h
    split at h
    · cases h; exact Nat.le_refl _
    · cases h
  | cons b text ih =>
    simp only [findTag?] at h
    split at h
    · cases h
      simp only [List.length_drop]
      omega
    · exact Nat.le_succ_of_le (ih h)

/-- The next `>` of a text: the number of bytes before it, and the text behind it. -/
def behindTag? (skipped : Nat) : Bytes → Option (Nat × Bytes)
  | [] => none
  | b :: text =>
    if b == Byte.greater then some (skipped, text) else behindTag? (skipped + 1) text

/-- What comes behind a tag is shorter by its closing bracket at least. -/
theorem behindTag?_length_lt {skipped : Nat} {text : Bytes} {n : Nat} {rest : Bytes}
    (h : behindTag? skipped text = some (n, rest)) : rest.length < text.length := by
  induction text generalizing skipped with
  | nil => simp [behindTag?] at h
  | cons b text ih =>
    simp only [behindTag?] at h
    split at h
    · cases h; exact Nat.lt_succ_self _
    · exact Nat.lt_succ_of_lt (ih h)

/-- The script bodies in a text that starts at `offset`, with those found so far, latest first. -/
def bodiesFrom (offset : Nat) (found : List Span) (text : Bytes) : List Span :=
  match hOpen : findTag? openTag offset text with
  | none => found.reverse
  | some (opened, inTag) =>
    have := findTag?_length_le hOpen
    match hTag : behindTag? 0 inTag with
    | none => found.reverse
    | some (n, body) =>
      have := behindTag?_length_lt hTag
      let start := opened + openTag.length + n + 1
      match hClose : findTag? closeTag start body with
      | none => found.reverse
      | some (closed, behind) =>
        have := findTag?_length_le hClose
        bodiesFrom (closed + closeTag.length) (⟨start, closed⟩ :: found) behind
termination_by text.length
decreasing_by omega

/-- The bodies of the script elements of a component. An element without a closing tag ends the
search. -/
def bodies (text : Bytes) : List Span :=
  bodiesFrom 0 [] text

/-- Moves an outcome's line numbers down by a number of lines. -/
def shifted (lines : Nat) (o : Outcome) : Outcome :=
  { o with
    changes := o.changes.map fun c => { c with line := c.line + lines }
    skipped := o.skipped.map fun s => { s with line := s.line + lines } }

/-- Puts two outcomes one after the other. -/
def append (a b : Outcome) : Outcome :=
  { text := a.text ++ b.text
    deleted := a.deleted + b.deleted
    redirected := a.redirected + b.redirected
    changes := a.changes ++ b.changes
    skipped := a.skipped ++ b.skipped }

/-- Sweeps the given bodies of a component whose remaining text starts at `offset`, on line
`line`. -/
def sweepBodies (rules : Rules) (offset line : Nat) (text : Bytes) : List Span → Outcome
  | [] => { text }
  | body :: rest =>
    let markup := text.take (body.start - offset)
    let script := Bytes.slice text ⟨body.start - offset, body.stop - offset⟩
    let bodyLine := line + markup.count Byte.newline
    let swept := shifted (bodyLine - 1) (sweepScript rules script)
    append (append { text := markup } swept)
      (sweepBodies rules body.stop (bodyLine + script.count Byte.newline)
        (text.drop (body.stop - offset)) rest)

/-- Sweeps the script bodies of a component; reported lines are lines of the whole text. -/
def sweep (rules : Rules) (text : Bytes) : Outcome :=
  sweepBodies rules 0 1 text (bodies text)

end LogSweep.Component
