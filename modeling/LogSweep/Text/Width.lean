import LogSweep.Text.Emoji
import LogSweep.Text.Ligature

/-!
# Display width

The number of columns that a text takes on a terminal. It is the sum over its characters, except
where characters are drawn as one sign: emoji that are put together, characters whose style a
variation selector chooses, and ligatures. The text is read from its end, and each character is
measured in view of what stands behind it.
-/

namespace LogSweep.Text

/-- What a variation selector chooses for the character in front of it. -/
inductive Selector where
  | emoji
  | text
  /-- The full-width form of a quotation mark. -/
  | wide
  deriving DecidableEq, Repr, Inhabited

def Selector.ofChar? (c : Char) : Option Selector :=
  if c.toNat == 0xFE0F then some .emoji
  else if c.toNat == 0xFE0E then some .text
  else if c.toNat == 0xFE01 then some .wide
  else none

/-- The quotation marks that have a full-width form. -/
def isQuotationMark (c : Char) : Bool :=
  inRanges [(0x2018, 0x2019), (0x201C, 0x201D)] c.toNat

/-- The unfinished sign behind a place, if there is one. -/
inductive Behind where
  | nothing
  | emoji (tail : EmojiTail)
  | ligature (l : Ligature)
  deriving DecidableEq, Repr, Inhabited

namespace Behind

def ofChar (c : Char) : Behind :=
  match EmojiTail.ofChar? c, Ligature.ofChar? c with
  | some tail, _ => .emoji tail
  | none, some l => .ligature l
  | none, none => .nothing

/-- Takes the character in front into the sign: the columns that it adds, and the longer sign. -/
def extend? (b : Behind) (c : Char) : Option (Int × Behind) :=
  match b with
  | .nothing => none
  | .emoji tail => (tail.extend? c).map fun (n, tail) => (n, .emoji tail)
  | .ligature l =>
    (l.extend? c).map fun (n, longer) =>
      match longer with
      | none => (n, .nothing)
      | some l => (n, .ligature l)

def isEmoji : Behind → Bool
  | .emoji _ => true
  | _ => false

/-- What is left of the sign when a selector in front of it turns out to be idle. -/
def onlyLigature : Behind → Behind
  | .ligature l => .ligature l
  | _ => .nothing

/-- What is left of the sign when a selector stands in front of it. -/
def select (b : Behind) (s : Selector) : Behind :=
  match b, s with
  | .emoji tail, .emoji => if tail.isJoined then .emoji tail else .nothing
  | b, _ => b.onlyLigature

end Behind

/-- What stands behind a place, as far as the width of the character there depends on it. -/
structure Context where
  /-- The selector right behind the place. -/
  selector : Option Selector := none
  behind : Behind := .nothing
  deriving DecidableEq, Repr, Inhabited

/-- The columns that a character adds, and the context that it makes for the character before. -/
def measure (c : Char) (context : Context) : Int × Context :=
  let behind := if context.selector.isNone then context.behind else context.behind.onlyLigature
  if context.selector == some .emoji && hasEmojiStyle c then
    (if context.behind.isEmoji then 0 else 2, { behind := .emoji .whole })
  else if c.toNat ≤ 0xA0 then (1, {})
  else
    match Selector.ofChar? c with
    | some s => (0, { selector := some s, behind := behind.select s })
    | none =>
      if context.selector == some .text && hasTextStyle c then (1, {})
      else if context.selector == some .wide && isQuotationMark c then (2, {})
      else
        match behind.extend? c with
        | some (n, behind) => (n, { behind })
        | none => (columns c, { behind := .ofChar c })

/-- The number of columns of a text. -/
def width (s : String) : Nat :=
  (s.toList.foldr (fun c (n, context) =>
    let (more, context) := measure c context
    (n + more, context)) ((0 : Int), ({} : Context))).1.toNat

end LogSweep.Text
