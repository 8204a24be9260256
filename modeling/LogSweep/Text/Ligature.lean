import LogSweep.Text.Columns

/-!
# Ligatures

Some scripts draw characters in a row as one sign, which takes fewer columns than its characters. A
text is read from its end, so what is known at a place is the part of a ligature that stands behind
it.
-/

namespace LogSweep.Text

/-- The characters without a column that keep the letters around them apart in Arabic, as closed
ranges in increasing order. -/
def separatingRanges : List (Nat × Nat) :=
  [(0x605, 0x605), (0x890, 0x891), (0x8E2, 0x8E2), (0x9BE, 0x9BE), (0x9D7, 0x9D7), (0xB3E, 0xB3E),
   (0xB57, 0xB57), (0xBBE, 0xBBE), (0xBD7, 0xBD7), (0xCC0, 0xCC0), (0xCC2, 0xCC2), (0xCC7, 0xCC8),
   (0xCCA, 0xCCB), (0xCD5, 0xCD6), (0xD3E, 0xD3E), (0xD4E, 0xD4E), (0xD57, 0xD57), (0xDCF, 0xDCF),
   (0xDDF, 0xDDF), (0x1160, 0x11FF), (0x1715, 0x1715), (0x1734, 0x1734), (0x180E, 0x180E),
   (0x1B35, 0x1B35), (0x1B3B, 0x1B3B), (0x1B3D, 0x1B3D), (0x1B43, 0x1B44), (0x1BAA, 0x1BAA),
   (0x1BF2, 0x1BF3), (0x200C, 0x200D), (0x2065, 0x2069), (0x302E, 0x302F), (0x3164, 0x3164),
   (0xA8FA, 0xA8FA), (0xA953, 0xA953), (0xA9C0, 0xA9C0), (0xD7B0, 0xD7C6), (0xD7CB, 0xD7FB),
   (0xFFA0, 0xFFA0), (0xFFF0, 0xFFF8), (0x111C0, 0x111C0), (0x111C2, 0x111C3), (0x11235, 0x11235),
   (0x1133E, 0x1133E), (0x1134D, 0x1134D), (0x11357, 0x11357), (0x113B8, 0x113B8),
   (0x113C2, 0x113C2), (0x113C5, 0x113C5), (0x113C7, 0x113C9), (0x113CF, 0x113CF),
   (0x113D1, 0x113D1), (0x114B0, 0x114B0), (0x114BD, 0x114BD), (0x115AF, 0x115AF),
   (0x116B6, 0x116B6), (0x11930, 0x11930), (0x1193D, 0x1193D), (0x1193F, 0x1193F),
   (0x11941, 0x11941), (0x11A3A, 0x11A3A), (0x11A84, 0x11A89), (0x11D46, 0x11D46),
   (0x11F02, 0x11F02), (0x11F41, 0x11F41), (0x16FF0, 0x16FF1), (0x1D165, 0x1D166),
   (0x1D16D, 0x1D172), (0xE0000, 0xE0000), (0xE0002, 0xE001F), (0xE0080, 0xE00FF),
   (0xE01F0, 0xE0FFF)]

/-- Whether a character stands between Arabic letters without keeping them apart. -/
def isTransparent (c : Char) : Bool :=
  isIdle c && !inRanges separatingRanges c.toNat

/-- The combining marks that are never shown: they do not break a ligature. -/
def isHiddenMark (c : Char) : Bool :=
  inRanges [(0x34F, 0x34F), (0x17B4, 0x17B5), (0x180B, 0x180D), (0x180F, 0x180F),
    (0xFE00, 0xFE0F), (0xE0100, 0xE01EF)] c.toNat

def isArabicAlef (c : Char) : Bool :=
  inRanges [(0x622, 0x623), (0x625, 0x625), (0x627, 0x627), (0x671, 0x673), (0x675, 0x675),
    (0x773, 0x774), (0x870, 0x882)] c.toNat

def isArabicLam (c : Char) : Bool :=
  inRanges [(0x644, 0x644), (0x6B5, 0x6B8), (0x76A, 0x76A), (0x8A6, 0x8A6), (0x8C7, 0x8C7)] c.toNat

/-- The Khmer letters that a coeng sign puts below the letter before. -/
def isKhmerSubscript (c : Char) : Bool :=
  inRanges [(0x1780, 0x1782), (0x1784, 0x1787), (0x1789, 0x178C), (0x178E, 0x1793),
    (0x1795, 0x1798), (0x179B, 0x179D), (0x17A0, 0x17A0), (0x17A2, 0x17A2), (0x17A7, 0x17A7),
    (0x17AB, 0x17AC), (0x17AF, 0x17AF)] c.toNat

def isTifinaghConsonant (c : Char) : Bool :=
  inRanges [(0x2D31, 0x2D65), (0x2D6F, 0x2D6F)] c.toNat

/-- The part of a ligature that stands behind a place. Where a ligature needs a joiner, `joined`
says that there is one in front. -/
inductive Ligature where
  | arabicAlef
  | hebrewLamed (joined : Bool)
  | khmerSubscript
  | bugineseYa (joined : Bool)
  /-- The Buginese vowel sign i, a joiner and the letter ya. -/
  | bugineseVowelYa
  | tifinagh (joined : Bool)
  /-- The Tifinagh consonant joiner and a consonant. -/
  | tifinaghJoiner
  | lisuTone
  | orkhonI (joined : Bool)
  /-- The Kirat Rai vowel sign e. -/
  | kiratE
  /-- The Kirat Rai vowel sign ai, which is twice the sign e. -/
  | kiratAi
  deriving DecidableEq, Repr, Inhabited

namespace Ligature

/-- The end of a ligature that a character may be. -/
def ofChar? (c : Char) : Option Ligature :=
  let n := c.toNat
  if isArabicAlef c then some .arabicAlef
  else if n == 0x5DC then some (.hebrewLamed false)
  else if isKhmerSubscript c then some .khmerSubscript
  else if n == 0x1A10 then some (.bugineseYa false)
  else if isTifinaghConsonant c then some (.tifinagh false)
  else if n == 0xA4FC || n == 0xA4FD then some .lisuTone
  else if n == 0x10C03 then some (.orkhonI false)
  else if n == 0x16D67 then some .kiratE
  else if n == 0x16D68 then some .kiratAi
  else none

/-- A joiner in front of the part. -/
def join : Ligature → Ligature
  | .hebrewLamed _ => .hebrewLamed true
  | .bugineseYa _ => .bugineseYa true
  | .tifinagh _ => .tifinagh true
  | .orkhonI _ => .orkhonI true
  | l => l

/-- Takes a letter or sign in front into the ligature: the columns that it adds, and the longer part
unless the ligature is complete. -/
def add? (l : Ligature) (c : Char) : Option (Int × Option Ligature) :=
  let n := c.toNat
  match l with
  | .arabicAlef =>
    if isArabicLam c then some (0, none)
    else if isTransparent c then some (0, some .arabicAlef)
    else none
  | .hebrewLamed joined => if joined && n == 0x5D0 then some (0, none) else none
  | .khmerSubscript => if n == 0x17D2 then some (-1, none) else none
  | .bugineseYa joined => if joined && n == 0x1A17 then some (0, some .bugineseVowelYa) else none
  | .bugineseVowelYa => if n == 0x1A15 then some (0, none) else none
  | .tifinagh joined =>
    if n == 0x2D7F then some (1, some .tifinaghJoiner)
    else if joined && isTifinaghConsonant c then some (0, none)
    else none
  | .tifinaghJoiner => if isTifinaghConsonant c then some (-1, none) else none
  | .lisuTone => if 0xA4F8 ≤ n && n ≤ 0xA4FB then some (0, none) else none
  | .orkhonI joined => if joined && n == 0x10C32 then some (0, none) else none
  | .kiratE =>
    if n == 0x16D63 || n == 0x16D69 then some (0, none)
    else if n == 0x16D67 then some (0, some .kiratAi)
    else if n == 0x16D68 then some (1, some .kiratE)
    else none
  | .kiratAi => if n == 0x16D63 then some (0, none) else none

/-- Takes the character in front into the ligature. Outside Arabic, joiners and hidden marks may
stand anywhere in a ligature. -/
def extend? (l : Ligature) (c : Char) : Option (Int × Option Ligature) :=
  if l == .arabicAlef then l.add? c
  else if c.toNat == 0x200D then some (0, some l.join)
  else if isHiddenMark c then some (0, some l)
  else l.add? c

end Ligature

end LogSweep.Text
