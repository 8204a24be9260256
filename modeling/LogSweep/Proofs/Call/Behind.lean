import LogSweep.Call.Site
import LogSweep.Proofs.Block.Behind

/-!
# A search behind a finished front

Behind a finished front a search finds what it finds from the start of a text, with all places and
lines moved (`search_behind`). What is judged at a place is read off the cells ahead, which are the
same, and off the cursor, which looks back no further than the end of the front (`judge_behind`).
-/

namespace LogSweep

open Lexical Block

def Span.behind (offset : Nat) (span : Span) : Span :=
  ⟨offset + span.start, offset + span.stop⟩

namespace Call

def Redirection.behind (offset : Nat) (r : Redirection) : Redirection :=
  ⟨r.handler.behind offset, r.lead⟩

/-- A site of a text that is put behind another one, of the given length and number of lines. -/
def Site.behind (offset lines : Nat) (site : Site) : Site where
  start := offset + site.start
  stop := offset + site.stop
  line := site.line + lines
  arguments := site.arguments
  semicolon := site.semicolon
  lineStart := offset + site.lineStart
  startsLine := site.startsLine
  removal := site.removal.behind offset
  redirection := site.redirection.map (Redirection.behind offset)

def Refused.behind (offset lines : Nat) (r : Refused) : Refused :=
  ⟨offset + r.start, r.line + lines, r.reason⟩

/-! ## What is read off a cursor -/

section
variable {front c : Cursor} (hfront : front.Clear)
include hfront

/-- Behind a front that ends its line a cursor starts a line when it does so alone. -/
theorem startsLine_behind : (Cursor.behind front c).startsLine = c.startsLine := by
  obtain ⟨x, rest, hbefore, hx, -⟩ := hfront.before
  have hstop : Byte.isHorizontal x.byte = false := by
    rw [hx]
    rfl
  have hdrop : (x :: rest).dropWhile (Byte.isHorizontal ·.byte) = x :: rest :=
    List.dropWhile_cons_of_neg (by simp [hstop])
  rw [Cursor.startsLine, Cursor.startsLine, Cursor.behind, hbefore, List.dropWhile_append, hdrop]
  cases c.before.dropWhile (Byte.isHorizontal ·.byte) with
  | nil => simp [hx]
  | cons y cells => rfl

/-- Behind such a front a line is indented as it is alone. -/
theorem indentation_behind : indentation (.behind front c) = indentation c := by
  obtain ⟨x, rest, hbefore, hx, -⟩ := hfront.before
  have hblanks : ∀ (cells : List Cell) (run : Bytes),
      leadingBlanks run (cells ++ x :: rest) = leadingBlanks run cells := by
    intro cells
    induction cells with
    | nil =>
      intro run
      simp [leadingBlanks, hx]
    | cons y cells ih =>
      intro run
      rw [List.cons_append, leadingBlanks, leadingBlanks, ih]
  rw [indentation, indentation, Cursor.behind, hbefore]
  exact hblanks c.before []

/-- The line break above is looked for on the lines behind the front. -/
theorem longBreakAbove_behind : longBreakAbove (.behind front c) = longBreakAbove c := by
  obtain ⟨x, rest, hbefore, hx, hreturn⟩ := hfront.before
  have hdrop : (x :: rest).dropWhile (·.byte != Byte.newline) = x :: rest :=
    List.dropWhile_cons_of_neg (by simp [hx])
  rw [longBreakAbove, longBreakAbove, Cursor.behind, hbefore, List.dropWhile_append, hdrop]
  cases c.before.dropWhile (·.byte != Byte.newline) with
  | nil =>
    cases rest with
    | nil => rfl
    | cons y rest => simpa using hreturn y rfl
  | cons y cells =>
    cases cells with
    | nil =>
      have hbreak : (x.byte == Byte.carriageReturn) = false := by
        rw [hx]
        rfl
      simpa using hbreak
    | cons z cells => rfl

/-- No name goes on over the end of the front. -/
theorem isWholeName_behind (target : Bytes) (ahead : List Cell) :
    isWholeName target (.behind front c) ahead = isWholeName target c ahead := by
  obtain ⟨x, rest, hbefore, hx, -⟩ := hfront.before
  have hnewline : (Byte.isName x.byte || x.byte == Byte.dot) = false := by
    rw [hx]
    rfl
  rw [isWholeName.eq_def, isWholeName.eq_def, Cursor.behind, hbefore]
  cases target with
  | nil => rfl
  | cons b target =>
    cases c.before with
    | nil => simp [hnewline]
    | cons y cells => rfl

omit hfront in
/-- The handlers known behind a clear front are those known alone, moved by its length. -/
theorem handler?_behind : (Cursor.behind front c).handler? =
    c.handler?.map (Handler.behind front.offset) := by
  rw [Cursor.handler?, Cursor.handler?, Cursor.behind, List.findSome?_map, List.map_findSome?]
  rfl

/-- A call behind a clear front is redirected as it is alone. -/
theorem redirection?_behind (e : Ending) :
    redirection? (.behind front c) ⟨front.offset + e.stop, e.semicolon, e.ahead⟩ =
      (redirection? c e).map (Redirection.behind front.offset) := by
  have hbreak : lineBreak (.behind front c) ⟨front.offset + e.stop, e.semicolon, e.ahead⟩ =
      lineBreak c e := by
    rw [lineBreak, lineBreak, longBreakAbove_behind hfront]
  rw [redirection?, redirection?, handler?_behind, startsLine_behind hfront,
    indentation_behind hfront, hbreak]
  cases c.handler? with
  | none => rfl
  | some handler =>
    simp only [Option.map_some]
    split <;> rfl

/-- The statement accepted last, when cells behind `offset` are searched: it is the one that is
accepted there, or lies in front of them. -/
def Follows (offset : Nat) : Option Span → Option Span → Prop
  | none, last => ∀ span ∈ last, span.stop ≤ offset
  | some span, last => last = some (span.behind offset)

/-- A statement can begin behind the front where one can begin alone. -/
theorem atStatement_behind {accepted last : Option Span}
    (hlast : Follows front.offset accepted last) :
    atStatement (.behind front c) last = atStatement c accepted := by
  have hinside : (Cursor.behind front c).insideGroup = c.insideGroup := by
    rw [Cursor.insideGroup, Cursor.insideGroup, Cursor.behind]
    cases c.openers <;> rfl
  rw [atStatement, atStatement, hinside]
  congr 1
  cases hcode : c.lastCode with
  | none =>
    have hsame : (Cursor.behind front c).lastCode = front.lastCode := by
      simp [Cursor.behind, Cursor.lastBehind, hcode]
    rw [hsame]
    cases hspot : front.lastCode with
    | none => rfl
    | some spot => rcases hfront.lastCode spot hspot with hb | hb <;> simp [hb]
  | some spot =>
    have hsame : (Cursor.behind front c).lastCode = some (spot.behind front) := by
      simp [Cursor.behind, Cursor.lastBehind, hcode]
    rw [hsame]
    cases accepted with
    | some span =>
      rw [Follows] at hlast
      simp [hlast, Span.contains, Span.behind, Spot.behind]
    | none =>
      cases last with
      | none => rfl
      | some span =>
        have hstop : span.stop ≤ front.offset := hlast span rfl
        have hout : span.contains (front.offset + spot.offset) = false := by
          rw [Span.contains, Bool.and_eq_false_iff, decide_eq_false_iff_not,
            decide_eq_false_iff_not]
          omega
        simp [Spot.behind, hout]

end

/-! ## What is read off the cells ahead -/

section
variable (n offset : Nat) (cells : List Cell)

/-- Skipping does not depend on the offset that it counts from. -/
theorem skipWhile_behind (p : UInt8 → Bool) :
    skipWhile p (n + offset) cells =
      (n + (skipWhile p offset cells).1, (skipWhile p offset cells).2) := by
  induction cells generalizing offset with
  | nil => rfl
  | cons x cells ih =>
    rw [skipWhile, skipWhile]
    split
    · rw [Nat.add_assoc, ih]
    · rfl

/-- Nor does the search for the end of the line. -/
theorem lineEnd?_behind : lineEnd? (n + offset) cells = (lineEnd? offset cells).map (n + ·) := by
  cases cells with
  | nil => rfl
  | cons x cells =>
    rw [lineEnd?, lineEnd?]
    split
    · rfl
    · split <;> rfl

/-- Nor does the search for the closing parenthesis. -/
theorem closingParen?_behind (depth : Int) :
    closingParen? depth (n + offset) cells =
      (closingParen? depth offset cells).map fun p => (n + p.1, p.2) := by
  induction cells generalizing depth offset with
  | nil => rfl
  | cons x cells ih =>
    simp only [closingParen?, Nat.add_assoc, ih]
    split
    · rfl
    · split
      · rfl
      · split
        · split <;> rfl
        · rfl

/-- Nor does the end of a statement. -/
theorem ending?_behind :
    ending? (n + offset) cells =
      (ending? offset cells).map fun e => ⟨n + e.stop, e.semicolon, e.ahead⟩ := by
  rw [ending?, ending?, skipWhile_behind]
  obtain ⟨next, rest⟩ := skipWhile Byte.isHorizontal offset cells
  cases rest with
  | nil => rfl
  | cons x rest =>
    simp only
    split
    · rfl
    · split
      · rfl
      · split
        · split
          · rfl
          · split <;> rfl
        · rfl

end

/-! ## Verdicts -/

def Verdict.behind (offset lines : Nat) : Verdict → Verdict
  | .ignored => .ignored
  | .refused reason => .refused reason
  | .accepted site => .accepted (site.behind offset lines)

section
variable {front c : Cursor} (hfront : front.Clear)
include hfront

/-- What is removed with a call behind a clear front is what is removed alone, moved by its length.
-/
theorem removal_behind (e : Ending) :
    removal (.behind front c) ⟨front.offset + e.stop, e.semicolon, e.ahead⟩ =
      (removal c e).behind front.offset := by
  simp only [removal, skipWhile_behind, lineEnd?_behind, startsLine_behind hfront]
  cases lineEnd? (skipWhile Byte.isHorizontal e.stop e.ahead).1
      (skipWhile Byte.isHorizontal e.stop e.ahead).2 with
  | none => rfl
  | some lineEnd =>
    simp only [Option.map_some]
    split <;> rfl

/-- What is judged behind a clear front is what is judged without it. -/
theorem judge_behind (target : Bytes) {accepted last : Option Span}
    (hlast : Follows front.offset accepted last) (ahead : List Cell) :
    judge target last (.behind front c) ahead =
      (judge target accepted c ahead).behind front.offset (front.line - 1) := by
  rw [judge, judge, isWholeName_behind hfront, atStatement_behind hfront hlast,
    Cursor.offset_behind, Nat.add_assoc, skipWhile_behind]
  split
  · rfl
  obtain ⟨opened, rest⟩ :=
    skipWhile Byte.isBlank (c.offset + target.length) (ahead.drop target.length)
  cases rest with
  | nil => rfl
  | cons x cells =>
    simp only [closingParen?_behind]
    split
    · rfl
    cases closingParen? 0 opened (x :: cells) with
    | none => rfl
    | some p =>
      obtain ⟨closed, behind⟩ := p
      simp only [Option.map_some, Nat.add_assoc front.offset, ending?_behind front.offset]
      split
      · rfl
      cases ending? (closed + 1) behind with
      | none => rfl
      | some e =>
        simp only [Option.map_some, Verdict.behind, Site.behind, removal_behind hfront,
          redirection?_behind hfront e, startsLine_behind hfront, Nat.add_sub_add_left]
        rfl

end

/-! ## Searches -/

/-- Everything found so far ends before an offset, and the search goes on there or before. -/
structure Search.Within (n : Nat) (s : Search) : Prop where
  resume : s.resume ≤ n
  accepted : ∀ site ∈ s.sites.head?, site.stop ≤ n

/-- What a search has found behind a front, where it had found `first`, is what it finds there from
the start of a text. -/
structure Search.Continues (offset lines : Nat) (first s s' : Search) : Prop where
  resume : ∀ n, s'.resume ≤ offset + n ↔ s.resume ≤ n
  sites : s'.sites = s.sites.map (Site.behind offset lines) ++ first.sites
  refused : s'.refused = s.refused.map (Refused.behind offset lines) ++ first.refused

namespace Search

/-- A search that has found what lies within the front continues itself. -/
theorem Within.continues {n : Nat} {first : Search} (h : first.Within n) (lines : Nat) :
    Continues n lines first {} first := by
  refine ⟨fun m => ?_, rfl, rfl⟩
  have hresume := h.resume
  exact ⟨fun _ => Nat.zero_le m, fun _ => by omega⟩

section
variable {front : Cursor} {first s s' : Search}
  (h : Continues front.offset (front.line - 1) first s s')
include h

/-- The last call that was accepted behind the front follows the one that was accepted alone. -/
theorem Continues.follows (hfirst : first.Within front.offset) :
    Follows front.offset (s.sites.head?.map Site.span) (s'.sites.head?.map Site.span) := by
  rw [h.sites]
  cases s.sites with
  | nil =>
    intro span hspan
    obtain ⟨site, hsite, rfl⟩ := Option.map_eq_some_iff.1 hspan
    exact hfirst.accepted site hsite
  | cons site sites => rfl

/-- A verdict behind the front is recorded as it is alone, moved by the length and the lines of the
front. -/
theorem Continues.record (target : Bytes) (c : Cursor) (v : Verdict) :
    Continues front.offset (front.line - 1) first (s.record target c v)
      (s'.record target (.behind front c) (v.behind front.offset (front.line - 1))) := by
  cases v with
  | ignored =>
    refine ⟨fun n => ?_, h.sites, h.refused⟩
    simp only [Search.record, Verdict.behind, Cursor.offset_behind]
    omega
  | refused reason =>
    refine ⟨fun n => ?_, h.sites, ?_⟩
    · simp only [Search.record, Verdict.behind, Cursor.offset_behind]
      omega
    · simp only [Search.record, Verdict.behind, h.refused, List.map_cons, List.cons_append]
      rfl
  | accepted site =>
    refine ⟨fun n => ?_, ?_, h.refused⟩
    · simp only [Search.record, Verdict.behind, Site.behind, Span.behind]
      omega
    · simp only [Search.record, Verdict.behind, h.sites, List.map_cons, List.cons_append]

end

end Search

/-- Behind a finished front a search goes on as it does from the start of a text. -/
theorem search_behind (target : Bytes) {keyword : Bytes}
    (hword : ∀ b ∈ keyword, Byte.isName b = true) {front : List Cell} (hfront : Finished front)
    {first s s' : Search} (hfirst : first.Within front.length)
    (h : Search.Continues front.length ((Cursor.past keyword front).line - 1) first s s')
    (pre ahead : List Cell) :
    Search.Continues front.length ((Cursor.past keyword front).line - 1) first
      (search target keyword s (.past keyword pre) ahead)
      (search target keyword s' (.past keyword (front ++ pre)) ahead) := by
  have hclear := Cursor.clear_past hfront keyword
  rw [← Cursor.offset_past keyword front] at hfirst h ⊢
  induction ahead generalizing s s' pre with
  | nil => exact h
  | cons c ahead ih =>
    have hjudge := judge_behind (c := .past keyword pre) hclear target (h.follows hfirst)
      (c :: ahead)
    have hresume := h.resume (Cursor.past keyword pre).offset
    rw [search, search, ← Cursor.past_snoc, ← Cursor.past_snoc, List.append_assoc,
      Cursor.past_append hword hfront pre, hjudge]
    simp only [Cursor.offset_behind, hresume]
    split
    · exact ih (h.record target _ _) (pre ++ [c])
    · exact ih h (pre ++ [c])

end Call

end LogSweep
