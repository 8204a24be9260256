import LogSweep.Proofs.Call.Behind
import LogSweep.Proofs.Call.Front
import LogSweep.Proofs.Component.Structure
import LogSweep.Proofs.Edit.Moved

/-!
# Texts one after the other

A text that closes its brackets and ends its last statement and its last line is swept by itself,
whatever text follows, and so is the text that follows it. In front of more text the search judges
every call as it does without it (`judge_append`): all that it reads ahead ends with the text. At
the end of the text nothing is left to look past (`search_within`), and from there on the search
goes on as if it began (`search_behind`). So the calls of two texts put together are those of the
first and those of the second, moved (`find_append`).
-/

namespace LogSweep

open Lexical Block Call

/-! ## In front of more text -/

/-- There is no newline in a dotted name. -/
theorem Dotted.ne_newline {name : Bytes} (h : Dotted name) {b : UInt8} (hb : b ∈ name) :
    b ≠ Byte.newline := by
  rintro rfl
  cases h.isDottedByte hb

section
variable {cells pre ahead more : List Cell} {c : Cell}

/-- Finished cells end with a statement or a block. -/
theorem Block.Finished.rests (h : Finished cells) : Rests cells := by
  intro a x g hcells hx hg
  rcases h.ended a x g hcells hx hg with hb | hb
  · exact .inl hb
  · exact .inr (.inr hb)

/-- Finished cells end with a newline, however much of them is left. -/
theorem Block.Finished.endsLine (h : Finished (pre ++ c :: ahead)) : EndsLine (c :: ahead) := by
  obtain ⟨init, hinit, -⟩ := h.lines
  refine ⟨⟨Byte.newline, .code⟩, ?_, rfl⟩
  have hlast : (pre ++ c :: ahead).getLast? = some ⟨Byte.newline, .code⟩ := by
    rw [hinit, List.getLast?_concat]
  simpa [List.getLast?_append, List.getLast?_cons] using hlast

/-- Behind a parenthesis finished cells go on to the end of a statement and of a line. -/
theorem Block.Finished.behind_paren (h : Finished (pre ++ ⟨Byte.closeParen, .code⟩ :: ahead)) :
    EndsLine ahead ∧ ∃ x ∈ ahead, x.isSignificant = true :=
  ⟨h.endsLine.tail (by decide), h.rests.significant⟩

variable {target keyword : Bytes} (ht : Dotted target)
include ht

/-- A call in finished cells is judged in front of more text as it is without it. -/
theorem judge_append_of_callAt (hfinished : Finished (pre ++ c :: ahead)) {blanks : Bytes}
    {rest : List Cell} (hcall : CallAt target pre (c :: ahead) blanks rest)
    (accepted : Option Span) :
    judge target accepted (.past keyword pre) (c :: ahead ++ more) =
      judge target accepted (.past keyword pre) (c :: ahead) := by
  have hsplit : pre ++ c :: ahead =
      pre ++ (codeCells target ++ codeCells blanks) ++ ⟨Byte.openParen, .code⟩ :: rest := by
    rw [hcall.ahead_eq, List.append_assoc pre]
  have hnested := hfinished.nested
  rw [hsplit] at hnested
  obtain ⟨args, behind, rfl, hargs⟩ := exists_closing hnested
  have hsealed : Sealed (c :: ahead) := hfinished.rests.sealed.of_append
  have hcall' : CallAt target pre (c :: ahead ++ more) blanks
      (args ++ ⟨Byte.closeParen, .code⟩ :: behind ++ more) :=
    (callAt_append_iff ht hsealed).2 ⟨_, rfl, hcall⟩
  have hclose : ∀ offset, closingParen? 1 offset (args ++ ⟨Byte.closeParen, .code⟩ :: behind) =
      some (offset + args.length, behind) := fun offset =>
    (closingParen?_eq_some_iff (by decide)).2 ⟨args, rfl, rfl, hargs⟩
  have hbehind : pre ++ c :: ahead =
      pre ++ (codeCells target ++ codeCells blanks) ++ ⟨Byte.openParen, .code⟩ :: args ++
        ⟨Byte.closeParen, .code⟩ :: behind := by
    rw [hsplit]
    simp
  rw [hbehind] at hfinished
  obtain ⟨hline, hsignificant⟩ := hfinished.behind_paren
  have hlisted : ∀ offset, (args ++ ⟨Byte.closeParen, .code⟩ :: behind ++ more).take
      (offset + 1 + args.length - offset - 1) =
        (args ++ ⟨Byte.closeParen, .code⟩ :: behind).take
          (offset + 1 + args.length - offset - 1) := by
    intro offset
    refine List.take_append_of_le_length ?_
    simp only [List.length_append, List.length_cons]
    omega
  rw [judge_of_callAt ht keyword accepted hcall, judge_of_callAt ht keyword accepted hcall',
    closingParen?_append (by decide) (hclose _) more, hclose]
  simp only [ending?_append hline more hsignificant, hlisted]
  split
  · rfl
  · cases hending : ending? (pre.length + target.length + blanks.length + 1 + args.length + 1)
        behind with
    | none => rfl
    | some e =>
      have hahead := endsLine_ending? hline hending
      simp only [Option.map_some, removal_append hahead, redirection?_append hahead]

/-- A place in finished cells is judged in front of more text as it is without it. -/
theorem judge_append (hwhole : Whole (pre ++ c :: ahead)) (hmore : Lexed more)
    (hfinished : Finished (pre ++ c :: ahead)) (hspell : spells target (c :: ahead) = true)
    (accepted : Option Span) :
    judge target accepted (.past keyword pre) (c :: ahead ++ more) =
      judge target accepted (.past keyword pre) (c :: ahead) := by
  by_cases hcalled : Called target pre (c :: ahead)
  · obtain ⟨blanks, rest, hcall⟩ := hcalled
    exact judge_append_of_callAt ht hfinished hcall accepted
  · -- what is not called is ignored
    have hsealed : Sealed (c :: ahead) := hfinished.rests.sealed.of_append
    have hlex : Lexed (pre ++ (c :: ahead ++ more)) := by
      rw [← List.append_assoc]
      exact hwhole.lexed_append hmore
    have hignored : judge target accepted (.past keyword pre) (c :: ahead) = .ignored := by
      by_contra hjudge
      exact hcalled (callAt_of_judge ht hwhole.lexed hspell hjudge)
    have hspell' : spells target (c :: ahead ++ more) = true := by
      rwa [spells_append hfinished.endsLine more fun b hb => ht.ne_newline hb]
    rw [hignored]
    by_contra hjudge
    exact hcalled ((called_append ht hsealed).1 (callAt_of_judge ht hlex hspell' hjudge))

/-- A search over finished cells and more goes over one and then the other. -/
theorem search_append (hmore : Lexed more) (hwhole : Whole (pre ++ ahead))
    (hfinished : Finished (pre ++ ahead)) (s : Search) :
    search target keyword s (.past keyword pre) (ahead ++ more) =
      search target keyword (search target keyword s (.past keyword pre) ahead)
        (.past keyword (pre ++ ahead)) more := by
  induction ahead generalizing pre s with
  | nil => simp [search]
  | cons c ahead ih =>
    have hspells := spells_append hfinished.endsLine more fun b hb => ht.ne_newline hb
    have hsplit : pre ++ c :: ahead = pre ++ [c] ++ ahead := by simp
    rw [List.cons_append] at hspells
    rw [List.cons_append, search, search, ← Cursor.past_snoc, hspells]
    cases hspell : Call.spells target (c :: ahead) with
    | false =>
      simp only [Bool.and_false, Bool.false_eq_true, if_false]
      rw [hsplit] at hwhole hfinished ⊢
      exact ih hwhole hfinished s
    | true =>
      have hjudge : ∀ accepted, judge target accepted (.past keyword pre) (c :: (ahead ++ more)) =
          judge target accepted (.past keyword pre) (c :: ahead) :=
        judge_append ht hwhole hmore hfinished hspell
      simp only [hjudge]
      rw [hsplit] at hwhole hfinished ⊢
      exact ih hwhole hfinished _

/-! ## What a search covers -/

/-- A statement that is accepted and its removal end with the cells. -/
theorem stop_le_of_judge {accepted : Option Span} {site : Site} (hlex : Lexed (pre ++ ahead))
    (hspell : spells target ahead = true)
    (h : judge target accepted (.past keyword pre) ahead = .accepted site) :
    site.stop ≤ (pre ++ ahead).length ∧ site.removal.stop ≤ (pre ++ ahead).length := by
  obtain ⟨s, behind, rfl, rfl, -⟩ := judge_accepted ht hlex hspell h
  obtain ⟨cl, -, hbehind, hremoval⟩ := removal_eq keyword pre behind
    (pre.length + (s.cells target).length) s.tail.isSome
  have hlength := congrArg List.length hbehind
  simp only [List.length_append] at hlength
  simp only [Statement.site, Statement.ending, hremoval, List.length_append]
  omega

/-- What a search has found at the end of the cells ends with them. -/
theorem search_within {s : Search} (hlex : Lexed (pre ++ ahead))
    (hs : s.Within (pre ++ ahead).length) :
    (search target keyword s (.past keyword pre) ahead).Within (pre ++ ahead).length := by
  induction ahead generalizing pre s with
  | nil => exact hs
  | cons c ahead ih =>
    have hsplit : pre ++ c :: ahead = pre ++ [c] ++ ahead := by simp
    rw [search, ← Cursor.past_snoc]
    have hnext : ∀ s' : Search, s'.Within (pre ++ c :: ahead).length →
        (search target keyword s' (.past keyword (pre ++ [c])) ahead).Within
          (pre ++ c :: ahead).length := by
      intro s' hs'
      rw [hsplit] at hlex hs' ⊢
      exact ih hlex hs'
    split
    · next hjudged =>
      have hspell : Call.spells target (c :: ahead) = true := (Bool.and_eq_true_iff.1 hjudged).2
      have hname : pre.length + target.length ≤ (pre ++ c :: ahead).length := by
        obtain ⟨a, rest, hcells, ha⟩ := spells_iff.1 hspell
        rw [hcells, ← ha, List.length_map, List.length_append, List.length_append]
        omega
      refine hnext _ ?_
      cases hjudge : judge target (s.sites.head?.map Site.span) (.past keyword pre)
          (c :: ahead) with
      | ignored | refused reason =>
        exact ⟨by simpa [Search.record] using hname, hs.accepted⟩
      | accepted site =>
        obtain ⟨hstop, hremoval⟩ := stop_le_of_judge ht hlex hspell hjudge
        refine ⟨Nat.max_le.2 ⟨hremoval, hstop⟩, fun site' hsite => ?_⟩
        cases hsite
        exact hstop
    · exact hnext s hs

/-! ## Two texts -/

/-- The calls of two texts put together are those of the first and those of the second, moved. -/
theorem find_append (hword : ∀ b ∈ keyword, Byte.isName b = true) {text : Bytes}
    (hfinished : Finished (scan text)) (hwhole : Whole (scan text)) (others : Bytes) :
    find target keyword (text ++ others) =
      ⟨(find target keyword text).sites ++ (find target keyword others).sites.map
          (Site.behind text.length (text.count Byte.newline)),
        (find target keyword text).refused ++ (find target keyword others).refused.map
          (Refused.behind text.length (text.count Byte.newline))⟩ := by
  obtain ⟨b, name, hname, -⟩ := ht.head
  have hne : target.isEmpty = false := by
    rw [hname]
    rfl
  have hscan : scan (text ++ others) = scan text ++ scan others := by
    have := hwhole others
    rwa [map_byte_scan] at this
  have hlines : (Cursor.past keyword (scan text)).line - 1 = text.count Byte.newline := by
    rw [Cursor.line_past, map_byte_scan]
    omega
  have hfirst : (search target keyword {} (.past keyword []) (scan text)).Within
      ([] ++ scan text).length :=
    search_within ht (Lexed.scan text) ⟨Nat.zero_le _, by simp⟩
  have hsearch : search target keyword {} (.past keyword []) (scan text ++ scan others) =
      search target keyword (search target keyword {} (.past keyword []) (scan text))
        (.past keyword ([] ++ scan text)) (scan others) :=
    search_append ht (Lexed.scan others) hwhole hfinished {}
  have hcontinues := search_behind target hword hfinished hfirst (hfirst.continues _) []
    (scan others)
  rw [List.nil_append] at hsearch
  rw [List.append_nil, ← hsearch, hlines, length_scan, Cursor.past_nil] at hcontinues
  simp [find, hne, hscan, hcontinues.sites, hcontinues.refused]

end

/-- A text that closes its brackets and ends in code, with its last statement ended and its last
line ended without a carriage return. -/
structure Concluded (text : Bytes) : Prop where
  lines : ∃ body, text = body ++ [Byte.newline] ∧ body.getLast? ≠ some Byte.carriageReturn ∧
    regionAt? (regions text) body.length = none
  nested : WellNested text
  ended : ∀ b, lastByte? (scan text) = some b → b = Byte.semicolon ∨ b = Byte.closeBrace

namespace Concluded

variable {text : Bytes} (h : Concluded text)
include h

/-- A concluded text ends with a newline of code that stands behind no carriage return. -/
theorem scan_eq : ∃ init, scan text = init ++ [⟨Byte.newline, .code⟩] ∧
    ∀ c, init.getLast? = some c → c.byte ≠ Byte.carriageReturn := by
  obtain ⟨body, htext, hreturn, hcode⟩ := h.lines
  have hbytes : (scan text).map (·.byte) = body ++ [Byte.newline] := by
    rw [map_byte_scan, htext]
  obtain ⟨init, last, hscan, rfl, hlast⟩ := List.map_eq_append_iff.1 hbytes
  obtain ⟨c, rfl, hc⟩ := List.map_eq_singleton_iff.1 hlast
  rw [List.length_map] at hcode
  have hmark : c.mark = .code := (regionAt?_eq_none_iff hscan).1 hcode
  refine ⟨init, by rw [hscan, ← hc, ← hmark], fun x hx hbyte => hreturn ?_⟩
  rw [List.getLast?_map, hx, Option.map_some, hbyte]

/-- The cells of a concluded text are finished. -/
theorem finished : Finished (scan text) := by
  refine ⟨h.scan_eq, h.nested, fun a x g hcells hx hg => h.ended x.byte ?_⟩
  rw [hcells, lastByte?_eq hx hg]

/-- The cells of a concluded text read the same in front of every text. -/
theorem whole : Whole (scan text) := by
  obtain ⟨init, hscan, -⟩ := h.scan_eq
  have hlex := Lexed.scan text
  rw [hscan] at hlex ⊢
  exact hlex.whole_snoc rfl (by decide)

end Concluded

/-! ## Sweeping two texts -/

section
variable (n lines : Nat) (site : Site)

@[simp] theorem Call.Site.redirection_behind :
    (site.behind n lines).redirection = site.redirection.map (Redirection.behind n) := rfl

/-- The edit of a site behind another text is moved by its length. -/
theorem siteEdit_behind (function : Bytes) :
    siteEdit function (site.behind n lines) = (siteEdit function site).behind n := by
  cases hred : site.redirection with
  | none => simp [siteEdit, Site.behind, Span.behind, Edit.behind, hred]
  | some r => simp [siteEdit, Site.behind, Redirection.behind, Edit.behind, callText, hred]

/-- The change of a site behind another text is moved by its lines. -/
theorem siteChange_behind : siteChange (site.behind n lines) =
    { siteChange site with line := (siteChange site).line + lines } := by
  cases hred : site.redirection with
  | none => simp [siteChange, Site.behind, hred]
  | some r => simp [siteChange, Site.behind, Redirection.behind, Handler.behind, hred]

end

/-- A change is a redirection when the site has one. -/
theorem siteChange_redirected (site : Site) :
    ((siteChange site).action == .redirected) = site.redirection.isSome := by
  cases hred : site.redirection <;> simp [siteChange, hred]

/-- The outcome of a sweep, told by its sites and the calls that it leaves alone. -/
theorem sweepScript_eq {rules : Rules} (h : rules.fault? = none) {text : Bytes}
    (htext : Aligned text) : sweepScript rules text =
      { text := Edit.splice 0 text (rules.edits text)
        deleted := (rules.sites text).countP (·.redirection.isNone)
        redirected := (rules.sites text).countP (·.redirection.isSome)
        changes := (rules.sites text).map siteChange
        skipped := (rules.refused text).map fun r => ⟨r.line, r.reason⟩ } := by
  obtain ⟨out, -, happly, hout, -, -⟩ := sweepScript_weave h htext
  have hswept : out.map (·.byte) = Edit.splice 0 text (rules.edits text) := by
    rw [← hout, text_sweepScript h htext]
  have hfind : (find (.ofString rules.target) (.ofString rules.keyword) text).sites =
      rules.sites text := rfl
  have hredirected : ((rules.sites text).map siteChange).countP (·.action == .redirected) =
      (rules.sites text).countP (·.redirection.isSome) := by
    rw [List.countP_map]
    exact List.countP_congr fun site _ => by simp [siteChange_redirected]
  have hdeleted : ((rules.sites text).map siteChange).length -
      (rules.sites text).countP (·.redirection.isSome) =
        (rules.sites text).countP (·.redirection.isNone) := by
    have hnone : (rules.sites text).countP (fun site => decide ¬ site.redirection.isSome = true) =
        (rules.sites text).countP (·.redirection.isNone) :=
      List.countP_congr fun site _ => by simp
    rw [List.length_map, List.length_eq_countP_add_countP (·.redirection.isSome), hnone]
    exact Nat.add_sub_cancel_left _ _
  simp only [sweepScript, hfind, happly, hswept, hredirected, hdeleted]
  rfl

/-- A text that closes its brackets and ends in code, with its last statement and its last line
ended, is swept by itself whatever text follows, and so is the text that follows. -/
theorem sweepScript_append (rules : Rules) (h : rules.fault? = none) (x y : String)
    (hx : Concluded (.ofString x)) :
    sweepScript rules (.ofString (x ++ y)) =
      Component.append (sweepScript rules (.ofString x))
        (Component.shifted ((Bytes.ofString x).count Byte.newline)
          (sweepScript rules (.ofString y))) := by
  have hfound := find_append (Rules.dotted_target h) (Rules.isName_keyword h) hx.finished hx.whole
    (.ofString y)
  have hsites : rules.sites (.ofString x ++ .ofString y) = rules.sites (.ofString x) ++
      (rules.sites (.ofString y)).map (Site.behind (Bytes.ofString x).length
        ((Bytes.ofString x).count Byte.newline)) := congrArg Found.sites hfound
  have hrefused : rules.refused (.ofString x ++ .ofString y) = rules.refused (.ofString x) ++
      (rules.refused (.ofString y)).map (Refused.behind (Bytes.ofString x).length
        ((Bytes.ofString x).count Byte.newline)) := congrArg Found.refused hfound
  have hedits : rules.edits (.ofString x ++ .ofString y) = rules.edits (.ofString x) ++
      (rules.edits (.ofString y)).map (Edit.behind (0 + (Bytes.ofString x).length)) := by
    simp [Rules.edits, hsites, siteEdit_behind]
  obtain ⟨hordered, hfits⟩ := Rules.ordered_edits h (aligned_ofString x)
  have htext := Edit.splice_append hordered
    (fun e he => ⟨Nat.zero_le _, by simpa using hfits e he⟩) (.ofString y)
    (rules.edits (.ofString y))
  rw [ofString_append, sweepScript_eq h ((aligned_ofString x).append (aligned_ofString y)),
    sweepScript_eq h (aligned_ofString x), sweepScript_eq h (aligned_ofString y), hedits, htext,
    hsites, hrefused]
  simp [Component.append, Component.shifted, siteChange_behind, Refused.behind, List.countP_map,
    Function.comp_def]

/-- The first text ends a block, and a call in it is deleted. Of the calls behind it one is left
alone, on the second line, and one in a handler is redirected. -/
theorem sweepScript_append_handler :
    ({} : Rules).fault? = none ∧
    Concluded (.ofString "if (a) { console.log(1) }\n") ∧
    sweepScript {} (.ofString ("if (a) { console.log(1) }\n" ++
        "x = console.log(2);\ncatch (e) { console.log(e) }")) =
      { text := .ofString
          "if (a) {  }\nx = console.log(2);\ncatch (e) \x7b \n console.error(e) \x7d"
        deleted := 1
        redirected := 1
        changes := [⟨1, .deleted, none⟩, ⟨3, .redirected, some (.ofString "e")⟩]
        skipped := [⟨2, .notStatement⟩] } := by
  have hrules : ({} : Rules).fault? = none := by decide +kernel
  have hconcluded : Concluded (.ofString "if (a) { console.log(1) }\n") := by
    refine ⟨⟨.ofString "if (a) { console.log(1) }", ?_⟩, ?_, fun b hb => .inr ?_⟩
    · decide +kernel
    · decide +kernel
    · have hlast : lastByte? (scan (.ofString "if (a) { console.log(1) }\n")) =
          some Byte.closeBrace := by decide +kernel
      exact (Option.some.inj (hlast.symm.trans hb)).symm
  exact ⟨hrules, hconcluded,
    (sweepScript_append {} hrules "if (a) { console.log(1) }\n"
      "x = console.log(2);\ncatch (e) { console.log(e) }" hconcluded).trans (by decide +kernel)⟩

end LogSweep
