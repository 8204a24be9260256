import LogSweep.Proofs.Checked.Calls
import LogSweep.Proofs.Text.Boundaries

/-!
# The search for calls by checked reads

The target is looked for from where the search goes on. That offset never splits a character: it
comes behind a name or behind a statement and the blanks that are removed with it (`resume_record`).
So the search can always go on, and it finds the call statements of the text (`find?_eq`).
-/

namespace LogSweep.Call

def Search.unplaced (s : Search) : Search :=
  { s with sites := s.sites.map Site.unplaced }

end LogSweep.Call

namespace LogSweep.Checked

open Lexical Block Call

/-- How far it is to the first place where the target is spelled out. -/
def distance? (target : Bytes) : Bytes → Option Nat
  | [] => none
  | b :: rest =>
    if target.isPrefixOf (b :: rest) then some 0 else (distance? target rest).map (· + 1)

/-- Searches the text from where the search goes on. -/
def search? (text : Bytes) (rs : List Region) (target : Bytes) (s : Search) (w : Walker) :
    Option Search := do
  let rest ← text.cut? ⟨s.resume, text.length⟩
  match distance? target rest with
  | none => return s
  | some n => do
    let start := s.resume + n
    let (verdict, next) ← judgeAt? text rs target (s.sites.head?.map Site.span) w start
    let s' := s.record target { offset := start, line := lineNumber text start } verdict
    if s.resume < s'.resume ∧ s'.resume ≤ text.length then search? text rs target s' next else none
termination_by text.length - s.resume
decreasing_by
  rename_i h
  exact Nat.sub_lt_sub_left (Nat.lt_of_lt_of_le h.1 h.2) h.1

/-- Finds the calls of the target. -/
def find? (target text : Bytes) (rs : List Region) : Option Found :=
  if target.isEmpty then some {} else do
    let s ← search? text rs target {} {}
    return ⟨s.sites.reverse, s.refused.reverse⟩

/-! ## Searching -/

/-- Cells spell a word when their bytes begin with it. -/
theorem spells_eq (target : Bytes) (cells : List Cell) :
    spells target cells = target.isPrefixOf (cells.map (·.byte)) := by
  induction target generalizing cells with
  | nil => cases cells <;> rfl
  | cons b target ih =>
    cases cells with
    | nil => rfl
    | cons c cells => rw [spells, ih, List.map_cons, List.isPrefixOf_cons_cons]

/-- The target is spelled out nowhere among the cells in front of `b`. -/
def Unspelled (target : Bytes) (a b : List Cell) : Prop :=
  ∀ front c rest, a = front ++ c :: rest → spells target (c :: rest ++ b) = false

/-- A stretch with no spelling grows by a cell where nothing is spelled. -/
theorem Unspelled.cons {target : Bytes} {a b : List Cell} {c : Cell}
    (hc : spells target (c :: a ++ b) = false) (h : Unspelled target a b) :
    Unspelled target (c :: a) b := by
  intro front x rest hsplit
  cases front with
  | nil =>
    obtain ⟨rfl, rfl⟩ := List.cons.inj hsplit
    exact hc
  | cons y front => exact h front x rest (List.cons.inj hsplit).2

/-- The first place where the target is spelled out, if there is one. -/
theorem distance?_cases (target : Bytes) (cells : List Cell) :
    (distance? target (cells.map (·.byte)) = none ∧ Unspelled target cells []) ∨
      ∃ a c b, cells = a ++ c :: b ∧ distance? target (cells.map (·.byte)) = some a.length ∧
        spells target (c :: b) = true ∧ Unspelled target a (c :: b) := by
  induction cells with
  | nil => exact .inl ⟨rfl, fun front c rest h => by cases front <;> cases h⟩
  | cons x cells ih =>
    have hfirst := spells_eq target (x :: cells)
    rw [List.map_cons] at hfirst
    rw [List.map_cons, distance?, ← hfirst]
    cases hspell : spells target (x :: cells) with
    | true =>
      exact .inr ⟨[], x, cells, rfl, rfl, hspell, fun front c rest h => by cases front <;> cases h⟩
    | false =>
      rw [if_neg Bool.false_ne_true]
      rcases ih with ⟨hnone, hcells⟩ | ⟨a, c, b, rfl, hsome, hb, ha⟩
      · exact .inl ⟨by rw [hnone]; rfl, .cons (by simpa using hspell) hcells⟩
      · exact .inr ⟨x :: a, c, b, rfl, by rw [hsome]; rfl, hb, .cons hspell ha⟩

section
variable {target keyword : Bytes}

/-- The search passes over what does not spell out the target. -/
theorem search_unspelled {s : Search} {pre a b : List Cell} (hresume : s.resume ≤ pre.length)
    (h : Unspelled target a b) :
    search target keyword s (.past keyword pre) (a ++ b) =
      search target keyword s (.past keyword (pre ++ a)) b := by
  induction a generalizing pre with
  | nil => rw [List.append_nil, List.nil_append]
  | cons c a ih =>
    have hc : spells target (c :: (a ++ b)) = false := h [] c a rfl
    have hrest : Unspelled target a b := fun front x rest hsplit =>
      h (c :: front) x rest (by rw [hsplit]; rfl)
    rw [List.cons_append, search_cons hresume, hc, if_neg Bool.false_ne_true, ih ?_ hrest,
      ← List.append_cons]
    rw [List.length_append]
    omega

/-- Recording by offset and line is recording by the cursor, without its places. -/
theorem unplaced_record {text : Bytes} {pre ahead : List Cell} (h : scan text = pre ++ ahead)
    (s : Search) (v : Verdict) :
    s.unplaced.record target { offset := pre.length, line := lineNumber text pre.length }
        v.unplaced = (s.record target (.past keyword pre) v).unplaced := by
  have hline : (Cursor.past keyword pre).line = lineNumber text pre.length := (line_past_split h).2
  cases v with
  | ignored => simp [Search.record, Search.unplaced, Verdict.unplaced]
  | refused reason => simp [Search.record, Search.unplaced, Verdict.unplaced, hline]
  | accepted site => rfl

/-- Where the search goes on behind a place that it has judged, no character is split. -/
theorem resume_record {text : Bytes} (ht : Dotted target) (htext : Aligned text)
    (hname : ∀ front rest, text = front ++ (target ++ rest) →
      Bytes.isBoundary text.toArray (front ++ target).length = true)
    {pre ahead : List Cell} (h : scan text = pre ++ ahead) (hspell : spells target ahead = true)
    (s : Search) (accepted : Option Span) :
    ∃ c more rest, ahead = c :: more ++ rest ∧
      (s.record target (.past keyword pre)
        (judge target accepted (.past keyword pre) ahead)).resume = (pre ++ c :: more).length ∧
      IsCut text (pre ++ c :: more).length := by
  have hspelled : ∃ c more rest, ahead = c :: more ++ rest ∧
      pre.length + target.length = (pre ++ c :: more).length ∧
      IsCut text (pre ++ c :: more).length := by
    obtain ⟨name, rest, rfl, rfl⟩ := spells_iff.1 hspell
    obtain ⟨c, more, rfl⟩ : ∃ c more, name = c :: more := by
      obtain ⟨b, bytes, hb, -⟩ := ht.head
      obtain ⟨c, more, rfl, -⟩ := List.map_eq_cons_iff.1 hb
      exact ⟨c, more, rfl⟩
    have hlength : pre.length + ((c :: more).map (·.byte)).length = (pre ++ c :: more).length := by
      rw [List.length_map, List.length_append]
    refine ⟨c, more, rest, rfl, hlength, ?_, ?_⟩
    · rw [length_of_scan (h.trans (List.append_assoc ..).symm)]
      exact Nat.le_add_right _ _
    · have htext' : text = pre.map (·.byte) ++ ((c :: more).map (·.byte) ++ rest.map (·.byte)) := by
        rw [← List.map_append, ← List.map_append, ← h, map_byte_scan]
      have := hname _ _ htext'
      rwa [List.length_append, List.length_map, hlength] at this
  cases hjudge : judge target accepted (.past keyword pre) ahead with
  | ignored | refused =>
    obtain ⟨c, more, rest, hahead, hlength, hcut⟩ := hspelled
    exact ⟨c, more, rest, hahead, by rw [← hlength, Search.record, Cursor.offset_past], hcut⟩
  | accepted site =>
    obtain ⟨st, behind, hahead, rfl, hat⟩ := judge_accepted ht (h ▸ Lexed.scan text) hspell hjudge
    obtain ⟨cl, -, hbehind, hcl⟩ := removal_eq keyword pre behind
      (pre.length + (st.cells target).length) st.tail.isSome
    have hremoval : (st.site target keyword pre behind).removal = ⟨cl.up.length,
      pre.length + (st.cells target).length + cl.gap.length + cl.brk.length⟩ := hcl
    obtain ⟨c, tl, htl, -, -⟩ := st.cells_eq_cons ht
    have hcells : pre ++ c :: (tl ++ cl.gap ++ cl.brk) =
        pre ++ st.cells target ++ (cl.gap ++ cl.brk) := by
      rw [htl]
      simp
    refine ⟨c, tl ++ cl.gap ++ cl.brk, cl.rest, ?_, ?_, ?_⟩
    · rw [hahead, hbehind, htl]
      simp
    · rw [hcells, Search.record, hremoval]
      simp only [Statement.site, List.length_append]
      omega
    · have hsplit : scan text = pre ++ st.cells target ++ (cl.gap ++ cl.brk) ++ cl.rest := by
        rw [h, hahead, hbehind]
        simp
      rw [hcells]
      exact isCut_of_ended htext hsplit ((hat.boundary.append (st.ended target)).append
        (ended_of_isBlank cl.isBlank))

/-- The search judges the next place where the target is spelled out, and goes on behind it. -/
theorem search?_step {text : Bytes} (ht : Dotted target) (htext : Aligned text)
    (hname : ∀ front rest, text = front ++ (target ++ rest) →
      Bytes.isBoundary text.toArray (front ++ target).length = true)
    {pre ahead : List Cell} (h : scan text = pre ++ ahead) (hspell : spells target ahead = true)
    {s s' : Search} (hs' : s' = s.record target (.past keyword pre)
      (judge target (s.sites.head?.map Site.span) (.past keyword pre) ahead))
    {rest : Bytes} (hcut : text.cut? ⟨s.resume, text.length⟩ = some rest) {n : Nat}
    (hn : distance? target rest = some n) (hplace : s.resume + n = pre.length) {w : Walker}
    (hw : Reached [] text pre w) :
    ∃ c more rest w', ahead = c :: more ++ rest ∧ s'.resume = (pre ++ c :: more).length ∧
      IsCut text (pre ++ c :: more).length ∧ Reached [] text (pre ++ c :: more) w' ∧
      search? text (regions text) target s.unplaced w =
        search? text (regions text) target s'.unplaced w' := by
  obtain ⟨w', hjudge, hw'⟩ := judgeAt?_eq ht htext h hspell hw keyword
    (s.sites.head?.map Site.span)
  obtain ⟨c, more, rest, hahead, hnext, hcutNext⟩ := @resume_record target keyword text ht htext
    hname _ _ h hspell s (s.sites.head?.map Site.span)
  rw [← hs'] at hnext
  refine ⟨c, more, rest, w', hahead, hnext, hcutNext, hw'.mono _, ?_⟩
  have hspan : s.unplaced.sites.head?.map Site.span = s.sites.head?.map Site.span := by
    show (s.sites.map Site.unplaced).head?.map Site.span = _
    rw [List.head?_map, Option.map_map]
    rfl
  have hgo : s.unplaced.resume < s'.unplaced.resume ∧ s'.unplaced.resume ≤ text.length := by
    show s.resume < s'.resume ∧ s'.resume ≤ text.length
    rw [hnext]
    refine ⟨?_, hcutNext.1⟩
    simp only [List.length_append, List.length_cons]
    omega
  have hread : text.cut? ⟨s.unplaced.resume, text.length⟩ = some _ := hcut
  have hstart : s.unplaced.resume + n = pre.length := hplace
  rw [search?, hread, Option.bind_eq_bind, Option.bind_some, hn]
  simp only [hstart, hspan, hjudge, Option.bind_eq_bind, Option.bind_some,
    @unplaced_record target keyword text _ _ h, ← hs']
  rw [if_pos hgo]

/-- The search finds what the library finds. The induction is on the length of the cells ahead: the
search goes on behind the place that it has judged. -/
theorem search?_eq {text : Bytes} (ht : Dotted target) (htext : Aligned text)
    (hname : ∀ front rest, text = front ++ (target ++ rest) →
      Bytes.isBoundary text.toArray (front ++ target).length = true)
    {pre ahead : List Cell} (h : scan text = pre ++ ahead) {s : Search}
    (hresume : s.resume = pre.length) (hcut : IsCut text pre.length) {w : Walker}
    (hw : Reached [] text pre w) :
    search? text (regions text) target s.unplaced w =
      some (search target keyword s (.past keyword pre) ahead).unplaced := by
  induction hn : ahead.length using Nat.strongRecOn generalizing pre ahead s w with
  | ind n ih =>
  subst hn
  have hread : text.cut? ⟨s.resume, text.length⟩ = some (ahead.map (·.byte)) := by
    rw [hresume, Bytes.cut?_eq_range? hcut.2 (Bytes.isBoundary_length text),
      Bytes.range?_end hcut.1, drop_of_scan h]
  rcases distance?_cases target ahead with ⟨hnone, hcells⟩ | ⟨a, c, b, rfl, hsome, hspell, ha⟩
  · have hread : text.cut? ⟨s.unplaced.resume, text.length⟩ = some _ := hread
    have hdone := @search_unspelled target keyword s pre ahead [] (Nat.le_of_eq hresume) hcells
    rw [List.append_nil] at hdone
    rw [search?, hread, Option.bind_eq_bind, Option.bind_some, hnone, hdone]
    rfl
  · have hplace : scan text = (pre ++ a) ++ c :: b := by rw [h, List.append_assoc]
    have hstart : s.resume + a.length = (pre ++ a).length := by rw [List.length_append, hresume]
    have hresume' : s.resume ≤ (pre ++ a).length := by omega
    rw [search_unspelled (Nat.le_of_eq hresume) ha, search_cons hresume', if_pos hspell]
    generalize hs' : s.record target (.past keyword (pre ++ a)) _ = s'
    obtain ⟨x, more, rest, w', hsplit, hnext, hcutNext, hw', hstep⟩ := @search?_step target keyword
      text ht htext hname _ _ hplace hspell s s' hs'.symm _ hread _ hsome hstart w (hw.mono a)
    obtain ⟨rfl, hb⟩ := List.cons.inj hsplit
    have hb : b = more ++ rest := hb
    subst hb
    have hskip : (pre ++ a ++ [c]).length + more.length ≤ s'.resume := by
      rw [hnext]
      simp only [List.length_append, List.length_cons, List.length_nil]
      omega
    have hmore : pre ++ a ++ [c] ++ more = pre ++ a ++ c :: more := by simp
    rw [hstep, search_skip target keyword rest hskip, hmore]
    refine ih rest.length ?_ ?_ hnext hcutNext hw' rfl
    · simp only [List.length_append, List.length_cons]
      omega
    · rw [hplace]
      simp

end

/-- The calls of the target are found as the library finds them, with every read in order. -/
theorem find?_eq {source target : String} (ht : Rules.isDottedName target.toList = true)
    (keyword : Bytes) :
    find? (.ofString target) (.ofString source) (regions (.ofString source)) =
      some ⟨(find (.ofString target) keyword (.ofString source)).sites.map Site.unplaced,
        (find (.ofString target) keyword (.ofString source)).refused⟩ := by
  have hdotted := Rules.dotted_of_isDottedName ht
  obtain ⟨b, name, hname, -⟩ := hdotted.head
  have hne : Bytes.ofString target ≠ [] := by
    rw [hname]
    exact List.cons_ne_nil b name
  have hempty : (Bytes.ofString target).isEmpty = false := by
    rw [hname]
    rfl
  have hsearch := @search?_eq (.ofString target) keyword (.ofString source) hdotted
    (aligned_ofString source) (fun front rest h => isBoundary_behind_ofString hne h) []
    (scan (.ofString source)) rfl {} rfl
    ⟨Nat.zero_le _, isBoundary_zero source.toList⟩ {} (reached_past [] (.start _))
  have hstart : Search.unplaced {} = {} := rfl
  rw [hstart] at hsearch
  rw [find?, find, hempty, hsearch]
  simp [Search.unplaced]

end LogSweep.Checked
