import LogSweep.Proofs.Block.Enclosing

/-!
# What the cursor remembers

The brackets that a cursor keeps as open, and the group that it keeps as closed last, are those of
cells that it has passed over (`remembers_past`). So what is read there later still stands in the
text.
-/

namespace LogSweep.Block.Cursor

open Lexical

/-- An open bracket was opened by one of the cells. -/
def OpenedIn (keyword : Bytes) (cells : List Cell) (o : Opener) : Prop :=
  ∃ front p rest, cells = front ++ p :: rest ∧ Bracket.opened? p.byte = some o.bracket ∧
    o.offset = front.length ∧ o.previous = (past keyword front).lastCode

/-- A group was opened and closed by two of the cells. -/
def ClosedIn (keyword : Bytes) (cells : List Cell) (group : Group) : Prop :=
  ∃ front p listed x rest, cells = front ++ p :: (listed ++ x :: rest) ∧
    p.byte = Byte.openParen ∧ x.byte = Byte.closeParen ∧ group.openParen = front.length ∧
    group.closeParen = (front ++ p :: listed).length ∧
    group.previous = (past keyword front).lastCode

/-- A cursor remembers nothing but brackets and groups of the cells. -/
structure Remembers (keyword : Bytes) (cells : List Cell) (cursor : Cursor) : Prop where
  openers : ∀ o ∈ cursor.openers, OpenedIn keyword cells o
  group : ∀ g ∈ cursor.lastGroup, ClosedIn keyword cells g

section
variable {keyword : Bytes} {cells : List Cell} {cursor : Cursor}

/-- A parenthesis that is open makes a group with the one that closes it. -/
theorem OpenedIn.closed {o : Opener} (h : OpenedIn keyword cells o) (ho : o.bracket = .paren)
    {c : Cell} (hc : Bracket.closed? c.byte = some .paren) :
    ClosedIn keyword (cells ++ [c]) ⟨o.offset, cells.length, o.previous⟩ := by
  obtain ⟨front, p, rest, rfl, hp, hoffset, hprevious⟩ := h
  rw [ho] at hp
  exact ⟨front, p, rest, c, [], by simp, Bracket.opened?_eq_paren_iff.1 hp,
    Bracket.closed?_eq_paren_iff.1 hc, hoffset, rfl, hprevious⟩

/-- What a cursor remembers of cells it remembers of more cells. -/
theorem Remembers.snoc (h : Remembers keyword cells cursor) (c : Cell) :
    Remembers keyword (cells ++ [c]) cursor := by
  constructor
  · intro o ho
    obtain ⟨front, p, rest, rfl, hp⟩ := h.openers o ho
    exact ⟨front, p, rest ++ [c], by simp, hp⟩
  · intro g hg
    obtain ⟨front, p, listed, x, rest, rfl, hp⟩ := h.group g hg
    exact ⟨front, p, listed, x, rest ++ [c], by simp, hp⟩

/-- A closed bracket leaves some of the open ones, and a group when it is a parenthesis. -/
theorem Remembers.closing (h : Remembers keyword cells cursor)
    (hoffset : cursor.offset = cells.length) {c : Cell} {bracket : Bracket}
    (hc : Bracket.closed? c.byte = some bracket) :
    Remembers keyword (cells ++ [c]) (cursor.closing bracket) := by
  have hsnoc := h.snoc c
  unfold Cursor.closing
  cases hdrop : cursor.openers.dropWhile (·.bracket != bracket) with
  | nil => exact hsnoc
  | cons o openers =>
    have hsub : ∀ o' ∈ o :: openers, o' ∈ cursor.openers := by
      rw [← hdrop]
      exact fun o' ho' => (List.dropWhile_sublist _).subset ho'
    refine ⟨fun o' ho' => hsnoc.openers o' (hsub o' (List.mem_cons_of_mem _ ho')), fun g hg => ?_⟩
    simp only at hg
    split at hg
    · next hparen =>
      obtain rfl : bracket = .paren := by simpa using hparen
      have ho : o.bracket = .paren := by
        have := List.head?_dropWhile_not (·.bracket != .paren) cursor.openers
        rw [hdrop] at this
        simpa using this
      cases hg
      rw [hoffset]
      exact (h.openers o (hsub o List.mem_cons_self)).closed ho hc
    · exact hsnoc.group g hg

/-- One more cell adds what it opens or closes. -/
theorem Remembers.step (h : Remembers keyword cells (past keyword cells)) (c : Cell) :
    Remembers keyword (cells ++ [c]) ((past keyword cells).step keyword c) := by
  have hsnoc := h.snoc c
  unfold Cursor.step
  cases c.isSignificant with
  | false => exact ⟨hsnoc.openers, hsnoc.group⟩
  | true =>
    rw [if_pos rfl]
    unfold bracketed
    cases hopen : Bracket.opened? c.byte with
    | some bracket =>
      have hnew : OpenedIn keyword (cells ++ [c]) ((past keyword cells).opener keyword bracket) :=
        ⟨cells, c, [], rfl, hopen, offset_past keyword cells, rfl⟩
      exact ⟨List.forall_mem_cons.2 ⟨hnew, hsnoc.openers⟩, hsnoc.group⟩
    | none =>
      cases hclose : Bracket.closed? c.byte with
      | none => exact ⟨hsnoc.openers, hsnoc.group⟩
      | some bracket =>
        obtain ⟨hopeners, hgroup⟩ := h.closing (offset_past keyword cells) hclose
        exact ⟨hopeners, hgroup⟩

/-- A cursor remembers only what stands in the cells that it passed. -/
theorem remembers_past (keyword : Bytes) (cells : List Cell) :
    Remembers keyword cells (past keyword cells) := by
  induction cells using List.reverseRecOn with
  | nil => exact ⟨by simp, by simp⟩
  | append_singleton cells c ih =>
    rw [past_snoc]
    exact ih.step c

/-- An open bracket stands before the place of the cursor. -/
theorem offset_lt_of_mem_openers {o : Opener} (h : o ∈ (past keyword cells).openers) :
    o.offset < cells.length := by
  obtain ⟨front, p, rest, rfl, -, hoffset, -⟩ := (remembers_past keyword cells).openers o h
  rw [hoffset, List.length_append, List.length_cons]
  omega

end

end LogSweep.Block.Cursor
