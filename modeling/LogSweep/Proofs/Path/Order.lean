import LogSweep.Path
import LogSweep.Proofs.Sorted
import Mathlib.Data.List.Lex
import Mathlib.Data.String.Basic

/-!
# The order of paths

Paths are ordered by their parts, lexicographically: `Before` is the order of the library's lists
over the order of parts, and comes down to the comparison that sorts paths (`before_iff`). So sorted
paths with different parts go strictly upward (`pairwise_before_sort`), and so do sorted paths once
the repeated ones are dropped (`pairwise_before_dropRepeated`), which keeps one spelling of each
(`exists_mem_dropRepeated`).
-/

namespace LogSweep.Path

/-! ## Parts -/

namespace Part

variable {a b c : Part}

/-- Parts are ordered by their rank, and then by their text. -/
theorem lt_iff : a.lt b = true ↔ a.rank < b.rank ∨ a.rank = b.rank ∧ a.text < b.text := by
  simp [Part.lt]

/-- A part is its rank and its text. -/
theorem eq_of_rank_eq (hrank : a.rank = b.rank) (htext : a.text = b.text) : a = b := by
  cases a <;> cases b <;> first | rfl | exact congrArg Part.name htext | cases hrank

protected theorem lt_irrefl (a : Part) : ¬ a.lt a = true := by
  rw [lt_iff]
  rintro (h | ⟨-, h⟩)
  · exact Nat.lt_irrefl _ h
  · exact lt_irrefl _ h

protected theorem lt_trans (hab : a.lt b = true) (hbc : b.lt c = true) : a.lt c = true := by
  rw [lt_iff] at *
  rcases hab with hab | ⟨hab, htext⟩
  · left
    rcases hbc with hbc | ⟨hbc, -⟩ <;> omega
  · rcases hbc with hbc | ⟨hbc, htext'⟩
    · left
      omega
    · exact .inr ⟨hab.trans hbc, htext.trans htext'⟩

protected theorem lt_trichotomy (a b : Part) : a.lt b = true ∨ a = b ∨ b.lt a = true := by
  rw [lt_iff, lt_iff]
  rcases Nat.lt_trichotomy a.rank b.rank with hrank | hrank | hrank
  · exact .inl (.inl hrank)
  · rcases lt_trichotomy a.text b.text with htext | htext | htext
    · exact .inl (.inr ⟨hrank, htext⟩)
    · exact .inr (.inl (eq_of_rank_eq hrank htext))
    · exact .inr (.inr (.inr ⟨hrank.symm, htext⟩))
  · exact .inr (.inr (.inl hrank))

end Part

/-! ## Lists of parts -/

section
variable {as bs cs : List Part}

/-- Parts are compared one by one, and a path comes before what it begins. -/
theorem leParts_iff_lex :
    leParts as bs = true ↔ as = bs ∨ List.Lex (fun a b => a.lt b = true) as bs := by
  induction as generalizing bs with
  | nil =>
    cases bs with
    | nil => exact iff_of_true rfl (.inl rfl)
    | cons b bs => exact iff_of_true rfl (.inr .nil)
  | cons a as ih =>
    cases bs with
    | nil => exact iff_of_false Bool.false_ne_true (by rintro (h | h) <;> cases h)
    | cons b bs =>
      rw [leParts, Bool.or_eq_true, Bool.and_eq_true, beq_iff_eq, ih]
      constructor
      · rintro (hlt | ⟨rfl, rfl | hlex⟩)
        · exact .inr (.rel hlt)
        · exact .inl rfl
        · exact .inr (.cons hlex)
      · rintro (heq | hlex)
        · cases heq
          exact .inr ⟨rfl, .inl rfl⟩
        · cases hlex with
          | rel hlt => exact .inl hlt
          | cons hlex => exact .inr ⟨rfl, .inr hlex⟩

/-- Any two paths can be compared. -/
theorem leParts_total (as bs : List Part) : leParts as bs = true ∨ leParts bs as = true := by
  induction as generalizing bs with
  | nil => exact .inl rfl
  | cons a as ih =>
    cases bs with
    | nil => exact .inr rfl
    | cons b bs =>
      simp only [leParts, Bool.or_eq_true, Bool.and_eq_true, beq_iff_eq]
      rcases Part.lt_trichotomy a b with hlt | rfl | hlt
      · exact .inl (.inl hlt)
      · exact (ih bs).imp (fun h => .inr ⟨rfl, h⟩) (fun h => .inr ⟨rfl, h⟩)
      · exact .inr (.inl hlt)

/-- The order of parts is transitive. -/
theorem lex_trans (hab : List.Lex (fun a b => Part.lt a b = true) as bs)
    (hbc : List.Lex (fun a b => Part.lt a b = true) bs cs) :
    List.Lex (fun a b => Part.lt a b = true) as cs := by
  induction hab generalizing cs with
  | nil => cases hbc <;> exact .nil
  | rel hlt =>
    cases hbc with
    | rel hlt' => exact .rel (Part.lt_trans hlt hlt')
    | cons => exact .rel hlt
  | cons _ ih =>
    cases hbc with
    | rel hlt => exact .rel hlt
    | cons hlex => exact .cons (ih hlex)

/-- The order of parts is strict. -/
theorem lex_irrefl (as : List Part) : ¬ List.Lex (fun a b => Part.lt a b = true) as as := by
  intro h
  induction as with
  | nil => cases h
  | cons a as ih =>
    cases h with
    | rel hlt => exact Part.lt_irrefl a hlt
    | cons hlex => exact ih hlex

end

/-! ## Paths -/

/-- A path comes before another: part by part, and before everything below it. -/
def Before (a b : String) : Prop :=
  List.Lex (fun x y => Part.lt x y = true) (parts a) (parts b)

section
variable {a b c : String} {paths : List String}

/-- The order of paths is transitive. -/
theorem Before.trans (hab : Before a b) (hbc : Before b c) : Before a c :=
  lex_trans hab hbc

/-- Paths in strict order have different parts. -/
theorem Before.ne (h : Before a b) : parts a ≠ parts b := by
  intro heq
  rw [Before, heq] at h
  exact lex_irrefl _ h

/-- A path comes no later than another when it comes before it or has the same parts. -/
theorem le_iff : le a b = true ↔ parts a = parts b ∨ Before a b :=
  leParts_iff_lex

/-- A path comes before another when it comes no later and has other parts. -/
theorem before_iff : Before a b ↔ le a b = true ∧ parts a ≠ parts b := by
  rw [le_iff]
  exact ⟨fun h => ⟨.inr h, h.ne⟩, fun h => h.1.resolve_left h.2⟩

/-- Sorted paths are in order. -/
theorem pairwise_le_sort (paths : List String) :
    (sort paths).Pairwise fun a b => le a b = true := by
  refine List.pairwise_mergeSort (fun a b c hab hbc => ?_) (fun a b => ?_) paths
  · rw [le_iff] at *
    rcases hab with hab | hab
    · rw [Before, hab]
      exact hbc
    · rcases hbc with hbc | hbc
      · right
        rw [Before, ← hbc]
        exact hab
      · exact .inr (hab.trans hbc)
  · rw [Bool.or_eq_true]
    exact leParts_total _ _

/-- Sorted paths with different parts go strictly upward. -/
theorem pairwise_before_sort (h : (paths.map parts).Nodup) : (sort paths).Pairwise Before := by
  have hne : ((sort paths).map parts).Nodup :=
    ((List.mergeSort_perm paths le).map parts).nodup_iff.2 h
  have hne : (sort paths).Pairwise fun a b => parts a ≠ parts b := List.pairwise_map.1 hne
  exact ((pairwise_le_sort paths).and hne).imp before_iff.2

/-- Of each path one spelling is kept. -/
theorem exists_mem_dropRepeated {path : String} (h : path ∈ paths) :
    ∃ kept ∈ dropRepeated paths, parts kept = parts path :=
  Sorted.exists_mem_dropRepeated h

/-- Of sorted paths, those that do not repeat the one before go strictly upward. -/
theorem pairwise_before_dropRepeated (h : paths.Pairwise fun a b => le a b = true) :
    (dropRepeated paths).Pairwise Before :=
  Sorted.pairwise_dropRepeated (fun _ _ _ => Before.trans)
    (fun _ _ hle hne => before_iff.2 ⟨hle, hne⟩) h

end

end LogSweep.Path
