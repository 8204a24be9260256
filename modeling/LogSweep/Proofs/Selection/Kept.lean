import LogSweep.Proofs.Sorted
import LogSweep.Selection

/-!
# What a selection keeps

A selection looks its numbers up by halving, which finds them when they increase. The numbers that
are read from an answer do: they are sorted, and of equal neighbours one is kept
(`increasing_normal`). So a selection that has been read keeps, in their
order, exactly the items whose places it names (`keeps_only`), or the others (`keeps_allBut`).
-/

namespace LogSweep.Selection

/-- The items whose position, counted from the given number on, has the property are kept, in their
order. -/
inductive Keeps {α : Type u} (p : Nat → Prop) : Nat → List α → List α → Prop
  | nil {n : Nat} : Keeps p n [] []
  | keep {n : Nat} {x : α} {items kept : List α} (hx : p n) (hrest : Keeps p (n + 1) items kept) :
      Keeps p n (x :: items) (x :: kept)
  | drop {n : Nat} {x : α} {items kept : List α} (hx : ¬ p n) (hrest : Keeps p (n + 1) items kept) :
      Keeps p n (x :: items) kept

variable {α : Type u} {p : Nat → Prop} {items kept others : List α}

/-- A property that holds everywhere keeps all items. -/
theorem keeps_all (hp : ∀ n, p n) (n : Nat) (items : List α) : Keeps p n items items := by
  induction items generalizing n with
  | nil => exact .nil
  | cons x items ih => exact .keep (hp n) (ih (n + 1))

/-- What is kept and what is dropped are all the items, each once. -/
theorem Keeps.perm {n : Nat} (h : Keeps p n items kept) (h' : Keeps (¬ p ·) n items others) :
    (kept ++ others).Perm items := by
  induction h generalizing others with
  | nil =>
    cases h'
    exact .refl _
  | keep hx _ ih =>
    cases h' with
    | keep hx' _ => exact absurd hx hx'
    | drop _ hrest => exact (ih hrest).cons _
  | drop hx _ ih =>
    cases h' with
    | keep _ hrest => exact List.perm_middle.trans ((ih hrest).cons _)
    | drop hx' _ => exact absurd hx hx'

/-- Picking by place, where places count from zero and positions from one. -/
theorem keeps_filter (pick : Nat → Bool) (hpick : ∀ i, pick i = true ↔ p (i + 1)) (i : Nat)
    (items : List α) :
    Keeps p (i + 1) items (((items.zipIdx i).filter fun x => pick x.2).map (·.1)) := by
  induction items generalizing i with
  | nil => exact .nil
  | cons x items ih =>
    rw [List.zipIdx_cons]
    by_cases hx : pick i = true
    · rw [List.filter_cons_of_pos (p := fun x : α × Nat => pick x.2) hx, List.map_cons]
      exact .keep ((hpick i).1 hx) (ih (i + 1))
    · rw [List.filter_cons_of_neg (p := fun x : α × Nat => pick x.2) hx]
      exact .drop (fun h => hx ((hpick i).2 h)) (ih (i + 1))

/-! ## Increasing numbers -/

variable {indices : List Nat} {n : Nat}

/-- No number is lost or added. -/
theorem mem_normal : n ∈ normal indices ↔ n ∈ indices := by
  constructor
  · intro h
    exact List.mem_mergeSort.1 (Sorted.mem_of_mem_dropRepeated h)
  · intro h
    obtain ⟨kept, hkept, hsame⟩ : ∃ kept ∈ normal indices, kept = n :=
      Sorted.exists_mem_dropRepeated (List.mem_mergeSort.2 h)
    rwa [hsame] at hkept

/-- Indices are left in increasing order, each once. -/
theorem increasing_normal (indices : List Nat) : (normal indices).Pairwise (· < ·) := by
  have hsorted : (indices.mergeSort fun a b => decide (a ≤ b)).Pairwise
      fun a b => decide (a ≤ b) = true := by
    refine List.pairwise_mergeSort (fun a b c hab hbc => ?_) (fun a b => ?_) indices
    · rw [decide_eq_true_eq] at *
      exact Nat.le_trans hab hbc
    · rw [Bool.or_eq_true, decide_eq_true_eq, decide_eq_true_eq]
      exact Nat.le_total a b
  exact Sorted.pairwise_dropRepeated (fun _ _ _ => Nat.lt_trans) (fun _ _ => Nat.lt_of_le_of_ne)
    (hsorted.imp of_decide_eq_true)

/-- The numbers of an answer are looked up among increasing ones. -/
theorem isAmong_normal_iff {i : Nat} :
    Sorted.isAmong (normal indices).toArray i = true ↔ i ∈ indices := by
  have hamong : Sorted.isAmong (normal indices).toArray i = true ↔ i ∈ (normal indices).toArray :=
    Sorted.isAmong_iff_mem (increasing_normal indices)
  rw [hamong, List.mem_toArray, mem_normal]

/-! ## Selections that have been read -/

/-- Picking indices keeps the items at these places: the search finds exactly them in the sorted
table. -/
theorem keeps_only (hp : ∀ i, i ∈ indices ↔ p (i + 1)) (items : List α) :
    Keeps p 1 items ((only (normal indices)).apply items) := by
  refine keeps_filter (Sorted.isAmong (normal indices).toArray) (fun i => ?_) 0 items
  rw [isAmong_normal_iff, hp]

/-- Leaving out indices keeps the other items. -/
theorem keeps_allBut (hp : ∀ i, i ∈ indices ↔ ¬ p (i + 1)) (items : List α) :
    Keeps p 1 items ((allBut (normal indices)).apply items) := by
  refine keeps_filter (fun i => !Sorted.isAmong (normal indices).toArray i) (fun i => ?_) 0 items
  rw [Bool.not_eq_true', ← Bool.not_eq_true, isAmong_normal_iff, hp, Classical.not_not]

end LogSweep.Selection
