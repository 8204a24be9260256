import LogSweep.Sorted

/-!
# Looking up and dropping in sorted lists

Of elements with the same key that stand side by side one is kept (`exists_mem_dropRepeated`), so a
sorted list goes strictly upward once the repeated elements are dropped (`pairwise_dropRepeated`). A
number among increasing ones is found by halving (`isAmong_iff_mem`).
-/

namespace LogSweep.Sorted

/-! ## Dropping what is repeated -/

section
variable {α : Type u} {β : Type v} [BEq β] {key : α → β} {xs : List α}

/-- Nothing is added behind the first element. -/
theorem mem_of_mem_go {previous x : α} (h : x ∈ dropRepeated.go key previous xs) : x ∈ xs := by
  induction xs generalizing previous with
  | nil => exact h
  | cons y xs ih =>
    rw [dropRepeated.go] at h
    split at h
    · exact List.mem_cons_of_mem _ (ih h)
    · rcases List.mem_cons.1 h with rfl | h
      · exact List.mem_cons_self
      · exact List.mem_cons_of_mem _ (ih h)

/-- Nothing is added. -/
theorem mem_of_mem_dropRepeated {x : α} (h : x ∈ dropRepeated key xs) : x ∈ xs := by
  cases xs with
  | nil => exact h
  | cons y xs =>
    rcases List.mem_cons.1 h with rfl | h
    · exact List.mem_cons_self
    · exact List.mem_cons_of_mem _ (mem_of_mem_go h)

variable [LawfulBEq β]

/-- What is dropped has the key of something that is kept. -/
theorem exists_mem_go {previous x : α} (h : x ∈ previous :: xs) :
    ∃ kept ∈ previous :: dropRepeated.go key previous xs, key kept = key x := by
  induction xs generalizing previous with
  | nil => exact ⟨x, h, rfl⟩
  | cons y xs ih =>
    rw [dropRepeated.go]
    split
    · next hsame =>
      rcases List.mem_cons.1 h with rfl | h
      · exact ⟨x, List.mem_cons_self, rfl⟩
      · rcases List.mem_cons.1 h with rfl | h
        · exact ⟨previous, List.mem_cons_self, (beq_iff_eq.1 hsame).symm⟩
        · exact ih (List.mem_cons_of_mem _ h)
    · rcases List.mem_cons.1 h with rfl | h
      · exact ⟨x, List.mem_cons_self, rfl⟩
      · obtain ⟨kept, hkept, hkey⟩ := ih h
        exact ⟨kept, List.mem_cons_of_mem _ hkept, hkey⟩

/-- Of each key one element is kept. -/
theorem exists_mem_dropRepeated {x : α} (h : x ∈ xs) :
    ∃ kept ∈ dropRepeated key xs, key kept = key x := by
  cases xs with
  | nil => cases h
  | cons y xs => exact exists_mem_go h

variable {le lt : α → α → Prop} (htrans : ∀ a b c, lt a b → lt b c → lt a c)
  (hstrict : ∀ a b, le a b → key a ≠ key b → lt a b)
include htrans hstrict

/-- What is kept of a sorted list is strictly sorted. -/
theorem pairwise_go {previous : α} (h : (previous :: xs).Pairwise le) :
    (previous :: dropRepeated.go key previous xs).Pairwise lt := by
  induction xs generalizing previous with
  | nil => exact List.pairwise_singleton _ _
  | cons y xs ih =>
    obtain ⟨hfirst, hrest⟩ := List.pairwise_cons.1 h
    rw [dropRepeated.go]
    split
    · exact ih (List.pairwise_cons.2
        ⟨fun z hz => hfirst z (List.mem_cons_of_mem _ hz), (List.pairwise_cons.1 hrest).2⟩)
    · next hdiffer =>
      have hlt : lt previous y :=
        hstrict _ _ (hfirst y List.mem_cons_self) fun heq => hdiffer (beq_iff_eq.2 heq.symm)
      have hothers := ih hrest
      refine List.pairwise_cons.2 ⟨fun z hz => ?_, hothers⟩
      rcases List.mem_cons.1 hz with rfl | hz
      · exact hlt
      · exact htrans _ _ _ hlt ((List.pairwise_cons.1 hothers).1 z hz)

/-- Of sorted elements, those that do not repeat the key before them go strictly upward. -/
theorem pairwise_dropRepeated (h : xs.Pairwise le) : (dropRepeated key xs).Pairwise lt := by
  cases xs with
  | nil => exact .nil
  | cons y xs => exact pairwise_go htrans hstrict h

end

/-! ## Increasing numbers -/

section
variable {numbers : Array Nat} (hinc : numbers.toList.Pairwise (· < ·))
include hinc

/-- Increasing numbers are ordered as their indices. -/
theorem lt_iff_of_increasing {i j a b : Nat} (ha : numbers[i]? = some a)
    (hb : numbers[j]? = some b) : a < b ↔ i < j := by
  obtain ⟨hi, rfl⟩ := Array.getElem?_eq_some_iff.1 ha
  obtain ⟨hj, rfl⟩ := Array.getElem?_eq_some_iff.1 hb
  have hmono : ∀ {i j : Nat} (hi : i < numbers.size) (hj : j < numbers.size), i < j →
      numbers[i] < numbers[j] := fun hi hj hlt =>
    List.pairwise_iff_getElem.1 hinc _ _ (by simpa using hi) (by simpa using hj) hlt
  refine ⟨fun hlt => ?_, hmono hi hj⟩
  rcases Nat.lt_trichotomy i j with hij | rfl | hij
  · exact hij
  · exact absurd hlt (Nat.lt_irrefl _)
  · exact absurd hlt (Nat.lt_asymm (hmono hj hi hij))

/-- As long as a number that is there stands in the stretch that is left, it is found exactly when
it is there. The induction is that of the search; the middle number tells which half to leave. -/
theorem searchFrom_iff {n : Nat} (base : Nat) {size : Nat} (hsize : base + size ≤ numbers.size)
    (hstretch : ∀ i : Nat, numbers[i]? = some n → base ≤ i ∧ i < base + size) :
    searchFrom numbers n base size = true ↔ n ∈ numbers := by
  induction size using Nat.strongRecOn generalizing base with
  | ind size ih =>
    rw [searchFrom]
    split
    · rw [beq_iff_eq, Array.mem_iff_getElem?]
      refine ⟨fun hfound => ⟨base, hfound⟩, fun ⟨i, hi⟩ => ?_⟩
      obtain rfl : i = base := by
        have := hstretch i hi
        omega
      exact hi
    · next hlarge =>
      have hmiddle : base + size / 2 < numbers.size := by omega
      have hm := Array.getElem?_eq_getElem hmiddle
      simp only [hm]
      split
      · next hless =>
        refine ih (size - size / 2) (by omega) base (by omega) fun i hi => ?_
        have := hstretch i hi
        have hfront : i < base + size / 2 := (lt_iff_of_increasing hinc hi hm).1 hless
        omega
      · next hless =>
        refine ih (size - size / 2) (by omega) (base + size / 2) (by omega) fun i hi => ?_
        have := hstretch i hi
        have hback : ¬ i < base + size / 2 := mt (lt_iff_of_increasing hinc hi hm).2 hless
        omega

/-- A number is found in an increasing table exactly when it is there. -/
theorem isAmong_iff_mem {n : Nat} : isAmong numbers n = true ↔ n ∈ numbers := by
  refine searchFrom_iff hinc 0 (Nat.le_of_eq (Nat.zero_add _)) fun i hi => ?_
  obtain ⟨hi, -⟩ := Array.getElem?_eq_some_iff.1 hi
  omega

end

end LogSweep.Sorted
