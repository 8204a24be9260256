import LogSweep.Proofs.Edit.Ordered
import LogSweep.Proofs.Text.Boundaries
import Mathlib.Data.List.Pairwise

/-!
# Which batches are accepted

The check of a batch compares only neighbours in the order of the text. That is enough: when the
first of three edits in this order overlaps the last, it overlaps the one between them
(`overlaps_next`), so the first overlap of all shows between neighbours (`clash?_eq_none_iff`).
Overlapping is symmetric, and sorting moves the edits without losing their numbers, so what is found
about neighbours holds of the batch as it was given (`firstFault?_decides`).
-/

namespace LogSweep.Edit

/-- No two edits of a batch overlap. An edit may well overlap itself. -/
def Compatible (edits : List Edit) : Prop :=
  ∀ (i j : Nat) (a b : Edit), edits[i]? = some a → edits[j]? = some b → i ≠ j →
    a.overlaps b = false

/-- Overlapping goes both ways. -/
theorem overlaps_comm (a b : Edit) : a.overlaps b = b.overlaps a :=
  Bool.and_comm _ _

/-- Two edits overlap when each starts before the other stops. -/
theorem overlaps_eq_true_iff {a b : Edit} :
    a.overlaps b = true ↔ a.start < b.stop ∧ b.start < a.stop := by
  simp [overlaps]

/-- Edits are ordered by their starts, and then by their stops. -/
theorem before_eq_true_iff {a b : Edit} :
    before a b = true ↔ a.start < b.start ∨ a.start = b.start ∧ a.stop ≤ b.stop := by
  simp [before]

/-- The order is transitive. -/
theorem before_trans {a b c : Edit} (hab : before a b = true) (hbc : before b c = true) :
    before a c = true := by
  rw [before_eq_true_iff] at *
  omega

/-- The order is total. -/
theorem before_total (a b : Edit) : (before a b || before b a) = true := by
  rw [Bool.or_eq_true, before_eq_true_iff, before_eq_true_iff]
  omega

/-- An edit that overlaps a later one overlaps every edit between the two. The one between begins
before the first ends; were it to end where the first begins, both would be empty there, and an
empty edit overlaps nothing behind it. -/
theorem overlaps_next {a b c : Edit} (hb : b.start ≤ b.stop) (hab : before a b = true)
    (hbc : before b c = true) (h : a.overlaps c = true) : a.overlaps b = true := by
  rw [before_eq_true_iff] at hab hbc
  rw [overlaps_eq_true_iff] at h ⊢
  omega

/-! ## Neighbours -/

/-- In the order of the text no neighbours overlap exactly when no edits do. -/
theorem clash?_eq_none_iff {edits : List (Edit × Nat)}
    (hsorted : edits.Pairwise fun a b => before a.1 b.1 = true)
    (hranges : ∀ a ∈ edits, a.1.start ≤ a.1.stop) :
    clash? edits = none ↔ edits.Pairwise fun a b => a.1.overlaps b.1 = false := by
  induction edits with
  | nil => exact ⟨fun _ => .nil, fun _ => rfl⟩
  | cons a edits ih =>
    obtain ⟨hfirst, hrest⟩ := List.pairwise_cons.1 hsorted
    have ih := ih hrest fun x hx => hranges x (List.mem_cons_of_mem _ hx)
    cases edits with
    | nil => exact ⟨fun _ => List.pairwise_singleton _ _, fun _ => rfl⟩
    | cons b edits =>
      have hb : b.1.start ≤ b.1.stop := hranges b (by simp)
      rw [clash?, List.pairwise_cons]
      cases hab : a.1.overlaps b.1 with
      | true =>
        refine iff_of_false (fun h => by cases h) fun h => ?_
        have := h.1 b List.mem_cons_self
        rw [hab] at this
        cases this
      | false =>
        -- what `a` overlaps further on, it would overlap at `b`
        have hnone : ∀ c ∈ b :: edits, a.1.overlaps c.1 = false := by
          intro c hc
          rcases List.mem_cons.1 hc with rfl | hmem
          · exact hab
          · rw [Bool.eq_false_iff]
            intro hac
            have hbc := (List.pairwise_cons.1 hrest).1 c hmem
            have := overlaps_next hb (hfirst b List.mem_cons_self) hbc hac
            rw [hab] at this
            cases this
        exact ih.trans (and_iff_right hnone).symm

/-- A clash names two edits that overlap. -/
theorem clash?_eq_some {edits : List (Edit × Nat)} {fault : Fault} (h : clash? edits = some fault) :
    ∃ a b, [a, b].Sublist edits ∧ a.1.overlaps b.1 = true ∧
      fault = .overlapping (min a.2 b.2) (max a.2 b.2) := by
  fun_induction clash? edits with
  | case1 a i b j rest hab =>
    exact ⟨(a, i), (b, j), by simp, hab, (Option.some.inj h).symm⟩
  | case2 a i b j rest _ ih =>
    obtain ⟨x, y, hsub, hxy, hfault⟩ := ih h
    exact ⟨x, y, hsub.cons _, hxy, hfault⟩
  | case3 => cases h

/-! ## The whole batch -/

/-- The edits of a batch with their numbers, in the order of the text. -/
def inOrder (edits : List Edit) : List (Edit × Nat) :=
  edits.zipIdx.mergeSort fun a b => before a.1 b.1

/-- Ordering a batch loses and adds nothing. -/
theorem perm_inOrder (edits : List Edit) : (inOrder edits).Perm edits.zipIdx :=
  List.mergeSort_perm _ _

/-- The batch is in order. -/
theorem sorted_inOrder (edits : List Edit) :
    (inOrder edits).Pairwise fun a b => before a.1 b.1 = true :=
  List.pairwise_mergeSort (fun (a b c : Edit × Nat) => @before_trans a.1 b.1 c.1)
    (fun a b => before_total a.1 b.1) edits.zipIdx

/-- Each edit keeps its number. -/
theorem mem_inOrder {edits : List Edit} {a : Edit × Nat} :
    a ∈ inOrder edits ↔ edits[a.2]? = some a.1 := by
  rw [(perm_inOrder edits).mem_iff, List.mem_zipIdx_iff_getElem?]

/-- Every edit keeps a number of its own. -/
theorem nodup_inOrder (edits : List Edit) : (inOrder edits).Pairwise fun a b => a.2 ≠ b.2 := by
  have hnumbers : ((inOrder edits).map Prod.snd).Nodup := by
    rw [((perm_inOrder edits).map Prod.snd).nodup_iff, List.zipIdx_map_snd]
    exact List.nodup_range'
  exact List.pairwise_map.1 hnumbers

/-- A batch is compatible exactly when its edits in the order of the text are. -/
theorem compatible_iff (edits : List Edit) :
    Compatible edits ↔ (inOrder edits).Pairwise fun a b => a.1.overlaps b.1 = false := by
  constructor
  · intro h
    refine (nodup_inOrder edits).imp_of_mem fun {a b} ha hb hne => ?_
    exact h a.2 b.2 a.1 b.1 (mem_inOrder.1 ha) (mem_inOrder.1 hb) hne
  · intro h i j a b hi hj hne
    have hsymm : Std.Symm fun a b : Edit × Nat => a.1.overlaps b.1 = false :=
      ⟨fun x y hxy => (overlaps_comm y.1 x.1).trans hxy⟩
    have ha : (a, i) ∈ inOrder edits := mem_inOrder.2 hi
    have hb : (b, j) ∈ inOrder edits := mem_inOrder.2 hj
    exact h.forall ha hb fun heq => hne (congrArg Prod.snd heq)

/-- An edit has no fault of its own exactly when it fits. -/
theorem fault?_eq_none_iff {text : Bytes} {index : Nat} {e : Edit} :
    fault? text.toArray index e = none ↔ Fits text e := by
  refine ⟨fun h => ?_, fun h => h.fault?_eq_none index⟩
  unfold fault? at h
  split at h
  · cases h
  · split at h
    · cases h
    · next hbounds hcuts =>
      simp only [List.size_toArray, Bool.or_eq_true, decide_eq_true_eq, not_or, Nat.not_lt]
        at hbounds
      simp only [Bool.or_eq_true, Bool.not_eq_true', not_or, Bool.not_eq_false] at hcuts
      exact ⟨hbounds.1, hbounds.2, hcuts.1, hcuts.2⟩

/-- What an edit by itself is refused for is no overlap. -/
theorem fault?_ne_overlapping {text : Array UInt8} {index i j : Nat} {e : Edit} :
    fault? text index e ≠ some (.overlapping i j) := by
  unfold fault?
  split
  · exact fun h => by cases h
  · split <;> exact fun h => by cases h

/-- The first fault of a batch is one that an edit has by itself, or else a clash. -/
theorem firstFault?_cases (text : Bytes) (edits : List Edit) :
    (∃ e ∈ edits, ∃ index, ¬ Fits text e ∧
      firstFault? text edits = fault? text.toArray index e) ∨
    (∀ e ∈ edits, Fits text e) ∧ firstFault? text edits = clash? (inOrder edits) := by
  cases hfault : edits.zipIdx.findSome? fun p => fault? text.toArray p.2 p.1 with
  | some fault =>
    have hfirst : firstFault? text edits = some fault := by simp only [firstFault?, hfault]
    obtain ⟨⟨e, index⟩, hmem, he⟩ := List.exists_of_findSome?_eq_some hfault
    refine .inl ⟨e, List.fst_mem_of_mem_zipIdx hmem, index, fun hfits => ?_, hfirst.trans he.symm⟩
    rw [fault?_eq_none_iff.2 hfits] at he
    cases he
  | none =>
    refine .inr ⟨fun e he => ?_, by simp only [firstFault?, hfault, inOrder]⟩
    obtain ⟨index, hindex⟩ := List.getElem?_of_mem he
    exact fault?_eq_none_iff.1 (List.findSome?_eq_none_iff.1 hfault (e, index)
      (List.mem_zipIdx_iff_getElem?.2 hindex))

/-- A batch is accepted exactly when each edit lies in the text and splits no character, and no two
of them overlap. When it is refused for an overlap, the two edits named do overlap. -/
theorem firstFault?_decides (source : String) (edits : List Edit) :
    (firstFault? (.ofString source) edits = none ↔
      (∀ e ∈ edits, e.start ≤ e.stop ∧ e.stop ≤ (Bytes.ofString source).length ∧
        Divides source e.start ∧ Divides source e.stop) ∧ Compatible edits) ∧
    ∀ i j, firstFault? (.ofString source) edits = some (.overlapping i j) →
      i < j ∧ ∃ a b, edits[i]? = some a ∧ edits[j]? = some b ∧ a.overlaps b = true := by
  have hfits : ∀ e : Edit, Fits (.ofString source) e ↔ e.start ≤ e.stop ∧
      e.stop ≤ (Bytes.ofString source).length ∧ Divides source e.start ∧
        Divides source e.stop := by
    intro e
    rw [← isBoundary_ofString_iff, ← isBoundary_ofString_iff]
    exact ⟨fun h => ⟨h.1, h.2, h.3, h.4⟩, fun ⟨h1, h2, h3, h4⟩ => ⟨h1, h2, h3, h4⟩⟩
  simp only [← hfits]
  rcases firstFault?_cases (.ofString source) edits with
    ⟨e, he, index, hwrong, hfault⟩ | ⟨hall, hclash⟩
  · rw [hfault]
    refine ⟨iff_of_false (fun h => hwrong (fault?_eq_none_iff.1 h)) fun h => hwrong (h.1 e he), ?_⟩
    intro i j h
    exact absurd h fault?_ne_overlapping
  · have hranges : ∀ a ∈ inOrder edits, a.1.start ≤ a.1.stop := fun a ha =>
      (hall a.1 (List.mem_of_getElem? (mem_inOrder.1 ha))).start_le
    rw [hclash]
    refine ⟨?_, fun i j h => ?_⟩
    · rw [clash?_eq_none_iff (sorted_inOrder edits) hranges, ← compatible_iff]
      exact (and_iff_right hall).symm
    · obtain ⟨a, b, hsub, hab, hfault⟩ := clash?_eq_some h
      obtain ⟨rfl, rfl⟩ := Fault.overlapping.inj hfault
      have hne : a.2 ≠ b.2 := by
        have := (nodup_inOrder edits).sublist hsub
        exact (List.pairwise_cons.1 this).1 b (by simp)
      have ha := mem_inOrder.1 (hsub.subset (by simp : a ∈ [a, b]))
      have hb := mem_inOrder.1 (hsub.subset (by simp : b ∈ [a, b]))
      refine ⟨by omega, ?_⟩
      rcases Nat.le_total a.2 b.2 with hle | hle
      · rw [Nat.min_eq_left hle, Nat.max_eq_right hle]
        exact ⟨a.1, b.1, ha, hb, hab⟩
      · rw [Nat.min_eq_right hle, Nat.max_eq_left hle]
        exact ⟨b.1, a.1, hb, ha, by rwa [overlaps_comm]⟩

end LogSweep.Edit
