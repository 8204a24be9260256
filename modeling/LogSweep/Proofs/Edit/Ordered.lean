import LogSweep.Edit

/-!
# Batches in the order of the text

A batch whose edits come one behind the other, lie in the text and split no character is accepted,
and it is applied as it stands: sorting does not move its edits (`Edit.apply_of_ordered`).
-/

namespace LogSweep.Edit

/-- Edits that come one behind the other. -/
def Ordered (edits : List Edit) : Prop :=
  edits.Pairwise fun a b => a.stop ≤ b.start

/-- An edit that is right by itself. -/
structure Fits (text : Bytes) (e : Edit) : Prop where
  start_le : e.start ≤ e.stop
  stop_le : e.stop ≤ text.length
  start_boundary : Bytes.isBoundary text.toArray e.start = true
  stop_boundary : Bytes.isBoundary text.toArray e.stop = true

/-- An edit that fits has no fault. -/
theorem Fits.fault?_eq_none {text : Bytes} {e : Edit} (h : Fits text e) (index : Nat) :
    fault? text.toArray index e = none := by
  have hstart := Nat.not_lt.2 h.start_le
  have hstop := Nat.not_lt.2 h.stop_le
  simp [fault?, hstart, hstop, h.start_boundary, h.stop_boundary]

/-- An edit that stops before another starts comes before it. -/
theorem before_of_stop_le {a b : Edit} (ha : a.start ≤ a.stop) (hb : b.start ≤ b.stop)
    (h : a.stop ≤ b.start) : before a b = true := by
  simp only [before, Bool.or_eq_true, Bool.and_eq_true, decide_eq_true_eq, beq_iff_eq]
  omega

/-- Edits that come one behind the other do not clash. -/
theorem clash?_eq_none {edits : List (Edit × Nat)}
    (h : edits.Pairwise fun a b => a.1.stop ≤ b.1.start) : clash? edits = none := by
  induction edits with
  | nil => rfl
  | cons a edits ih =>
    cases edits with
    | nil => rfl
    | cons b edits =>
      obtain ⟨ha, hrest⟩ := List.pairwise_cons.1 h
      have hab : a.1.overlaps b.1 = false := by
        have := Nat.not_lt.2 (ha b (by simp))
        simp [overlaps, this]
      rw [clash?, hab]
      exact ih hrest

/-- A batch in the order of the text whose edits are right by themselves is applied as it stands. -/
theorem apply_of_ordered {text : Bytes} {edits : List Edit} (hfits : ∀ e ∈ edits, Fits text e)
    (hordered : Ordered edits) : apply text edits = .ok (splice 0 text edits) := by
  have hnumbered : edits.zipIdx.Pairwise fun a b => a.1.stop ≤ b.1.start := by
    have hfst : (edits.zipIdx.map Prod.fst).Pairwise fun a b => a.stop ≤ b.start := by
      rwa [List.zipIdx_map_fst]
    exact List.pairwise_map.1 hfst
  have hmem : ∀ a ∈ edits.zipIdx, Fits text a.1 := fun a ha =>
    hfits a.1 (List.fst_mem_of_mem_zipIdx ha)
  have hfault : (edits.zipIdx.findSome? fun p => fault? text.toArray p.2 p.1) = none :=
    List.findSome?_eq_none_iff.2 fun a ha => (hmem a ha).fault?_eq_none a.2
  have hsorted : edits.zipIdx.mergeSort (fun a b => before a.1 b.1) = edits.zipIdx :=
    List.mergeSort_of_pairwise (hnumbered.imp_of_mem fun ha hb hab =>
      before_of_stop_le (hmem _ ha).start_le (hmem _ hb).start_le hab)
  have hsorted' : edits.mergeSort before = edits :=
    List.mergeSort_of_pairwise (hordered.imp_of_mem fun ha hb hab =>
      before_of_stop_le (hfits _ ha).start_le (hfits _ hb).start_le hab)
  have hnone : firstFault? text edits = none := by
    simp only [firstFault?, hfault, hsorted, clash?_eq_none hnumbered]
  rw [apply, hnone, hsorted']

end LogSweep.Edit
