import LogSweep.Proofs.Edit.Compatible
import LogSweep.Proofs.Text.Reads

/-!
# Edits one at a time

An accepted batch is written in one pass over the text. Every piece that the pass copies lies in the
text and splits no character (`copyOut?_eq_splice`), and the result is that of writing the edits one
at a time, the last of the text first (`splice_eq_foldr_put`). Both rest on the order of the text:
in it an accepted batch comes one behind the other (`ordered_of_compatible`), although edits that do
not overlap may well begin at one place when they are empty.

The order in which a batch is given shows in the result only where several edits insert at one place
(`apply_perm`): sorting is stable, so it keeps the edits of every range in their order
(`filter_mergeSort`), and a sorted batch is determined by its edits of every range
(`eq_of_filter_range`).
-/

namespace LogSweep.Edit

/-- Writes an edit into a text. -/
def put (e : Edit) (text : Bytes) : Bytes :=
  text.take e.start ++ e.replacement ++ text.drop e.stop

/-- Writes a text out from `copied` on, with edits in its order; `none` when a piece to copy does
not lie in the text or splits a character. -/
def copyOut? (text : Bytes) (copied : Nat) : List Edit → Option Bytes
  | [] => text.cut? ⟨copied, text.length⟩
  | e :: edits =>
    match text.cut? ⟨copied, e.start⟩, copyOut? text e.stop edits with
    | some kept, some rest => some (kept ++ (e.replacement ++ rest))
    | _, _ => none

/-- The order of the text on edits with their numbers; edits of one range keep the order of the
batch. -/
def Precedes (a b : Edit × Nat) : Prop :=
  a.1.start < b.1.start ∨ a.1.start = b.1.start ∧
    (a.1.stop < b.1.stop ∨ a.1.stop = b.1.stop ∧ a.2 < b.2)

/-- Whether an edit replaces exactly the given range. -/
def hasRange (start stop : Nat) (e : Edit) : Bool :=
  e.start == start && e.stop == stop

theorem hasRange_iff {start stop : Nat} {e : Edit} :
    e.hasRange start stop = true ↔ e.start = start ∧ e.stop = stop := by
  simp [hasRange]

/-! ## Accepted batches -/

variable {text : Bytes} {edits edits' : List Edit}

/-- A batch is compatible when no two of its edits overlap, in whichever order they are listed. -/
theorem compatible_iff_pairwise :
    Compatible edits ↔ edits.Pairwise fun a b => a.overlaps b = false := by
  rw [List.pairwise_iff_getElem]
  constructor
  · intro h i j hi hj hlt
    exact h i j _ _ (List.getElem?_eq_getElem hi) (List.getElem?_eq_getElem hj) (Nat.ne_of_lt hlt)
  · intro h i j a b ha hb hne
    obtain ⟨hi, rfl⟩ := List.getElem?_eq_some_iff.1 ha
    obtain ⟨hj, rfl⟩ := List.getElem?_eq_some_iff.1 hb
    rcases Nat.lt_or_gt_of_ne hne with hlt | hgt
    · exact h i j hi hj hlt
    · rw [overlaps_comm]
      exact h j i hj hi hgt

/-- A batch without a fault is one whose edits fit and are compatible. -/
theorem firstFault?_eq_none_iff :
    firstFault? text edits = none ↔ (∀ e ∈ edits, Fits text e) ∧ Compatible edits := by
  rcases firstFault?_cases text edits with ⟨e, he, index, hwrong, hfault⟩ | ⟨hall, hclash⟩
  · rw [hfault, fault?_eq_none_iff]
    exact iff_of_false hwrong fun h => hwrong (h.1 e he)
  · have hranges : ∀ a ∈ inOrder edits, a.1.start ≤ a.1.stop := fun a ha =>
      (hall a.1 (List.mem_of_getElem? (mem_inOrder.1 ha))).start_le
    rw [hclash, clash?_eq_none_iff (sorted_inOrder edits) hranges, ← compatible_iff]
    exact (and_iff_right hall).symm

/-- Whether a batch is accepted does not depend on its order. -/
theorem firstFault?_perm (hperm : edits'.Perm edits) (h : firstFault? text edits = none) :
    firstFault? text edits' = none := by
  rw [firstFault?_eq_none_iff, compatible_iff_pairwise] at *
  refine ⟨fun e he => h.1 e (hperm.subset he), ?_⟩
  exact (hperm.pairwise_iff fun {a b} hab => (overlaps_comm b a).trans hab).2 h.2

/-- In the order of the text edits that do not overlap come one behind the other. One that begins
behind the end of the next begins there as well, and then both are empty. -/
theorem stop_le_of_before {a b : Edit} (hb : b.start ≤ b.stop) (hab : before a b = true)
    (h : a.overlaps b = false) : a.stop ≤ b.start := by
  rw [before_eq_true_iff] at hab
  rw [← Bool.not_eq_true, overlaps_eq_true_iff] at h
  omega

/-- Compatible edits that are sorted come one behind the other. -/
theorem ordered_of_compatible (hfits : ∀ e ∈ edits, Fits text e)
    (hsorted : edits.Pairwise fun a b => before a b = true) (h : Compatible edits) :
    Ordered edits := by
  have hboth := hsorted.and (compatible_iff_pairwise.1 h)
  exact hboth.imp_of_mem fun _ hb hab => stop_le_of_before (hfits _ hb).start_le hab.1 hab.2

/-! ## One pass -/

/-- What no edit reaches is written as it is. -/
theorem splice_take_drop {k offset : Nat} (hle : offset ≤ k)
    (hstart : ∀ e ∈ edits, k ≤ e.start) (hrange : ∀ e ∈ edits, e.start ≤ e.stop) :
    splice offset text edits =
      text.take (k - offset) ++ splice k (text.drop (k - offset)) edits := by
  cases edits with
  | nil => rw [splice, splice, List.take_append_drop]
  | cons e edits =>
    have hke := hstart e List.mem_cons_self
    have hee := hrange e List.mem_cons_self
    have htake : text.take (e.start - offset) =
        text.take (k - offset) ++ (text.drop (k - offset)).take (e.start - k) := by
      rw [← List.take_add]
      congr 1
      omega
    have hdrop : text.drop (e.stop - offset) =
        (text.drop (k - offset)).drop (e.stop - k) := by
      rw [List.drop_drop]
      congr 1
      omega
    rw [splice, splice, htake, hdrop, List.append_assoc]

/-- The pass writes what the edits give one at a time. The induction is on the edits: what the later
ones leave in front of them is the text as it was. -/
theorem splice_eq_foldr_put (hfits : ∀ e ∈ edits, Fits text e) (hordered : Ordered edits) :
    splice 0 text edits = edits.foldr put text := by
  induction edits with
  | nil => rfl
  | cons e edits ih =>
    obtain ⟨hbehind, hrest⟩ := List.pairwise_cons.1 hordered
    obtain ⟨he, hothers⟩ := List.forall_mem_cons.1 hfits
    have hlater : splice 0 text edits =
        text.take e.stop ++ splice e.stop (text.drop e.stop) edits :=
      splice_take_drop (Nat.zero_le _) hbehind fun e' he' => (hothers e' he').start_le
    have hfront : (text.take e.stop).length = e.stop := List.length_take_of_le he.stop_le
    have htake : (splice 0 text edits).take e.start = text.take e.start := by
      rw [hlater, List.take_append_of_le_length (by rw [hfront]; exact he.start_le),
        List.take_take, Nat.min_eq_left he.start_le]
    have hdrop : (splice 0 text edits).drop e.stop = splice e.stop (text.drop e.stop) edits := by
      rw [hlater, List.drop_left' hfront]
    rw [List.foldr_cons, ← ih hothers hrest, put, htake, hdrop, splice, Nat.sub_zero, Nat.sub_zero,
      List.append_assoc]

/-- Every piece that the pass copies lies in the text and splits no character. -/
theorem copyOut?_eq_splice {copied : Nat} (hcopied : copied ≤ text.length)
    (hboundary : Bytes.isBoundary text.toArray copied = true) (hfits : ∀ e ∈ edits, Fits text e)
    (hordered : Ordered edits) (hstart : ∀ e ∈ edits, copied ≤ e.start) :
    copyOut? text copied edits = some (splice copied (text.drop copied) edits) := by
  induction edits generalizing copied with
  | nil =>
    rw [copyOut?, Bytes.cut?_eq_range? hboundary (Bytes.isBoundary_length text),
      Bytes.range?_end hcopied, splice]
  | cons e edits ih =>
    obtain ⟨hbehind, hrest⟩ := List.pairwise_cons.1 hordered
    obtain ⟨he, hothers⟩ := List.forall_mem_cons.1 hfits
    have hle := hstart e List.mem_cons_self
    have hkept : text.cut? ⟨copied, e.start⟩ =
        some ((text.drop copied).take (e.start - copied)) := by
      rw [Bytes.cut?_eq_range? hboundary he.start_boundary,
        Bytes.range?_eq hle (Nat.le_trans he.start_le he.stop_le)]
    have hdrop : (text.drop copied).drop (e.stop - copied) = text.drop e.stop := by
      rw [List.drop_drop, Nat.add_sub_cancel' (Nat.le_trans hle he.start_le)]
    rw [copyOut?, hkept, ih he.stop_le he.stop_boundary hothers hrest hbehind, splice, hdrop]

/-- In the order of the text an accepted batch fits, one edit behind the other. -/
theorem ordered_mergeSort (h : firstFault? text edits = none) :
    (∀ e ∈ edits.mergeSort before, Fits text e) ∧ Ordered (edits.mergeSort before) := by
  obtain ⟨hfits, hcompatible⟩ := firstFault?_eq_none_iff.1
    (firstFault?_perm (List.mergeSort_perm edits before) h)
  exact ⟨hfits, ordered_of_compatible hfits
    (List.pairwise_mergeSort (fun a b c => @before_trans a b c) before_total _) hcompatible⟩

/-- The checked pass over the sorted batch succeeds and gives the splice. -/
theorem copyOut?_mergeSort {source : String} (h : firstFault? (.ofString source) edits = none) :
    copyOut? (.ofString source) 0 (edits.mergeSort before) =
      some (splice 0 (.ofString source) (edits.mergeSort before)) := by
  obtain ⟨hfits, hordered⟩ := ordered_mergeSort h
  exact copyOut?_eq_splice (Nat.zero_le _) (isBoundary_zero source.toList) hfits hordered
    fun _ _ => Nat.zero_le _

/-! ## The order of a batch -/

/-- The edits of a batch with their numbers, in the order in which they are written. -/
def arranged (edits : List Edit) : List (Edit × Nat) :=
  edits.zipIdx.mergeSort (List.zipIdxLE before)

/-- Without their numbers the arranged edits are the sorted ones. -/
theorem map_fst_arranged (edits : List Edit) :
    (arranged edits).map Prod.fst = edits.mergeSort before :=
  List.mergeSort_zipIdx

/-- The stable order on numbered edits, as the order of the text. -/
theorem precedes_of_zipIdxLE {a b : Edit × Nat} (h : List.zipIdxLE before a b = true)
    (hne : a.2 ≠ b.2) : Precedes a b := by
  unfold List.zipIdxLE at h
  unfold Precedes
  split at h
  · next hab =>
    rw [before_eq_true_iff] at hab
    split at h
    · next hba =>
      rw [before_eq_true_iff] at hba
      have := of_decide_eq_true h
      omega
    · next hba =>
      rw [before_eq_true_iff] at hba
      omega
  · cases h

/-- The arranged edits are in the order of the text. -/
theorem arranged_precedes (edits : List Edit) : (arranged edits).Pairwise Precedes := by
  have hperm : (arranged edits).Perm edits.zipIdx := List.mergeSort_perm _ _
  have hnumbers : ((arranged edits).map Prod.snd).Nodup := by
    rw [(hperm.map Prod.snd).nodup_iff, List.zipIdx_map_snd]
    exact List.nodup_range'
  have hsorted : (arranged edits).Pairwise fun a b => List.zipIdxLE before a b = true :=
    List.pairwise_mergeSort (List.zipIdxLE_trans fun a b c => @before_trans a b c)
      (List.zipIdxLE_total before_total) _
  exact (hsorted.and (List.pairwise_map.1 hnumbers)).imp fun h => precedes_of_zipIdxLE h.1 h.2

/-- Sorting keeps the edits of every range in their order. -/
theorem filter_mergeSort (edits : List Edit) (start stop : Nat) :
    (edits.mergeSort before).filter (hasRange start stop) =
      edits.filter (hasRange start stop) := by
  have htied : (edits.filter (hasRange start stop)).Pairwise fun a b => before a b = true := by
    refine List.pairwise_of_forall_mem_list fun a ha b hb => ?_
    have ha := hasRange_iff.1 (List.mem_filter.1 ha).2
    have hb := hasRange_iff.1 (List.mem_filter.1 hb).2
    rw [before_eq_true_iff]
    omega
  have hsub := (List.sublist_mergeSort (fun a b c => @before_trans a b c) before_total htied
    List.filter_sublist).filter (hasRange start stop)
  rw [List.filter_filter] at hsub
  simp only [Bool.and_self] at hsub
  have hlength := ((List.mergeSort_perm edits before).filter (hasRange start stop)).length_eq
  exact (hsub.eq_of_length hlength.symm).symm

/-- Batches with the same edits of each range have the same edits. -/
theorem mem_of_filter_range
    (h : ∀ start stop, edits.filter (hasRange start stop) = edits'.filter (hasRange start stop))
    {e : Edit} (he : e ∈ edits) : e ∈ edits' := by
  have hself : e.hasRange e.start e.stop = true := hasRange_iff.2 ⟨rfl, rfl⟩
  have hfiltered : e ∈ edits.filter (hasRange e.start e.stop) := List.mem_filter.2 ⟨he, hself⟩
  rw [h] at hfiltered
  exact (List.mem_filter.1 hfiltered).1

/-- A batch in the order of the text is determined by its edits of every range. The induction is on
one of two such batches: their first edits have one range, and so are the first of that range. -/
theorem eq_of_filter_range (hsorted : edits.Pairwise fun a b => before a b = true)
    (hsorted' : edits'.Pairwise fun a b => before a b = true)
    (h : ∀ start stop, edits.filter (hasRange start stop) = edits'.filter (hasRange start stop)) :
    edits = edits' := by
  induction edits generalizing edits' with
  | nil =>
    refine (List.eq_nil_iff_forall_not_mem.2 fun e he => ?_).symm
    cases mem_of_filter_range (fun start stop => (h start stop).symm) he
  | cons a edits ih =>
    cases edits' with
    | nil => cases mem_of_filter_range h List.mem_cons_self
    | cons b edits' =>
      obtain ⟨ha, htail⟩ := List.pairwise_cons.1 hsorted
      obtain ⟨hb, htail'⟩ := List.pairwise_cons.1 hsorted'
      have hrange : a.start = b.start ∧ a.stop = b.stop := by
        rcases List.mem_cons.1 (mem_of_filter_range h List.mem_cons_self) with rfl | hab
        · exact ⟨rfl, rfl⟩
        rcases List.mem_cons.1
          (mem_of_filter_range (fun start stop => (h start stop).symm) List.mem_cons_self)
          with rfl | hba
        · exact ⟨rfl, rfl⟩
        have hle := before_eq_true_iff.1 (ha b hba)
        have hge := before_eq_true_iff.1 (hb a hab)
        omega
      have hfirst := h a.start a.stop
      rw [List.filter_cons_of_pos (hasRange_iff.2 ⟨rfl, rfl⟩),
        List.filter_cons_of_pos (hasRange_iff.2 ⟨hrange.1.symm, hrange.2.symm⟩)] at hfirst
      obtain rfl : a = b := (List.cons.inj hfirst).1
      have hrest : ∀ start stop,
          edits.filter (hasRange start stop) = edits'.filter (hasRange start stop) := by
        intro start stop
        have := h start stop
        rw [List.filter_cons, List.filter_cons] at this
        split at this
        · exact (List.cons.inj this).2
        · exact this
      rw [ih htail htail' hrest]

/-- Of a range that is not empty an accepted batch has one edit at most. -/
theorem filter_eq_of_perm (hperm : edits'.Perm edits) (h : firstFault? text edits = none)
    {start stop : Nat} (hlt : start < stop) :
    edits'.filter (hasRange start stop) = edits.filter (hasRange start stop) := by
  have hnone : (edits.filter (hasRange start stop)).Pairwise fun a b => a.overlaps b = false :=
    (compatible_iff_pairwise.1 (firstFault?_eq_none_iff.1 h).2).sublist List.filter_sublist
  have hperm := hperm.filter (hasRange start stop)
  cases hfirst : edits.filter (hasRange start stop) with
  | nil =>
    rw [hfirst] at hperm
    exact hperm.eq_nil
  | cons a rest =>
    rw [hfirst] at hnone hperm
    cases rest with
    | nil => exact hperm.eq_singleton
    | cons b rest =>
      have ha : a ∈ edits.filter (hasRange start stop) := by rw [hfirst]; simp
      have hb : b ∈ edits.filter (hasRange start stop) := by rw [hfirst]; simp
      have ha := hasRange_iff.1 (List.mem_filter.1 ha).2
      have hb := hasRange_iff.1 (List.mem_filter.1 hb).2
      have hover : a.overlaps b = true := by
        rw [overlaps_eq_true_iff]
        omega
      rw [(List.pairwise_cons.1 hnone).1 b List.mem_cons_self] at hover
      cases hover

/-- The order of a batch counts only among edits that insert at one place. -/
theorem apply_perm (hperm : edits'.Perm edits) (h : firstFault? text edits = none)
    (hkeeps : ∀ offset, edits'.filter (hasRange offset offset) =
      edits.filter (hasRange offset offset)) : apply text edits' = apply text edits := by
  have hsame : edits'.mergeSort before = edits.mergeSort before := by
    refine eq_of_filter_range (List.pairwise_mergeSort (fun a b c => @before_trans a b c)
      before_total _) (List.pairwise_mergeSort (fun a b c => @before_trans a b c) before_total _)
      fun start stop => ?_
    rw [filter_mergeSort, filter_mergeSort]
    rcases Nat.lt_trichotomy start stop with hlt | rfl | hgt
    · exact filter_eq_of_perm hperm h hlt
    · exact hkeeps start
    · -- no edit of the batch has a reversed range
      have hfits := (firstFault?_eq_none_iff.1 h).1
      have hnone : ∀ e ∈ edits, ¬ e.hasRange start stop = true := by
        intro e he hrange
        have := (hfits e he).start_le
        have := hasRange_iff.1 hrange
        omega
      rw [List.filter_eq_nil_iff.2 hnone,
        List.filter_eq_nil_iff.2 fun e he => hnone e (hperm.subset he)]
  rw [apply, apply, h, firstFault?_perm hperm h, hsame]

/-- An accepted batch is applied, by a pass that copies only pieces of the text and splits no
character, and the result is that of writing its edits one at a time, the last in the order of the
text first. Several edits have one range only where they insert, and then they keep their order; in
every other respect the order of the batch does not matter. -/
theorem apply_eq_foldr_put (source : String) (edits : List Edit)
    (h : firstFault? (.ofString source) edits = none) :
    (∃ (sorted : List (Edit × Nat)) (result : Bytes),
      sorted.Perm edits.zipIdx ∧ sorted.Pairwise Precedes ∧
      apply (.ofString source) edits = .ok result ∧
      copyOut? (.ofString source) 0 (sorted.map Prod.fst) = some result ∧
      (sorted.map Prod.fst).foldr put (.ofString source) = result) ∧
    (∀ (i j : Nat) (a b : Edit), edits[i]? = some a → edits[j]? = some b → i ≠ j →
      a.start = b.start → a.stop = b.stop → a.start = a.stop) ∧
    ∀ edits' : List Edit, edits'.Perm edits →
      (∀ offset, edits'.filter (hasRange offset offset) = edits.filter (hasRange offset offset)) →
      apply (.ofString source) edits' = apply (.ofString source) edits := by
  obtain ⟨hfits, hcompatible⟩ := firstFault?_eq_none_iff.1 h
  obtain ⟨hsortedFits, hordered⟩ := ordered_mergeSort h
  refine ⟨⟨arranged edits, splice 0 (.ofString source) (edits.mergeSort before),
    List.mergeSort_perm _ _, arranged_precedes edits, by rw [apply, h], ?_, ?_⟩, ?_,
    fun edits' hperm hkeeps => apply_perm hperm h hkeeps⟩
  · rw [map_fst_arranged, copyOut?_mergeSort h]
  · rw [map_fst_arranged, splice_eq_foldr_put hsortedFits hordered]
  · intro i j a b hi hj hne hstart hstop
    have hranges := (hfits a (List.mem_of_getElem? hi)).start_le
    have hapart := hcompatible i j a b hi hj hne
    rw [← Bool.not_eq_true, overlaps_eq_true_iff] at hapart
    omega

/-- Two insertions in front of a replacement at one place, and the same edits in another order that
keeps the insertions as they come. -/
theorem apply_eq_foldr_put_insertions :
    firstFault? (.ofString "éb") [⟨2, 2, [43]⟩, ⟨2, 2, [45]⟩, ⟨2, 3, [67]⟩] = none ∧
    (∀ offset, [⟨2, 3, [67]⟩, ⟨2, 2, [43]⟩, ⟨2, 2, [45]⟩].filter (hasRange offset offset) =
      [⟨2, 2, [43]⟩, ⟨2, 2, [45]⟩, ⟨2, 3, [67]⟩].filter (hasRange offset offset)) ∧
    apply (.ofString "éb") [⟨2, 3, [67]⟩, ⟨2, 2, [43]⟩, ⟨2, 2, [45]⟩] = .ok (.ofString "é+-C") := by
  have hfits : ∀ e ∈ [⟨2, 2, [43]⟩, ⟨2, 2, [45]⟩, ⟨2, 3, [67]⟩], Fits (.ofString "éb") e := by
    simp only [List.forall_mem_cons, List.not_mem_nil, false_imp_iff, implies_true, and_true]
    exact ⟨by constructor <;> decide +kernel, by constructor <;> decide +kernel,
      by constructor <;> decide +kernel⟩
  have hnone : firstFault? (.ofString "éb") [⟨2, 2, [43]⟩, ⟨2, 2, [45]⟩, ⟨2, 3, [67]⟩] = none :=
    firstFault?_eq_none_iff.2 ⟨hfits, compatible_iff_pairwise.2 (by decide)⟩
  have hkeeps : ∀ offset, [⟨2, 3, [67]⟩, ⟨2, 2, [43]⟩, ⟨2, 2, [45]⟩].filter
      (hasRange offset offset) =
        [⟨2, 2, [43]⟩, ⟨2, 2, [45]⟩, ⟨2, 3, [67]⟩].filter (hasRange offset offset) := by
    intro offset
    by_cases hoffset : 2 = offset
    · rw [← hoffset]
      decide
    · simp [hasRange, hoffset]
  refine ⟨hnone, hkeeps, ?_⟩
  rw [(apply_eq_foldr_put "éb" _ hnone).2.2 _ (by decide) hkeeps,
    apply_of_ordered hfits (by unfold Ordered; decide)]
  decide +kernel

end LogSweep.Edit
