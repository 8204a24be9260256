import LogSweep.Proofs.Command.Effect
import Mathlib.Data.List.Dedup

/-!
# How many files a sweep changes

Every turn that is reported as changed has a path to a file that has another text in the end, and
every such file is led to by one of them (`mem_rewritten_iff`). So no more files change than are
reported, and as many exactly when no file that changes had two turns (`length_rewritten`).
-/

namespace LogSweep.Command

open Files

/-- The locations whose entries are others in a later tree. -/
def rewritten (t t' : Tree) : List Location :=
  (t.entries.map Prod.fst).filter fun location => t'.entry? location != t.entry? location

/-- The location that a path leads to. -/
def destination (w : Workspace) (path : String) : Location :=
  match w.find path with
  | .ok (location, _) => location
  | .error _ => []

/-- The turns that are reported as changed, with their entries. -/
def changedPairs (w : Workspace) (rules : Rules) (o : SweepOptions) (turns : List Turn) :
    List (Turn × FileReport) :=
  (turns.zip (entriesFrom w rules o w turns)).filter (·.2.state == .changed)

section
variable {w : Workspace} {rules : Rules} {o : SweepOptions} {turn : Turn} {location : Location}
  {old : Bytes} (h : Changes w rules o turn location old)
include h

/-- A turn that changes a file changes the one that its path leads to. -/
theorem Changes.destination_eq : destination w turn.path = location := by
  rw [destination, h.leads]

/-- The file was there before, with the old bytes. -/
theorem Changes.entry_eq : w.tree.entry? location = some (.file old) :=
  Tree.entry?_of_find h.leads

end

section
variable (w : Workspace) (rules : Rules) (o : SweepOptions) (turns : List Turn)

/-- Every turn has its entry. -/
theorem map_fst_zip_entriesFrom :
    (turns.zip (entriesFrom w rules o w turns)).map Prod.fst = turns :=
  List.map_fst_zip (length_entriesFrom w rules o w turns).ge

/-- The report counts the turns that are reported as changed. -/
theorem length_changedPairs : (changedPairs w rules o turns).length =
    (sweep w rules o turns).report.summary.changed := by
  have hentries : (turns.zip (entriesFrom w rules o w turns)).map Prod.snd =
      entriesFrom w rules o w turns :=
    List.map_snd_zip (length_entriesFrom w rules o w turns).le
  rw [(sweep_eq w rules o turns).2,
    Report.summary_ofFiles rules o.isDryRun (consistent_entriesFrom w rules o w turns)]
  dsimp only
  rw [Report.countP_listed (by decide), changedPairs, ← List.countP_eq_length_filter]
  nth_rewrite 2 [← hentries]
  rw [List.countP_map]
  rfl

end

section
variable {w : Workspace} (hw : w.tree.WellFormed) {rules : Rules} {o : SweepOptions}
  {turns : List Turn}
include hw

/-- A turn is reported as changed when it changes a file. -/
theorem mem_changedPairs_iff {turn : Turn} {e : FileReport} :
    (turn, e) ∈ changedPairs w rules o turns ↔
      (turn, e) ∈ turns.zip (entriesFrom w rules o w turns) ∧
        ∃ location old, Changes w rules o turn location old := by
  have hframed : Framed w rules o turns _ := framed_after hw
  rw [changedPairs, List.mem_filter, beq_iff_eq]
  exact and_congr_right fun hmem => hframed.changed _ hmem

/-- The turns that are reported as changed lead to different files exactly when no file is changed
in two turns. -/
theorem nodup_destinations_iff (hturns : turns.Nodup) :
    ((changedPairs w rules o turns).map (destination w ·.1.path)).Nodup ↔
      ∀ a ∈ turns, ∀ b ∈ turns, ∀ location old, Changes w rules o a location old →
        Changes w rules o b location old → a = b := by
  have hfirst : ((changedPairs w rules o turns).map Prod.fst).Nodup := by
    refine List.Nodup.sublist (List.filter_sublist.map Prod.fst) ?_
    rwa [map_fst_zip_entriesFrom]
  rw [List.nodup_map_iff_inj_on (List.Nodup.of_map _ hfirst)]
  constructor
  · intro h a ha b hb location old hfirst hsecond
    rw [← map_fst_zip_entriesFrom w rules o turns] at ha hb
    obtain ⟨⟨a, e⟩, hzip, rfl⟩ := List.mem_map.1 ha
    obtain ⟨⟨b, e'⟩, hzip', rfl⟩ := List.mem_map.1 hb
    have hsame := h _ ((mem_changedPairs_iff hw).2 ⟨hzip, _, _, hfirst⟩) _
      ((mem_changedPairs_iff hw).2 ⟨hzip', _, _, hsecond⟩)
      (hfirst.destination_eq.trans hsecond.destination_eq.symm)
    exact congrArg Prod.fst hsame
  · rintro h ⟨a, e⟩ ha ⟨b, e'⟩ hb hsame
    obtain ⟨hzip, location, old, hchanges⟩ := (mem_changedPairs_iff hw).1 ha
    obtain ⟨hzip', location', old', hchanges'⟩ := (mem_changedPairs_iff hw).1 hb
    rw [hchanges.destination_eq, hchanges'.destination_eq] at hsame
    subst hsame
    obtain rfl : old = old' :=
      Entry.file.inj (Option.some.inj (hchanges.entry_eq.symm.trans hchanges'.entry_eq))
    exact List.inj_on_of_nodup_map hfirst ha hb
      (h a (List.of_mem_zip hzip).1 b (List.of_mem_zip hzip').1 location old hchanges hchanges')

variable (hkeyed : w.tree.Keyed) (hrules : rules.fault? = none) (hwet : o.isDryRun = false)
include hkeyed hrules hwet

/-- The entries that are others in the end are the files that the changed turns lead to. -/
theorem mem_rewritten_iff {location : Location} :
    location ∈ rewritten w.tree (after w rules o w turns).tree ↔
      location ∈ (changedPairs w rules o turns).map (destination w ·.1.path) := by
  have hframed : Framed w rules o turns _ := framed_after hw
  rw [rewritten, List.mem_filter, bne_iff_ne, List.mem_map (l := changedPairs w rules o turns)]
  constructor
  · rintro ⟨-, hdiffer⟩
    rcases hframed.held location with ⟨turn, old, hwrote, -⟩ | ⟨-, hsame⟩
    · obtain ⟨e, hmem, -⟩ := hwrote.changed
      exact ⟨(turn, e), (mem_changedPairs_iff hw).2 ⟨hmem, _, _, hwrote.toChanges⟩,
        hwrote.destination_eq⟩
    · exact absurd hsame hdiffer
  · rintro ⟨⟨turn, e⟩, hpair, rfl⟩
    obtain ⟨hmem, location, old, hchanges⟩ := (mem_changedPairs_iff hw).1 hpair
    have hstate : e.state = .changed := (hframed.changed _ hmem).2 ⟨location, old, hchanges⟩
    rw [hchanges.destination_eq]
    -- the file holds what the last write gave it, perhaps in another turn
    rcases hframed.held location with ⟨turn', old', hwrote, hnow⟩ | ⟨hnone, -⟩
    · have hne : location ≠ [] := by
        rintro rfl
        cases hchanges.entry_eq
      obtain ⟨source, rfl⟩ := exists_ofString hwrote.text
      refine ⟨List.mem_map_of_mem ((hkeyed.mem_iff hne).2 hchanges.entry_eq), ?_⟩
      rw [hnow, hwrote.entry_eq]
      intro hsame
      exact sweepText_text_ne_of_modified hrules _ (aligned_ofString source) hwrote.modified
        (Entry.file.inj (Option.some.inj hsame))
    · exact absurd ⟨hchanges, hwet, e, hmem, hstate⟩ (hnone turn old)

/-- A sweep changes at most as many files as it reports, and as many exactly when it changes none
in two turns. -/
theorem length_rewritten (hturns : turns.Nodup) :
    (rewritten w.tree (sweep w rules o turns).workspace.tree).length ≤
        (sweep w rules o turns).report.summary.changed ∧
      ((rewritten w.tree (sweep w rules o turns).workspace.tree).length =
          (sweep w rules o turns).report.summary.changed ↔
        ∀ a ∈ turns, ∀ b ∈ turns, ∀ location old, Changes w rules o a location old →
          Changes w rules o b location old → a = b) := by
  have hlength : (sweep w rules o turns).report.summary.changed =
      ((changedPairs w rules o turns).map (destination w ·.1.path)).length := by
    rw [List.length_map, length_changedPairs]
  have hperm : (rewritten w.tree (sweep w rules o turns).workspace.tree).Perm
      ((changedPairs w rules o turns).map (destination w ·.1.path)).dedup := by
    rw [(sweep_eq w rules o turns).1]
    refine (List.perm_ext_iff_of_nodup (hkeyed.1.filter _) (List.nodup_dedup _)).2
      fun location => ?_
    rw [List.mem_dedup]
    exact mem_rewritten_iff hw hkeyed hrules hwet
  rw [hlength, hperm.length_eq, ← nodup_destinations_iff hw hturns]
  have hsub := List.dedup_sublist ((changedPairs w rules o turns).map (destination w ·.1.path))
  exact ⟨hsub.length_le, fun hlength => List.dedup_eq_self.1 (hsub.eq_of_length hlength),
    fun hself => by rw [List.dedup_eq_self.2 hself]⟩

end

end LogSweep.Command
