import LogSweep.Proofs.Command.Frame
import LogSweep.Proofs.Command.Preview
import LogSweep.Proofs.Sweep.Modified

/-!
# What a preview leads to

A workspace is left as it is wherever nothing is reported as changed, and by every dry run
(`after_eq`). So where a dry run shows no change the sweep writes nothing and reports the same
(`sweep_of_no_changes`); where it shows one, the sweep gives some file another text, or it reports
that a file could not be written (`sweep_of_changes`).
-/

namespace LogSweep.Command

open Files

/-! ## Leaving the workspace as it is -/

/-- A turn that is only previewed, or does not end as changed, leaves the workspace alone. -/
theorem Finishes.workspace_eq {now now' : Workspace} {o : SweepOptions} {turn : Turn}
    {outcome : Outcome} {e : FileReport} (h : Finishes now o turn outcome now' e)
    (hnone : o.isDryRun = true ∨ e.state ≠ .changed) : now' = now := by
  cases h with
  | unchanged | announced | refused => rfl
  | written hmodified hwet =>
    rcases hnone with hdry | hne
    · rw [hwet] at hdry
      cases hdry
    · exact absurd rfl hne

section
variable {w : Workspace} {rules : Rules} {o : SweepOptions}

/-- So does any turn, read or not. -/
theorem workspace_finished {now : Workspace} {turn : Turn} {examined : Examined}
    (hnone : o.isDryRun = true ∨ (finished now rules o turn examined).entry.state ≠ .changed) :
    (finished now rules o turn examined).workspace = now := by
  cases examined with
  | cancelled | failed => rfl
  | swept outcome => exact (finishes_finish now rules o turn outcome).workspace_eq hnone

/-- Turns that are not reported as changed leave the workspace as it is, and so does a dry run. -/
theorem after_eq {now : Workspace} {turns : List Turn}
    (hnone : o.isDryRun = true ∨
      ∀ e ∈ entriesFrom w rules o now turns, e.state ≠ .changed) :
    after w rules o now turns = now := by
  induction turns with
  | nil => rfl
  | cons turn turns ih =>
    have hfirst : (finished now rules o turn (examine w rules turn)).workspace = now :=
      workspace_finished (hnone.imp id fun h => h _ List.mem_cons_self)
    rw [entriesFrom, hfirst] at hnone
    rw [after, List.foldl_cons, hfirst]
    exact ih (hnone.imp id fun h e he => h e (List.mem_cons_of_mem _ he))

/-- A dry run leaves the workspace alone. -/
theorem workspace_sweep_of_dry (hdry : o.isDryRun = true) (turns : List Turn) :
    (sweep w rules o turns).workspace = w := by
  rw [(sweep_eq w rules o turns).1, after_eq (.inl hdry)]

/-- Every failure is reported. -/
theorem hasFailures_sweep_iff {turns : List Turn} :
    (sweep w rules o turns).report.hasFailures = true ↔
      ∃ e ∈ (sweep w rules o turns).report.files, e.state = .failed := by
  rw [(sweep_eq w rules o turns).2, Report.hasFailures_ofFiles_iff]
  constructor
  · rintro ⟨e, he, hfailed⟩
    have hlisted : Report.isListed e = true :=
      Report.isListed_iff.2 (.inl (by rw [hfailed]; decide))
    exact ⟨e, List.mem_filter.2 ⟨he, hlisted⟩, hfailed⟩
  · rintro ⟨e, he, hfailed⟩
    exact ⟨e, (List.mem_filter.1 he).1, hfailed⟩

end

/-- Where no entry of a dry run is a change, the sweep reports the entries of the dry run. -/
theorem Agrees.eq_of_forall₂ {ds rs : List FileReport} (h : List.Forall₂ Agrees ds rs)
    (hnone : ∀ d ∈ ds, d.state ≠ .changed) : rs = ds := by
  induction h with
  | nil => rfl
  | cons hagrees hrest ih =>
    obtain ⟨hfirst, hothers⟩ := List.forall_mem_cons.1 hnone
    rw [hagrees.resolve_right fun h => hfirst h.1, ih hothers]

/-- A sweep of what a dry run shows no change in writes nothing, and fails where the dry run
fails. -/
theorem sweep_of_no_changes {w : Workspace} {rules : Rules} (o : SweepOptions) {turns : List Turn}
    (h : (sweep w rules { o with isDryRun := true } turns).report.hasChanges = false) :
    (sweep w rules { o with isDryRun := false } turns).workspace = w ∧
      (sweep w rules { o with isDryRun := false } turns).report.hasFailures =
        (sweep w rules { o with isDryRun := true } turns).report.hasFailures := by
  obtain ⟨-, hdry⟩ := sweep_eq w rules { o with isDryRun := true } turns
  obtain ⟨hworkspace, hwet⟩ := sweep_eq w rules { o with isDryRun := false } turns
  have hnone : ∀ d ∈ entriesFrom w rules { o with isDryRun := true } w turns,
      d.state ≠ .changed := by
    intro d hd hchanged
    have hchanges : Report.hasChanges (.ofFiles rules true _) = true :=
      Report.hasChanges_ofFiles_iff.2 ⟨d, hd, hchanged⟩
    rw [hdry, hchanges] at h
    cases h
  have hsame := Agrees.eq_of_forall₂ (forall₂_agrees w rules o w w turns) hnone
  rw [hworkspace, hwet, hdry, hsame, after_eq (.inr (hsame ▸ hnone))]
  refine ⟨rfl, Bool.eq_iff_iff.2 ?_⟩
  rw [Report.hasFailures_ofFiles_iff, Report.hasFailures_ofFiles_iff]

/-! ## Giving a file another text -/

/-- A file of a tree has another text in a later one. -/
def Rewrites (t t' : Tree) : Prop :=
  ∃ location old new, t.entry? location = some (.file old) ∧
    t'.entry? location = some (.file new) ∧ new ≠ old

/-- A sweep reports that it could not write a text that it had changed, once the turns before had
been finished. -/
structure Refused (w : Workspace) (rules : Rules) (o : SweepOptions) (turns : List Turn) (i : Nat)
    (turn : Turn) (text : Bytes) (fault : SourceFault) : Prop where
  listed : turns[i]? = some turn
  read : w.readSource turn.path turn.readFault = .ok text
  modified : (sweepText rules (.ofPath turn.path) text).isModified = true
  write : (sweep w rules o (turns.take i)).workspace.writeSource turn.path o.root
    (sweepText rules (.ofPath turn.path) text).text turn.writeFault = .error fault
  reported : { file := Path.display turn.path, state := .failed
               skipped := (sweepText rules (.ofPath turn.path) text).skipped.length
               error := some fault.message } ∈ (sweep w rules o turns).report.files

section
variable {w : Workspace} (hw : w.tree.WellFormed) {rules : Rules} {o : SweepOptions}
  {turns : List Turn}
include hw

/-- The frame holds after all the turns. -/
theorem framed_after : Framed w rules o turns
    { workspace := after w rules o w turns
      entries := entriesFrom w rules o w turns } := by
  have hstart : Framed w rules o [] { workspace := w } :=
    ⟨rfl, by simp, rfl, .refl _, fun _ => .inr ⟨fun _ _ => not_wrote_nil, rfl⟩⟩
  obtain ⟨hfiles, hchanged, hcwd, halike, hheld⟩ := hstart.foldl hw turns
  obtain ⟨hworkspace, hentries⟩ := foldl_next w rules o { workspace := w } turns
  rw [List.nil_append] at hfiles hchanged hheld hentries
  rw [hentries] at hfiles hchanged hheld
  rw [hworkspace] at hcwd halike hheld
  exact ⟨hfiles, hchanged, hcwd, halike, hheld⟩

/-- A file that is reported as changed has another text in the end, in whichever turn it was
written last. -/
theorem rewrites_of_changed (hrules : rules.fault? = none) (hwet : o.isDryRun = false)
    {turn : Turn} {e : FileReport}
    (hmem : (turn, e) ∈ turns.zip (entriesFrom w rules o w turns))
    (hchanged : e.state = .changed) :
    Rewrites w.tree (after w rules o w turns).tree := by
  have hframed : Framed w rules o turns _ := framed_after hw
  obtain ⟨location, old, hchanges⟩ := (hframed.changed _ hmem).1 hchanged
  rcases hframed.held location with ⟨turn', old', hwrote, hnow⟩ | ⟨hnone, -⟩
  · obtain ⟨source, rfl⟩ := exists_ofString hwrote.text
    exact ⟨location, _, _, Tree.entry?_of_resolve (Tree.find_eq_ok_iff.1 hwrote.leads).2, hnow,
      sweepText_text_ne_of_modified hrules _ (aligned_ofString source) hwrote.modified⟩
  · exact absurd ⟨hchanges, hwet, e, hmem, hchanged⟩ (hnone turn old)

/-- A sweep of what a dry run shows a change in gives some file another text, or reports that it
could not write one. -/
theorem sweep_of_changes (hrules : rules.fault? = none)
    (h : (sweep w rules { o with isDryRun := true } turns).report.hasChanges = true) :
    Rewrites w.tree (sweep w rules { o with isDryRun := false } turns).workspace.tree ∨
      (∃ i turn text fault,
        Refused w rules { o with isDryRun := false } turns i turn text fault) ∧
        (sweep w rules { o with isDryRun := false } turns).report.hasFailures = true := by
  have hdry := (sweep_eq w rules { o with isDryRun := true } turns).2
  obtain ⟨hworkspace, hwet⟩ := sweep_eq w rules { o with isDryRun := false } turns
  rw [hdry] at h
  obtain ⟨d, hd, hchanged⟩ := Report.hasChanges_ofFiles_iff.1 h
  obtain ⟨i, hi⟩ := List.mem_iff_getElem?.1 hd
  rw [getElem?_entriesFrom] at hi
  obtain ⟨turn, hturn, rfl⟩ := Option.map_eq_some_iff.1 hi
  have hentry := getElem?_entriesFrom w rules { o with isDryRun := false } w turns i
  rw [hturn, Option.map_some] at hentry
  have hforetold := @foretold_finished w
    (after w rules { o with isDryRun := false } w (turns.take i)) rules turn
    (after w rules { o with isDryRun := true } w (turns.take i)) o
  generalize (finished (after w rules { o with isDryRun := false } w (turns.take i))
    rules { o with isDryRun := false } turn (examine w rules turn)).entry = r
    at hentry hforetold
  generalize (finished (after w rules { o with isDryRun := true } w (turns.take i))
    rules { o with isDryRun := true } turn (examine w rules turn)).entry = d
    at hchanged hforetold
  cases hforetold with
  | cancelled | unreadable | unchanged => cases hchanged
  | written =>
    left
    rw [hworkspace]
    exact rewrites_of_changed hw hrules rfl
      (List.mem_iff_getElem?.2 ⟨i, List.getElem?_zip_eq_some.2 ⟨hturn, hentry⟩⟩) rfl
  | @refused text fault hread hmodified hwrite =>
    right
    have hreported : { file := Path.display turn.path, state := .failed
                       skipped := (sweepText rules (.ofPath turn.path) text).skipped.length
                       error := some fault.message } ∈
        (sweep w rules { o with isDryRun := false } turns).report.files := by
      rw [hwet]
      exact List.mem_filter.2 ⟨List.mem_iff_getElem?.2 ⟨i, hentry⟩, rfl⟩
    have hworkspace := (sweep_eq w rules { o with isDryRun := false } (turns.take i)).1
    exact ⟨⟨i, turn, text, fault, hturn, hread, hmodified, hworkspace ▸ hwrite, hreported⟩,
      hasFailures_sweep_iff.2 ⟨_, hreported, rfl⟩⟩

end

end LogSweep.Command
