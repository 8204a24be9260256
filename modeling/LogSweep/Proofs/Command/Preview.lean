import LogSweep.Command.Files
import LogSweep.Proofs.Command.Report
import Mathlib.Data.List.Forall2

/-!
# What a preview foretells

A dry run and the sweep itself examine the same files before anything is written, and part only
where a changed text is to be written back. So the entry of a turn in a dry run is the entry of the
turn in the sweep, unless its file cannot be written (`Foretold`); and since an outcome counts the
changes that it lists, the listing of the files shows the same numbers (`Shows`).
-/

namespace LogSweep.Command

open Files

/-! ## One turn -/

/-- The entries of a turn in a dry run and in the sweep of the same workspace `w`, when the sweep
comes to the turn with the workspace `now`. -/
inductive Foretold (w now : Workspace) (rules : Rules) (root : Option String) (turn : Turn) :
    FileReport → FileReport → Prop
  | cancelled (hcancelled : turn.isCancelled = true) :
      Foretold w now rules root turn
        { file := Path.display turn.path, state := .cancelled }
        { file := Path.display turn.path, state := .cancelled }
  | unreadable {fault : SourceFault}
      (hread : w.readSource turn.path turn.readFault = .error fault) :
      Foretold w now rules root turn
        { file := Path.display turn.path, state := .failed, error := some fault.message }
        { file := Path.display turn.path, state := .failed, error := some fault.message }
  | unchanged {text : Bytes} (hread : w.readSource turn.path turn.readFault = .ok text)
      (hsame : (sweepText rules (.ofPath turn.path) text).isModified = false) :
      Foretold w now rules root turn
        { file := Path.display turn.path, state := .unchanged
          skipped := (sweepText rules (.ofPath turn.path) text).skipped.length }
        { file := Path.display turn.path, state := .unchanged
          skipped := (sweepText rules (.ofPath turn.path) text).skipped.length }
  | written {text : Bytes} {now' : Workspace}
      (hread : w.readSource turn.path turn.readFault = .ok text)
      (hmodified : (sweepText rules (.ofPath turn.path) text).isModified = true)
      (hwrite : now.writeSource turn.path root (sweepText rules (.ofPath turn.path) text).text
        turn.writeFault = .ok now') :
      Foretold w now rules root turn
        (changedEntry turn.path (sweepText rules (.ofPath turn.path) text))
        (changedEntry turn.path (sweepText rules (.ofPath turn.path) text))
  | refused {text : Bytes} {fault : SourceFault}
      (hread : w.readSource turn.path turn.readFault = .ok text)
      (hmodified : (sweepText rules (.ofPath turn.path) text).isModified = true)
      (hwrite : now.writeSource turn.path root (sweepText rules (.ofPath turn.path) text).text
        turn.writeFault = .error fault) :
      Foretold w now rules root turn
        (changedEntry turn.path (sweepText rules (.ofPath turn.path) text))
        { file := Path.display turn.path, state := .failed
          skipped := (sweepText rules (.ofPath turn.path) text).skipped.length
          error := some fault.message }

/-- An entry of a sweep is the one of the dry run, except that a change that could not be written
has become a failure. -/
def Agrees (d r : FileReport) : Prop :=
  r = d ∨ d.state = .changed ∧ ∃ message,
    r = { file := d.file, state := .failed, skipped := d.skipped, error := some message }

/-- A file is listed with the numbers of its entry in a dry run. -/
structure Shows (d : FileReport) (l : Listing) : Prop where
  file : l.file = d.file
  calls : l.calls = d.deleted + d.redirected
  skipped : l.skipped = d.skipped
  /-- Nothing is counted where a dry run has no entry or could not read the file. -/
  nothing : Report.isListed d = false ∨ d.state = .failed → l.calls = 0 ∧ l.skipped = 0

section
variable {w now : Workspace} {rules : Rules} {turn : Turn}

/-- A file that is read and swept ends in both runs as the dry run foretells. -/
theorem foretold_of_finishes {text : Bytes}
    (hread : w.readSource turn.path turn.readFault = .ok text) {o : SweepOptions}
    {before before' now' : Workspace} {d r : FileReport}
    (hdry : Finishes before { o with isDryRun := true } turn
      (sweepText rules (.ofPath turn.path) text) before' d)
    (hwet : Finishes now { o with isDryRun := false } turn
      (sweepText rules (.ofPath turn.path) text) now' r) :
    Foretold w now rules o.root turn d r := by
  cases hwet with
  | announced _ hdry => cases hdry
  | unchanged hsame =>
    cases hdry with
    | unchanged => exact .unchanged hread hsame
    | announced hmodified | written hmodified | refused hmodified =>
      rw [hsame] at hmodified
      cases hmodified
  | written hmodified _ hwrite =>
    cases hdry with
    | announced => exact .written hread hmodified hwrite
    | unchanged hsame =>
      rw [hsame] at hmodified
      cases hmodified
    | written _ hwet | refused _ hwet => cases hwet
  | refused hmodified _ hwrite =>
    cases hdry with
    | announced => exact .refused hread hmodified hwrite
    | unchanged hsame =>
      rw [hsame] at hmodified
      cases hmodified
    | written _ hwet | refused _ hwet => cases hwet

/-- A turn comes to the same in a dry run and in the sweep, up to the writing. -/
theorem foretold_finished (now' : Workspace) (o : SweepOptions) :
    Foretold w now rules o.root turn
      (finished now' rules { o with isDryRun := true } turn (examine w rules turn)).entry
      (finished now rules { o with isDryRun := false } turn (examine w rules turn)).entry := by
  cases hrunning : turn.isCancelled with
  | true =>
    have hcancelled : examine w rules turn = .cancelled := by simp [examine, hrunning]
    rw [hcancelled]
    exact .cancelled hrunning
  | false =>
    cases hread : w.readSource turn.path turn.readFault with
    | error fault =>
      have hfailed : examine w rules turn = .failed fault := by simp [examine, hrunning, hread]
      rw [hfailed]
      exact .unreadable hread
    | ok text =>
      have hswept : examine w rules turn = .swept (sweepText rules (.ofPath turn.path) text) := by
        simp [examine, hrunning, hread]
      have hdry := finishes_finish now' rules { o with isDryRun := true } turn
        (sweepText rules (.ofPath turn.path) text)
      have hwet := finishes_finish now rules { o with isDryRun := false } turn
        (sweepText rules (.ofPath turn.path) text)
      rw [hswept]
      exact foretold_of_finishes hread hdry hwet

/-- What is foretold agrees with what happens, up to writes that fail. -/
theorem Foretold.agrees {root : Option String} {d r : FileReport}
    (h : Foretold w now rules root turn d r) : Agrees d r := by
  cases h with
  | cancelled | unreadable | unchanged | written => exact .inl rfl
  | refused => exact .inr ⟨rfl, _, rfl⟩

/-- A turn that is not cancelled is listed with the numbers of its entry. -/
theorem Foretold.shows {root : Option String} {d r : FileReport}
    (h : Foretold w now rules root turn d r) (hrunning : turn.isCancelled = false) :
    Shows d (listFile w rules turn.path turn.readFault) := by
  have hcounted (text : Bytes) := (counted_sweepText rules (.ofPath turn.path) text).length_changes
  cases h with
  | cancelled hcancelled =>
    rw [hrunning] at hcancelled
    cases hcancelled
  | unreadable hread =>
    simp only [listFile, hread]
    exact ⟨rfl, rfl, rfl, fun _ => ⟨rfl, rfl⟩⟩
  | @unchanged text hread hsame =>
    have hzero : (sweepText rules (.ofPath turn.path) text).changes.length = 0 := by
      rw [hcounted]
      exact Nat.eq_zero_of_not_pos (of_decide_eq_false hsame)
    simp only [listFile, hread]
    refine ⟨rfl, hzero, rfl, ?_⟩
    rintro (hlisted | hfailed)
    · exact ⟨hzero, by simpa [Report.isListed] using hlisted⟩
    · cases hfailed
  | written hread | refused hread =>
    simp only [listFile, hread]
    refine ⟨rfl, hcounted _, rfl, ?_⟩
    rintro (hlisted | hfailed)
    · simp [Report.isListed, changedEntry] at hlisted
    · cases hfailed

end

/-- Entries that agree are listed alike: neither is unchanged unless both are. -/
theorem Agrees.isListed_eq {d r : FileReport} (h : Agrees d r) :
    Report.isListed d = Report.isListed r := by
  rcases h with rfl | ⟨hchanged, message, rfl⟩
  · rfl
  · have hlisted : Report.isListed d = true :=
      Report.isListed_iff.2 (.inl (by rw [hchanged]; decide))
    rw [hlisted]
    rfl

/-! ## All turns -/

section
variable (w : Workspace) (rules : Rules) (o : SweepOptions)

/-- A turn is finished in the workspace that the turns before it leave. -/
theorem getElem?_entriesFrom (now : Workspace) (turns : List Turn) (i : Nat) :
    (entriesFrom w rules o now turns)[i]? = turns[i]?.map fun turn =>
      (finished (after w rules o now (turns.take i)) rules o turn
        (examine w rules turn)).entry := by
  induction turns generalizing now i with
  | nil => rfl
  | cons turn turns ih =>
    cases i with
    | zero => rfl
    | succ i => exact ih _ i

/-- A dry run and a sweep agree turn by turn, whatever the two have come to. -/
theorem forall₂_agrees (now now' : Workspace) (turns : List Turn) :
    List.Forall₂ Agrees
      (entriesFrom w rules { o with isDryRun := true } now' turns)
      (entriesFrom w rules { o with isDryRun := false } now turns) := by
  induction turns generalizing now now' with
  | nil => exact .nil
  | cons turn turns ih => exact .cons (foretold_finished now' o).agrees (ih _ _)

end

/-- A dry run foretells the sweep and the listing. The entries of the two reports agree one by one,
and they differ exactly where the file could not be written when its turn came, because of the root
or because the system refuses to; every file whose turn is not cancelled is listed with the numbers
of its entry in the dry run. -/
theorem sweep_foretold (w : Workspace) (rules : Rules) (o : SweepOptions) (turns : List Turn) :
    let dry := sweep w rules { o with isDryRun := true }
    let wet := sweep w rules { o with isDryRun := false }
    List.Forall₂ Agrees (dry turns).report.files (wet turns).report.files ∧
    ∃ ds rs : List FileReport,
      (dry turns).report.files = ds.filter Report.isListed ∧
      (wet turns).report.files = rs.filter Report.isListed ∧
      ds.length = turns.length ∧ rs.length = turns.length ∧
      ∀ i turn d r, turns[i]? = some turn → ds[i]? = some d → rs[i]? = some r →
        Foretold w (wet (turns.take i)).workspace rules o.root turn d r ∧
        (turn.isCancelled = false →
          ∀ refusals : Refusals, refusals.read turn.path = turn.readFault →
          ∃ l, (listFiles w rules refusals (turns.map (·.path)))[i]? = some l ∧ Shows d l) := by
  intro dry wet
  have hdry : (dry turns).report.files = _ := congrArg Report.files (sweep_eq w rules _ turns).2
  have hwet : (wet turns).report.files = _ := congrArg Report.files (sweep_eq w rules _ turns).2
  have hagrees := forall₂_agrees w rules o w w turns
  have hlisted := List.rel_filter (R := Agrees) (p := Report.isListed) (q := Report.isListed)
    (fun d r h => iff_of_eq (congrArg (· = true) h.isListed_eq)) hagrees
  refine ⟨hdry ▸ hwet ▸ hlisted, _, _, hdry, hwet, length_entriesFrom .., length_entriesFrom .., ?_⟩
  intro i turn d r hturn hd hr
  rw [getElem?_entriesFrom, hturn] at hd hr
  obtain rfl := Option.some.inj hd
  obtain rfl := Option.some.inj hr
  have hforetold := @foretold_finished w
    (after w rules { o with isDryRun := false } w (turns.take i)) rules turn
    (after w rules { o with isDryRun := true } w (turns.take i)) o
  have hnow : (wet (turns.take i)).workspace = _ := (sweep_eq w rules _ (turns.take i)).1
  refine ⟨hnow ▸ hforetold, fun hrunning refusals hrefusals =>
    ⟨listFile w rules turn.path turn.readFault, ?_, hforetold.shows hrunning⟩⟩
  rw [listFiles, List.getElem?_map, List.getElem?_map, hturn, ← hrefusals]
  rfl

end LogSweep.Command
