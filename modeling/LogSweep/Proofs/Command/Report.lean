import LogSweep.Command.Sweep
import Mathlib.Algebra.GroupWithZero.Nat

/-!
# What a report adds up to

A sweep takes its turns one after the other, and the entry of a turn depends on nothing that
happened before but the workspace that the sweep has come to (`entriesFrom`). Every entry is
consistent in itself (`FileReport.Consistent`), because an outcome counts exactly the changes that
it lists, in one script or across the bodies of a component (`counted_sweepText`). Entries that are
not listed count for nothing, so the totals of a report are those of the entries that it shows
(`sweep_report_consistent`).
-/

namespace LogSweep

/-! ## What an outcome counts -/

/-- The counts of an outcome are those of the changes that it lists. -/
structure Outcome.Counted (o : Outcome) : Prop where
  deleted : o.changes.countP (·.action == .deleted) = o.deleted
  redirected : o.changes.countP (·.action == .redirected) = o.redirected

/-- A call is deleted or redirected. -/
theorem countP_action (changes : List Change) :
    changes.countP (·.action == .deleted) + changes.countP (·.action == .redirected) =
      changes.length := by
  induction changes with
  | nil => rfl
  | cons c changes ih =>
    rw [List.countP_cons, List.countP_cons, List.length_cons, ← ih]
    cases c.action <;> simp <;> omega

/-- There are as many changes as the two counts say together. -/
theorem Outcome.Counted.length_changes {o : Outcome} (h : o.Counted) :
    o.changes.length = o.deleted + o.redirected := by
  rw [← countP_action, h.deleted, h.redirected]

/-- The sweep of a script counts the changes that it lists. -/
theorem counted_sweepScript (rules : Rules) (text : Bytes) : (sweepScript rules text).Counted := by
  unfold sweepScript
  dsimp only
  split
  · exact ⟨rfl, rfl⟩
  · refine ⟨?_, rfl⟩
    rw [← countP_action]
    exact (Nat.add_sub_cancel _ _).symm

namespace Component

/-- Moving the lines changes no count. -/
theorem counted_shifted (lines : Nat) {o : Outcome} (h : o.Counted) :
    (shifted lines o).Counted := by
  constructor
  · show (o.changes.map _).countP _ = o.deleted
    rw [List.countP_map]
    exact h.deleted
  · show (o.changes.map _).countP _ = o.redirected
    rw [List.countP_map]
    exact h.redirected

/-- Outcomes put together count what both list. -/
theorem counted_append {a b : Outcome} (ha : a.Counted) (hb : b.Counted) :
    (append a b).Counted := by
  constructor
  · show (a.changes ++ b.changes).countP _ = a.deleted + b.deleted
    rw [List.countP_append, ha.deleted, hb.deleted]
  · show (a.changes ++ b.changes).countP _ = a.redirected + b.redirected
    rw [List.countP_append, ha.redirected, hb.redirected]

/-- The sweep of the bodies of a component counts the changes that it lists. -/
theorem counted_sweepBodies (rules : Rules) (offset line : Nat) (text : Bytes)
    (bodies : List Span) : (sweepBodies rules offset line text bodies).Counted := by
  induction bodies generalizing offset line text with
  | nil => exact ⟨rfl, rfl⟩
  | cons body bodies ih =>
    have hmarkup (markup : Bytes) : ({ text := markup } : Outcome).Counted := ⟨rfl, rfl⟩
    exact counted_append
      (counted_append (hmarkup _) (counted_shifted _ (counted_sweepScript rules _))) (ih _ _ _)

end Component

/-- A sweep counts the changes that it lists, whatever the rules are. -/
theorem counted_sweepText (rules : Rules) (layout : Layout) (text : Bytes) :
    (sweepText rules layout text).Counted := by
  cases layout with
  | script => exact counted_sweepScript rules text
  | component => exact Component.counted_sweepBodies rules 0 1 text _

/-! ## Consistent entries -/

/-- An entry that says nothing that its state does not allow, and counts the changes that it
lists. -/
structure FileReport.Consistent (e : FileReport) : Prop where
  changed : e.state = .changed → 0 < e.deleted + e.redirected
  deleted : e.changes.countP (·.action == .deleted) = e.deleted
  redirected : e.changes.countP (·.action == .redirected) = e.redirected
  other : e.state ≠ .changed → e.deleted = 0 ∧ e.redirected = 0 ∧ e.changes = []
  error : e.error.isSome = true ↔ e.state = .failed

namespace Report

/-- A file is listed unless it is unchanged and nothing in it was skipped. -/
theorem isListed_iff {e : FileReport} :
    isListed e = true ↔ e.state ≠ .unchanged ∨ 0 < e.skipped := by
  simp [isListed]

/-- The totals of some entries, on top of those that there are. -/
theorem foldl_addTotals (s : Summary) (files : List FileReport) :
    files.foldl addTotals s =
      { s with
        changed := s.changed + files.countP (·.state == .changed)
        failed := s.failed + files.countP (·.state == .failed)
        cancelled := s.cancelled + files.countP (·.state == .cancelled)
        deleted := s.deleted + (files.map (·.deleted)).sum
        redirected := s.redirected + (files.map (·.redirected)).sum
        skipped := s.skipped + (files.map (·.skipped)).sum } := by
  induction files generalizing s with
  | nil => rfl
  | cons e files ih =>
    rw [List.foldl_cons, ih]
    simp only [addTotals, List.countP_cons, List.map_cons, List.sum_cons, Summary.mk.injEq,
      true_and, and_true]
    omega

/-- A report has failures when an entry failed. -/
theorem hasFailures_ofFiles_iff {rules : Rules} {isDryRun : Bool} {files : List FileReport} :
    (ofFiles rules isDryRun files).hasFailures = true ↔ ∃ e ∈ files, e.state = .failed := by
  have htotal : (ofFiles rules isDryRun files).summary.failed =
      files.countP (·.state == .failed) := by
    show (files.foldl addTotals _).failed = _
    rw [foldl_addTotals]
    exact Nat.zero_add _
  rw [hasFailures, decide_eq_true_iff, htotal, List.countP_pos_iff]
  simp only [beq_iff_eq]

/-- A report has changes when an entry was changed. -/
theorem hasChanges_ofFiles_iff {rules : Rules} {isDryRun : Bool} {files : List FileReport} :
    (ofFiles rules isDryRun files).hasChanges = true ↔ ∃ e ∈ files, e.state = .changed := by
  have htotal : (ofFiles rules isDryRun files).summary.changed =
      files.countP (·.state == .changed) := by
    show (files.foldl addTotals _).changed = _
    rw [foldl_addTotals]
    exact Nat.zero_add _
  rw [hasChanges, decide_eq_true_iff, htotal, List.countP_pos_iff]
  simp only [beq_iff_eq]

section
variable {files : List FileReport}

/-- Entries in a state that is always listed are counted among those that are listed. -/
theorem countP_listed {state : FileState} (hstate : state ≠ .unchanged) :
    (files.filter isListed).countP (·.state == state) = files.countP (·.state == state) := by
  rw [List.countP_filter]
  refine List.countP_congr fun e _ => ?_
  simp only [Bool.and_eq_true, beq_iff_eq, and_iff_left_iff_imp]
  rintro rfl
  exact isListed_iff.2 (.inl hstate)

/-- What is zero for every entry that is not listed adds up over the entries that are. -/
theorem sum_listed {count : FileReport → Nat}
    (h : ∀ e ∈ files, isListed e = false → count e = 0) :
    ((files.filter isListed).map count).sum = (files.map count).sum := by
  induction files with
  | nil => rfl
  | cons e files ih =>
    obtain ⟨hfirst, hothers⟩ := List.forall_mem_cons.1 h
    rw [List.filter_cons, List.map_cons, List.sum_cons, ← ih hothers]
    cases hlisted : isListed e with
    | true => rw [if_pos rfl, List.map_cons, List.sum_cons]
    | false => rw [if_neg Bool.false_ne_true, hfirst hlisted, Nat.zero_add]

/-- A file that is not listed counts for nothing. -/
theorem counts_of_not_listed {e : FileReport} (h : e.Consistent) (hlisted : isListed e = false) :
    e.deleted = 0 ∧ e.redirected = 0 ∧ e.skipped = 0 := by
  have hstate : ¬ (e.state ≠ .unchanged ∨ 0 < e.skipped) := by
    rw [← isListed_iff, hlisted]
    exact Bool.false_ne_true
  obtain ⟨hunchanged, hskipped⟩ := not_or.1 hstate
  obtain ⟨hdeleted, hredirected, -⟩ := h.other fun hchanged => hunchanged (by rw [hchanged]; decide)
  exact ⟨hdeleted, hredirected, Nat.eq_zero_of_not_pos hskipped⟩

/-- The totals of a report are those of the entries that it lists. -/
theorem summary_ofFiles (rules : Rules) (isDryRun : Bool) (h : ∀ e ∈ files, e.Consistent) :
    (ofFiles rules isDryRun files).summary =
      { scanned := files.length
        changed := (files.filter isListed).countP (·.state == .changed)
        failed := (files.filter isListed).countP (·.state == .failed)
        cancelled := (files.filter isListed).countP (·.state == .cancelled)
        deleted := ((files.filter isListed).map (·.deleted)).sum
        redirected := ((files.filter isListed).map (·.redirected)).sum
        skipped := ((files.filter isListed).map (·.skipped)).sum
        isDryRun } := by
  have hunlisted := fun e he => counts_of_not_listed (h e he)
  rw [countP_listed (by decide), countP_listed (by decide), countP_listed (by decide),
    sum_listed fun e he hlisted => (hunlisted e he hlisted).1,
    sum_listed fun e he hlisted => (hunlisted e he hlisted).2.1,
    sum_listed fun e he hlisted => (hunlisted e he hlisted).2.2]
  show files.foldl addTotals _ = _
  rw [foldl_addTotals]
  simp only [Nat.zero_add]

end

end Report

namespace Command

open Files

/-! ## Finishing one turn -/

/-- The entry of a path whose text is changed. -/
def changedEntry (path : String) (outcome : Outcome) : FileReport where
  file := Path.display path
  state := .changed
  deleted := outcome.deleted
  redirected := outcome.redirected
  skipped := outcome.skipped.length
  changes := outcome.changes

/-- How a turn whose text has been swept is finished: the workspace afterwards, and the entry. -/
inductive Finishes (now : Workspace) (o : SweepOptions) (turn : Turn) (outcome : Outcome) :
    Workspace → FileReport → Prop
  | unchanged (hsame : outcome.isModified = false) :
      Finishes now o turn outcome now
        { file := Path.display turn.path, state := .unchanged, skipped := outcome.skipped.length }
  | announced (hmodified : outcome.isModified = true) (hdry : o.isDryRun = true) :
      Finishes now o turn outcome now (changedEntry turn.path outcome)
  | written {now' : Workspace} (hmodified : outcome.isModified = true) (hwet : o.isDryRun = false)
      (hwrite : now.writeSource turn.path o.root outcome.text turn.writeFault = .ok now') :
      Finishes now o turn outcome now' (changedEntry turn.path outcome)
  | refused {fault : SourceFault} (hmodified : outcome.isModified = true)
      (hwet : o.isDryRun = false)
      (hwrite : now.writeSource turn.path o.root outcome.text turn.writeFault = .error fault) :
      Finishes now o turn outcome now
        { file := Path.display turn.path, state := .failed, skipped := outcome.skipped.length
          error := some fault.message }

/-- Every swept text is finished in one of these ways. -/
theorem finishes_finish (now : Workspace) (rules : Rules) (o : SweepOptions) (turn : Turn)
    (outcome : Outcome) : Finishes now o turn outcome (finish now rules o turn outcome).workspace
      (finish now rules o turn outcome).entry := by
  unfold finish
  dsimp only
  split
  · next hsame => exact .unchanged (by simpa using hsame)
  · next hmodified =>
    replace hmodified : outcome.isModified = true := by simpa using hmodified
    split
    · next hdry => exact .announced hmodified hdry
    · next hwet =>
      replace hwet : o.isDryRun = false := by simpa using hwet
      split
      · next hwrite => exact .refused hmodified hwet hwrite
      · next hwrite => exact .written hmodified hwet hwrite

section
variable {now now' : Workspace} {o : SweepOptions} {turn : Turn} {outcome : Outcome}
  {e : FileReport} (h : Finishes now o turn outcome now' e)
include h

/-- The entry of a turn names its file. -/
theorem Finishes.file_eq : e.file = Path.display turn.path := by
  cases h <;> rfl

/-- A counted outcome has a consistent entry, whether or not the file is written. -/
theorem Finishes.consistent (hcounted : outcome.Counted) : e.Consistent := by
  have hchanged (hmodified : outcome.isModified = true) :
      (changedEntry turn.path outcome).Consistent :=
    ⟨fun _ => of_decide_eq_true hmodified, hcounted.deleted, hcounted.redirected,
      fun hne => absurd rfl hne, by simp [changedEntry]⟩
  cases h with
  | announced hmodified | written hmodified => exact hchanged hmodified
  | unchanged | refused => exact ⟨by simp, rfl, rfl, fun _ => ⟨rfl, rfl, rfl⟩, by simp⟩

end

/-! ## The entries of a sweep -/

/-- What comes of a turn that has been examined, once the sweep has come to a workspace. -/
def finished (now : Workspace) (rules : Rules) (o : SweepOptions) (turn : Turn) :
    Examined → Finished
  | .cancelled =>
    { workspace := now, entry := { file := Path.display turn.path, state := .cancelled } }
  | .failed fault =>
    { workspace := now
      entry := { file := Path.display turn.path, state := .failed, error := some fault.message } }
  | .swept outcome => finish now rules o turn outcome

/-- A turn adds its entry, whatever became of the file. -/
theorem Progress.next_eq (rules : Rules) (o : SweepOptions) (p : Progress) (turn : Turn)
    (examined : Examined) : p.next rules o turn examined =
      { workspace := (finished p.workspace rules o turn examined).workspace
        entries := p.entries ++ [(finished p.workspace rules o turn examined).entry]
        output := p.output ++ (finished p.workspace rules o turn examined).output
        diagnostics := p.diagnostics ++
          if o.explains then explain rules turn.path examined else "" } := by
  cases examined <;> rfl

section
variable (w : Workspace) (rules : Rules) (o : SweepOptions)

/-- The workspace that a sweep has come to behind some of its turns. -/
def after (now : Workspace) (turns : List Turn) : Workspace :=
  turns.foldl (fun now turn => (finished now rules o turn (examine w rules turn)).workspace) now

/-- The entries of the turns that a sweep goes through from a workspace on. -/
def entriesFrom (now : Workspace) : List Turn → List FileReport
  | [] => []
  | turn :: turns =>
    (finished now rules o turn (examine w rules turn)).entry ::
      entriesFrom (finished now rules o turn (examine w rules turn)).workspace turns

/-- The workspace and the entries after some turns, turn by turn. -/
theorem foldl_next (p : Progress) (turns : List Turn) :
    (turns.foldl (fun p turn => p.next rules o turn (examine w rules turn)) p).workspace
        = after w rules o p.workspace turns ∧
      (turns.foldl (fun p turn => p.next rules o turn (examine w rules turn)) p).entries
        = p.entries ++ entriesFrom w rules o p.workspace turns := by
  induction turns generalizing p with
  | nil => exact ⟨rfl, (List.append_nil _).symm⟩
  | cons turn turns ih =>
    obtain ⟨hworkspace, hentries⟩ := ih (p.next rules o turn (examine w rules turn))
    rw [Progress.next_eq] at hworkspace hentries
    rw [List.foldl_cons, Progress.next_eq]
    refine ⟨hworkspace, hentries.trans ?_⟩
    rw [List.append_assoc]
    rfl

/-- A sweep leaves the workspace that its last turn leaves, and reports the entries of its turns. -/
theorem sweep_eq (turns : List Turn) :
    (sweep w rules o turns).workspace = after w rules o w turns ∧
      (sweep w rules o turns).report =
        .ofFiles rules o.isDryRun (entriesFrom w rules o w turns) := by
  unfold sweep
  simp only [List.foldl_map]
  obtain ⟨hworkspace, hentries⟩ := foldl_next w rules o
    { workspace := w, output := opening o (turns.map fun turn => (turn, examine w rules turn)) }
    turns
  exact ⟨hworkspace, by rw [hentries, List.nil_append]⟩

end

section
variable (w : Workspace) (rules : Rules) (o : SweepOptions)

/-- Every entry names the file of its turn. -/
theorem file_finished (now : Workspace) (turn : Turn) (examined : Examined) :
    (finished now rules o turn examined).entry.file = Path.display turn.path := by
  cases examined with
  | cancelled | failed => rfl
  | swept outcome => exact (finishes_finish now rules o turn outcome).file_eq

/-- The entries of a sweep name the paths of its turns, in their order. -/
theorem map_file_entriesFrom (now : Workspace) (turns : List Turn) :
    (entriesFrom w rules o now turns).map (·.file) =
      turns.map fun turn => Path.display turn.path := by
  induction turns generalizing now with
  | nil => rfl
  | cons turn turns ih =>
    rw [entriesFrom, List.map_cons, List.map_cons, ih, file_finished]

/-- There is one entry for each turn. -/
theorem length_entriesFrom (now : Workspace) (turns : List Turn) :
    (entriesFrom w rules o now turns).length = turns.length := by
  rw [← List.length_map (f := (·.file)), map_file_entriesFrom, List.length_map]

/-- The entry of a turn is consistent. -/
theorem consistent_finished (now : Workspace) (turn : Turn) :
    (finished now rules o turn (examine w rules turn)).entry.Consistent := by
  unfold examine
  split
  · exact ⟨by simp [finished], rfl, rfl, fun _ => ⟨rfl, rfl, rfl⟩, by simp [finished]⟩
  · split
    · exact ⟨by simp [finished], rfl, rfl, fun _ => ⟨rfl, rfl, rfl⟩, by simp [finished]⟩
    · exact (finishes_finish now rules o turn _).consistent (counted_sweepText rules _ _)

/-- All entries are consistent, whatever the turns before did to the workspace. -/
theorem consistent_entriesFrom (now : Workspace) (turns : List Turn) :
    ∀ e ∈ entriesFrom w rules o now turns, e.Consistent := by
  induction turns generalizing now with
  | nil => simp [entriesFrom]
  | cons turn turns ih =>
    exact List.forall_mem_cons.2 ⟨consistent_finished w rules o now turn, ih _⟩

end

/-- A report adds up, whatever is cancelled or refused in each turn: it has an entry for every turn
that something is to be said of, in the order of the turns, every entry is consistent, and the
totals are those of the entries. -/
theorem sweep_report_consistent (w : Workspace) (rules : Rules) (o : SweepOptions)
    (turns : List Turn) :
    let report := (sweep w rules o turns).report
    report.summary =
      { scanned := turns.length
        changed := report.files.countP (·.state == .changed)
        failed := report.files.countP (·.state == .failed)
        cancelled := report.files.countP (·.state == .cancelled)
        deleted := (report.files.map (·.deleted)).sum
        redirected := (report.files.map (·.redirected)).sum
        skipped := (report.files.map (·.skipped)).sum
        isDryRun := o.isDryRun } ∧
    (∀ e ∈ report.files, e.Consistent ∧ (e.state = .unchanged → 0 < e.skipped)) ∧
    ∃ entries : List FileReport,
      entries.map (·.file) = turns.map (fun turn => Path.display turn.path) ∧
      report.files = entries.filter Report.isListed := by
  intro report
  have hreport : report = .ofFiles rules o.isDryRun (entriesFrom w rules o w turns) :=
    (sweep_eq w rules o turns).2
  have hconsistent := consistent_entriesFrom w rules o w turns
  rw [hreport]
  refine ⟨?_, fun e he => ?_, _, map_file_entriesFrom w rules o w turns, rfl⟩
  · rw [Report.summary_ofFiles rules o.isDryRun hconsistent, length_entriesFrom]
    rfl
  · obtain ⟨hmem, hlisted⟩ := List.mem_filter.1 he
    refine ⟨hconsistent e hmem, fun hunchanged => ?_⟩
    exact (Report.isListed_iff.1 hlisted).resolve_left fun hne => hne hunchanged

end Command

end LogSweep
