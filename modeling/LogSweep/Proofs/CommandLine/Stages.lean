import LogSweep.CommandLine.Run

/-!
# The stages of a run

A run that is to sweep goes through stages, and it stops at one of them (`Stops`) or comes to sweep
some files (`Sweeps`). Whether it is to check, to show or to write makes no difference to that
(`run_cases`), and what it comes to is determined (`Sweeps.not_stops`, `Sweeps.unique`).
-/

namespace LogSweep.CommandLine

open Files

/-! ## How far a run gets -/

/-- The plan of a run in a workspace. -/
def Arguments.planIn (a : Arguments) (w : Workspace) : Plan :=
  a.plan (Settings.find w (a.targets.head?.getD ".")).settings

/-- The same arguments, except for whether to check and whether to show only. -/
def Arguments.withFlags (a : Arguments) (check dryRun : Bool) : Arguments :=
  { a with check, dryRun }

/-- Setting the flags as they are changes nothing. -/
theorem Arguments.withFlags_eq (a : Arguments) {check dryRun : Bool} (hcheck : a.check = check)
    (hdry : a.dryRun = dryRun) : a.withFlags check dryRun = a := by
  subst hcheck hdry
  rfl

section
variable (a : Arguments) (check dryRun : Bool)

@[simp] theorem Arguments.job_withFlags : (a.withFlags check dryRun).job = a.job := rfl

@[simp] theorem Arguments.select_withFlags : (a.withFlags check dryRun).select = a.select := rfl

@[simp] theorem Arguments.targets_withFlags : (a.withFlags check dryRun).targets = a.targets := rfl

@[simp] theorem Arguments.plan_withFlags (settings : Section) :
    (a.withFlags check dryRun).plan settings = a.plan settings := rfl

/-- The plan does not depend on the flags. -/
@[simp] theorem Arguments.planIn_withFlags (w : Workspace) :
    (a.withFlags check dryRun).planIn w = a.planIn w := by
  simp only [Arguments.planIn, Arguments.targets_withFlags, Arguments.plan_withFlags]

end

/-- The files that a run collects. -/
def Arguments.collectIn (a : Arguments) (w : Workspace) : Except Walk.GlobFault Collected :=
  collectAll w (a.planIn w) (a.planIn w).walk a.targets

/-- A run that stops before it sweeps anything, and why. -/
inductive Stops (w : Workspace) (a : Arguments) (input : Bytes) : Prop
  | missing {target : String} (hmem : target ∈ a.targets) (hmissing : w.pathExists target = false)
  | rejected {fault : Rules.Fault} (hrules : (a.planIn w).rules.fault? = some fault)
  | unparsable {fault : Walk.GlobFault} (hglobs : (a.planIn w).walk.globs = .error fault)
  | unmatched {collected : Collected} (hcollect : a.collectIn w = .ok collected)
      (hnone : collected.files = []) (hjson : (a.planIn w).json = false)
  | unselected {collected : Collected} (hcollect : a.collectIn w = .ok collected)
      (hselect : a.select = true)
      (hnone : (Prompt.select collected.files input).picked = some [])
  | garbled {collected : Collected} (hcollect : a.collectIn w = .ok collected)
      (hselect : a.select = true) (hinput : (Prompt.select collected.files input).picked = none)

/-- What a run sweeps of the files that it has collected: all of them, or those that the user
picks. -/
inductive Chosen (a : Arguments) (json : Bool) (input : Bytes) (collected : List String) :
    List String → Prop
  | all (hselect : a.select = false) (hsome : collected = [] → json = true) :
      Chosen a json input collected collected
  | picked {files : List String} (hselect : a.select = true) (hsome : files ≠ [])
      (hpicked : (Prompt.select collected input).picked = some files) :
      Chosen a json input collected files

/-- A run that comes to sweep the given files. -/
structure Sweeps (w : Workspace) (a : Arguments) (input : Bytes) (files : List String) : Prop where
  job : a.job = .sweep
  present : ∀ target ∈ a.targets, w.pathExists target = true
  rules : (a.planIn w).rules.fault? = none
  chosen : ∃ collected, a.collectIn w = .ok collected ∧
    Chosen a (a.planIn w).json input collected.files files

/-- There is always a target: without one it is the current directory. -/
theorem Places.targets_ne_nil (p : Places) : p.targets ≠ [] := by
  unfold Places.targets
  split
  · exact List.cons_ne_nil _ _
  · split
    · exact List.cons_ne_nil _ _
    · next hpaths => simpa using hpaths

/-- Whatever the line says, there is a target. -/
theorem Arguments.targets_ne_nil (a : Arguments) : a.targets ≠ [] := by
  unfold Arguments.targets
  split <;> exact Places.targets_ne_nil _

/-- Only globs that cannot be read keep files from being collected. -/
theorem walkAll_eq_error {w : Workspace} {o : Walk.Options} {targets : List String}
    {fault : Walk.GlobFault} (h : walkAll w o targets = .error fault) : o.globs = .error fault := by
  induction targets with
  | nil => cases h
  | cons target targets ih =>
    unfold walkAll at h
    split at h
    · next hcollect =>
      cases h
      unfold Walk.collect at hcollect
      split at hcollect
      · next hglobs =>
        cases hcollect
        exact hglobs
      · split at hcollect
        · cases hcollect
        · split at hcollect
          · cases hcollect
          · split at hcollect <;> cases hcollect
    · split at h
      · next hrest =>
        cases h
        exact ih hrest
      · cases h

/-- Globs that cannot be read stop the collection at the first target. -/
theorem collectAll_of_globs {w : Workspace} {p : Plan} {o : Walk.Options} {targets : List String}
    {fault : Walk.GlobFault} (hne : targets ≠ []) (h : o.globs = .error fault) :
    collectAll w p o targets = .error fault := by
  obtain ⟨target, rest, rfl⟩ := List.exists_cons_of_ne_nil hne
  have hfirst : Walk.collect w o target = .error fault := by
    unfold Walk.collect
    rw [h]
  unfold collectAll walkAll
  rw [hfirst]
  rfl

/-- What is printed before comes in front, in order. -/
theorem Ran.after_after (r : Ran) (output diagnostics output' diagnostics' : String) :
    (r.after output diagnostics).after output' diagnostics' =
      r.after (output' ++ output) (diagnostics' ++ diagnostics) := by
  simp only [Ran.after, String.append_assoc]

section
variable (w : Workspace) (refusals : Refusals) {a : Arguments} (input : Bytes)
  (check dryRun : Bool)

/-- The stages of a run that is to sweep. -/
theorem run_stages (hjob : a.job = .sweep) : run w refusals (a.withFlags check dryRun) input =
    match a.targets.find? (!w.pathExists ·) with
    | some missing => refuse w s!"The file or directory '{missing}' does not exist."
    | none =>
      match (a.planIn w).rules.fault? with
      | some fault => refuse w fault.message
      | none =>
        (runCollected w refusals (a.withFlags check dryRun) (a.planIn w) input).after ""
          (if (a.planIn w).verbose then
            (a.planIn w).explain (Settings.find w (a.targets.head?.getD ".")).file else "") := by
  have hinit : ¬ (a.withFlags check dryRun).job = .init := by
    rw [Arguments.job_withFlags, hjob]
    exact Job.noConfusion
  unfold run
  rw [if_neg hinit]
  simp only [Arguments.targets_withFlags, Arguments.plan_withFlags, Arguments.job_withFlags, hjob]
  rfl

/-- A run collects, selects, and sweeps or lists; the flags only matter to the sweep. -/
theorem runCollected_stages :
    runCollected w refusals (a.withFlags check dryRun) (a.planIn w) input =
      Ran.after (match a.collectIn w with
      | .error fault => refuse w fault.message
      | .ok collected =>
        (runSelection w refusals (a.withFlags check dryRun) (a.planIn w) collected.files
          input).after "" collected.diagnostics)
      (if (a.planIn w).json || a.quiet then "" else exclusionLine (a.planIn w).walk.excluded) "" :=
  rfl

end

/-- Among the files that it has collected a run finds nothing to sweep, or comes to sweep some. -/
theorem runSelection_cases (w : Workspace) (refusals : Refusals) (a : Arguments) (p : Plan)
    (files : List String) (input : Bytes) :
    ((files = [] ∧ p.json = false ∨
        a.select = true ∧ ((Prompt.select files input).picked = some [] ∨
          (Prompt.select files input).picked = none)) ∧
      ∃ ran : Ran, ran.workspace = w ∧
        ∀ check dryRun, runSelection w refusals (a.withFlags check dryRun) p files input = ran) ∨
    ∃ chosen, Chosen a p.json input files chosen ∧ ∃ output, ∀ check dryRun,
      runSelection w refusals (a.withFlags check dryRun) p files input =
        (runSweep w refusals (a.withFlags check dryRun) p chosen).after output "" := by
  simp only [runSelection, Arguments.select_withFlags]
  by_cases hnone : (files.isEmpty && !p.json) = true
  · left
    have hempty := hnone
    rw [Bool.and_eq_true, List.isEmpty_iff, Bool.not_eq_true'] at hempty
    exact ⟨.inl hempty, { workspace := w, output := "No matching files found.\n" }, rfl,
      fun _ _ => if_pos hnone⟩
  · simp only [if_neg hnone]
    by_cases hselect : a.select = true
    case neg =>
      right
      have hselect : a.select = false := by simpa using hselect
      refine ⟨files, .all hselect fun hempty => ?_, "", fun check dryRun => ?_⟩
      · simpa [hempty] using hnone
      · simp [hselect, Ran.after]
    case pos =>
      simp only [hselect]
      cases hpicked : (Prompt.select files input).picked with
      | none =>
        exact .inl ⟨.inr ⟨trivial, .inr rfl⟩,
          Ran.after { workspace := w, failure := some Fault.notText.message }
            (Prompt.select files input).output "", rfl, fun _ _ => rfl⟩
      | some picked =>
        cases picked with
        | nil =>
          exact .inl ⟨.inr ⟨trivial, .inl rfl⟩,
            Ran.after { workspace := w, output := "No files selected.\n" }
              (Prompt.select files input).output "", rfl, fun _ _ => rfl⟩
        | cons file more =>
          exact .inr ⟨_, .picked hselect (List.cons_ne_nil _ _) hpicked,
            (Prompt.select files input).output, fun _ _ => rfl⟩

/-- What a run does before it sweeps does not depend on whether it is to check, to show or to
write. -/
theorem run_cases (w : Workspace) (refusals : Refusals) {a : Arguments} (input : Bytes)
    (hjob : a.job = .sweep) :
    (Stops w a input ∧ ∃ ran : Ran, ran.workspace = w ∧
      ∀ check dryRun, run w refusals (a.withFlags check dryRun) input = ran) ∨
    ∃ files, Sweeps w a input files ∧ ∃ output diagnostics, ∀ check dryRun,
      run w refusals (a.withFlags check dryRun) input =
        (runSweep w refusals (a.withFlags check dryRun) (a.planIn w) files).after output
          diagnostics := by
  simp only [run_stages w refusals input _ _ hjob]
  cases hfind : a.targets.find? (!w.pathExists ·) with
  | some target =>
    have hmissing : w.pathExists target = false := by simpa using List.find?_some hfind
    exact .inl ⟨.missing (List.mem_of_find?_eq_some hfind) hmissing, _, rfl, fun _ _ => rfl⟩
  | none =>
    have hpresent : ∀ target ∈ a.targets, w.pathExists target = true := by
      simpa using List.find?_eq_none.1 hfind
    cases hrules : (a.planIn w).rules.fault? with
    | some fault => exact .inl ⟨.rejected hrules, _, rfl, fun _ _ => rfl⟩
    | none =>
      simp only [runCollected_stages]
      cases hcollect : a.collectIn w with
      | error fault =>
        obtain ⟨_, hwalk⟩ : ∃ fault', walkAll w (a.planIn w).walk a.targets = .error fault' := by
          unfold Arguments.collectIn collectAll at hcollect
          cases hwalk : walkAll w (a.planIn w).walk a.targets with
          | error fault' => exact ⟨fault', rfl⟩
          | ok found =>
            rw [hwalk] at hcollect
            cases hcollect
        simp only [Ran.after_after]
        exact .inl ⟨.unparsable (walkAll_eq_error hwalk), (refuse w fault.message).after _ _, rfl,
          fun _ _ => rfl⟩
      | ok collected =>
        rcases runSelection_cases w refusals a (a.planIn w) collected.files input with
          ⟨hstop, ran, hran, hrun⟩ | ⟨files, hchosen, output, hrun⟩
        · simp only [hrun, Ran.after_after]
          refine .inl ⟨?_, ran.after _ _, hran, fun _ _ => rfl⟩
          rcases hstop with ⟨hempty, hjson⟩ | ⟨hselect, hnone | hinput⟩
          · exact .unmatched hcollect hempty hjson
          · exact .unselected hcollect hselect hnone
          · exact .garbled hcollect hselect hinput
        · simp only [hrun, Ran.after_after]
          exact .inr ⟨files, ⟨hjob, hpresent, hrules, collected, hcollect, hchosen⟩, _, _,
            fun _ _ => rfl⟩

/-! ## Where it gets -/

section
variable {w : Workspace} {a : Arguments} {input : Bytes} {files : List String}

/-- A run that comes to sweep files does not stop before. -/
theorem Sweeps.not_stops (h : Sweeps w a input files) : ¬ Stops w a input := by
  obtain ⟨collected, hcollected, hchosen⟩ := h.chosen
  intro hstops
  cases hstops with
  | missing hmem hmissing =>
    rw [h.present _ hmem] at hmissing
    cases hmissing
  | rejected hrules =>
    rw [h.rules] at hrules
    cases hrules
  | unparsable hglobs =>
    rw [Arguments.collectIn, collectAll_of_globs a.targets_ne_nil hglobs] at hcollected
    cases hcollected
  | unmatched hcollect hnone hjson =>
    cases hcollected.symm.trans hcollect
    cases hchosen with
    | all _ hsome =>
      rw [hsome hnone] at hjson
      cases hjson
    | picked _ hsome hpicked =>
      rw [hnone] at hpicked
      cases hpicked
      exact hsome rfl
  | unselected hcollect hselect hnone =>
    cases hcollected.symm.trans hcollect
    cases hchosen with
    | all hall =>
      rw [hall] at hselect
      cases hselect
    | picked _ hsome hpicked =>
      cases hnone.symm.trans hpicked
      exact hsome rfl
  | garbled hcollect hselect hinput =>
    cases hcollected.symm.trans hcollect
    cases hchosen with
    | all hall =>
      rw [hall] at hselect
      cases hselect
    | picked _ _ hpicked => cases hinput.symm.trans hpicked

/-- The files that a run comes to sweep are determined. -/
theorem Sweeps.unique {files' : List String} (h : Sweeps w a input files)
    (h' : Sweeps w a input files') : files = files' := by
  obtain ⟨collected, hcollected, hchosen⟩ := h.chosen
  obtain ⟨collected', hcollected', hchosen'⟩ := h'.chosen
  cases hcollected.symm.trans hcollected'
  cases hchosen with
  | all hall =>
    cases hchosen' with
    | all => rfl
    | picked hselect =>
      rw [hall] at hselect
      cases hselect
  | picked hselect _ hpicked =>
    cases hchosen' with
    | all hall =>
      rw [hall] at hselect
      cases hselect
    | picked _ _ hpicked' => exact Option.some.inj (hpicked.symm.trans hpicked')

end

end LogSweep.CommandLine
