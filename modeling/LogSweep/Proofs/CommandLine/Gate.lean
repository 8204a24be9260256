import LogSweep.Proofs.Command.Effect
import LogSweep.Proofs.CommandLine.Flags
import LogSweep.Proofs.CommandLine.Stages

/-!
# The check as a gate

Runs with and without the flag to check come to the same files by the same rules, and from there on
the dry run foretells the sweep. Where it shows no change and no failure, the sweep writes nothing
and fails nowhere (`Sweeps.exits_zero`); where it shows a change, the sweep gives a file another
text, or says that it could not write it (`Sweeps.exits_one`). So the exit code of a check says what
the sweep would do (`check_gate`).
-/

namespace LogSweep.CommandLine

open Files Command

/-! ## What a run comes to -/

/-- The options of the sweep that a run makes. -/
def Arguments.sweepOptions (a : Arguments) (w : Workspace) : SweepOptions where
  isDryRun := a.dryRun || a.check
  json := (a.planIn w).json
  quiet := a.quiet
  verbose := (a.planIn w).verbose
  root := confinement w a.places.root a.targets

/-- The sweep that a run makes of some files. -/
def Arguments.sweepFiles (a : Arguments) (w : Workspace) (refusals : Refusals)
    (files : List String) : Swept :=
  sweep w (a.planIn w).rules (a.sweepOptions w) (files.map (turnOf refusals))

/-- A run comes to its end with an exit code. -/
def Ran.Exits (r : Ran) (code : Nat) : Prop :=
  r.failure = none ∧ r.code = code

section
variable {w : Workspace} {refusals : Refusals} {a : Arguments} {input : Bytes}
  {files : List String}

/-- The flags decide whether a sweep is a dry run, and nothing else about it. -/
theorem Arguments.sweepFiles_withFlags (check dryRun : Bool) :
    (a.withFlags check dryRun).sweepFiles w refusals files =
      sweep w (a.planIn w).rules { a.sweepOptions w with isDryRun := dryRun || check }
        (files.map (turnOf refusals)) := by
  simp only [Arguments.sweepFiles, Arguments.sweepOptions, Arguments.planIn_withFlags]
  rfl

/-- A run that comes to sweep files leaves what the sweep leaves. Its exit code tells of failures
and, if it is to check, of changes. -/
theorem Sweeps.run_eq (h : Sweeps w a input files) (check dryRun : Bool) :
    (run w refusals (a.withFlags check dryRun) input).workspace =
        ((a.withFlags check dryRun).sweepFiles w refusals files).workspace ∧
      ∀ code, (run w refusals (a.withFlags check dryRun) input).Exits code ↔
        (if ((a.withFlags check dryRun).sweepFiles w refusals files).report.hasFailures ||
          check && ((a.withFlags check dryRun).sweepFiles w refusals files).report.hasChanges then 1
        else 0) = code := by
  rcases run_cases w refusals input h.job with ⟨hstops, -⟩ | ⟨files', h', output, diagnostics, hrun⟩
  · exact absurd hstops h.not_stops
  · cases h.unique h'
    rw [hrun, Arguments.sweepFiles_withFlags]
    exact ⟨rfl, fun code => ⟨And.right, fun hcode => ⟨rfl, hcode⟩⟩⟩

/-- Listing files writes nothing. -/
theorem workspace_run_of_listing (hinit : a.job ≠ .init) (hsweep : a.job ≠ .sweep) :
    (run w refusals a input).workspace = w := by
  unfold run
  rw [if_neg hinit]
  split
  · rfl
  · dsimp only
    split
    · rfl
    · split
      · show (runFiles _ _ _ _ _).workspace = w
        unfold runFiles
        dsimp only
        split <;> rfl
      · next hfiles =>
        cases hjob : a.job with
        | sweep => exact absurd hjob hsweep
        | init => exact absurd hjob hinit
        | files places json excluded => exact absurd hjob (hfiles places json excluded)

/-- Showing and checking write nothing, and neither does a run that stops early. -/
theorem workspace_run_eq (hinit : a.job ≠ .init)
    (h : a.check = true ∨ a.dryRun = true ∨ a.job ≠ .sweep ∨ Stops w a input) :
    (run w refusals a input).workspace = w := by
  by_cases hjob : a.job = .sweep
  · rcases run_cases w refusals input hjob with ⟨-, ran, hran, hrun⟩ | ⟨files, hsweeps, -⟩
    · have hsame : run w refusals a input = ran := hrun a.check a.dryRun
      rw [hsame, hran]
    · have hdry : (a.dryRun || a.check) = true := by
        rcases h with hcheck | hdry | hne | hstops
        · rw [hcheck, Bool.or_true]
        · rw [hdry, Bool.true_or]
        · exact absurd hjob hne
        · exact absurd hstops hsweeps.not_stops
      have hworkspace : (run w refusals a input).workspace =
          (a.sweepFiles w refusals files).workspace :=
        (hsweeps.run_eq a.check a.dryRun).1
      rw [hworkspace]
      exact workspace_sweep_of_dry hdry _
  · exact workspace_run_of_listing hinit hjob

/-- Where the check passes, the sweep writes nothing and passes. -/
theorem Sweeps.exits_zero (h : Sweeps w a input files) {dryRun : Bool}
    (hpass : (run w refusals (a.withFlags true dryRun) input).Exits 0) :
    (run w refusals (a.withFlags false false) input).workspace = w ∧
      (run w refusals (a.withFlags false false) input).Exits 0 := by
  obtain ⟨-, hcheck⟩ := h.run_eq true dryRun
  obtain ⟨hworkspace, hsweep⟩ := h.run_eq false false
  have hpass := (hcheck 0).1 hpass
  rw [Arguments.sweepFiles_withFlags, Bool.or_true, Bool.true_and, ite_eq_right_iff] at hpass
  rw [hworkspace, hsweep]
  simp only [Arguments.sweepFiles_withFlags, Bool.or_false, Bool.false_and]
  simp only [Nat.one_ne_zero, imp_false, Bool.not_eq_true, Bool.or_eq_false_iff] at hpass
  obtain ⟨hsame, hfailures⟩ := sweep_of_no_changes (a.sweepOptions w) hpass.2
  rw [hfailures, hpass.1]
  exact ⟨hsame, rfl⟩

/-- Where the check rejects nothing but changes, the sweep gives some file another text, or reports
that it could not write one. -/
theorem Sweeps.exits_one (h : Sweeps w a input files) (hw : w.tree.WellFormed) {dryRun : Bool}
    (hnone : ∀ e ∈ ((a.withFlags true dryRun).sweepFiles w refusals files).report.files,
      e.state ≠ .failed)
    (hreject : (run w refusals (a.withFlags true dryRun) input).Exits 1) :
    Rewrites w.tree (run w refusals (a.withFlags false false) input).workspace.tree ∨
      (∃ i turn text fault, Refused w (a.planIn w).rules
        { a.sweepOptions w with isDryRun := false } (files.map (turnOf refusals)) i turn text
        fault) ∧
        (run w refusals (a.withFlags false false) input).Exits 1 := by
  obtain ⟨-, hcheck⟩ := h.run_eq true dryRun
  obtain ⟨hworkspace, hsweep⟩ := h.run_eq false false
  have hreject := (hcheck 1).1 hreject
  rw [hworkspace, hsweep]
  rw [Arguments.sweepFiles_withFlags, Bool.or_true] at hnone hreject
  simp only [Arguments.sweepFiles_withFlags, Bool.or_false, Bool.false_and]
  have hfailures : (sweep w (a.planIn w).rules { a.sweepOptions w with isDryRun := true }
      (files.map (turnOf refusals))).report.hasFailures = false := by
    rw [Bool.eq_false_iff, Ne, hasFailures_sweep_iff]
    rintro ⟨e, he, hfailed⟩
    exact hnone e he hfailed
  have hchanges : (sweep w (a.planIn w).rules { a.sweepOptions w with isDryRun := true }
      (files.map (turnOf refusals))).report.hasChanges = true := by
    rw [hfailures] at hreject
    simpa using hreject
  rcases sweep_of_changes hw h.rules hchanges with hrewrites | ⟨hrefused, hfailed⟩
  · exact .inl hrewrites
  · exact .inr ⟨hrefused, by rw [hfailed]; rfl⟩

end

/-! ## The gate -/

/-- The flag to check makes a sweep a gate. A run with it writes nothing, nor does one that shows or
lists or stops early. When it passes, the run without it writes nothing and passes; when changes are
all that it rejects, the run without it gives some file another text, or reports that it could not
write one. So it is whatever files the system refuses to read or to write. -/
theorem check_gate (w : Workspace) (hw : w.tree.WellFormed) (refusals : Refusals) (input : Bytes)
    (line : List String) (a : Arguments) (hread : read line = .ok a) (hinit : a.job ≠ .init) :
    (a.check = true ∨ a.dryRun = true ∨ a.job ≠ .sweep ∨ Stops w a input →
      (run w refusals a input).workspace = w) ∧
    (a.job = .sweep → a.check = false → a.dryRun = false →
      read ("--check" :: line) = .ok (a.withFlags true false) ∧
      ∀ dryRun,
        ((run w refusals (a.withFlags true dryRun) input).Exits 0 →
          (run w refusals a input).workspace = w ∧ (run w refusals a input).Exits 0) ∧
        ∀ files, Sweeps w a input files →
          (∀ e ∈ ((a.withFlags true dryRun).sweepFiles w refusals files).report.files,
            e.state ≠ .failed) →
          (run w refusals (a.withFlags true dryRun) input).Exits 1 →
            Rewrites w.tree (run w refusals a input).workspace.tree ∨
            (∃ i turn text fault, Refused w (a.planIn w).rules (a.sweepOptions w)
              (files.map (turnOf refusals)) i turn text fault) ∧
              (run w refusals a input).Exits 1) := by
  refine ⟨workspace_run_eq hinit, fun hjob hcheck hdry => ⟨?_, fun dryRun => ⟨?_, ?_⟩⟩⟩
  · rw [read_check_cons hread hcheck, ← hdry]
    rfl
  · intro hpass
    rw [← a.withFlags_eq hcheck hdry]
    rcases run_cases w refusals input hjob with ⟨-, ran, hran, hrun⟩ | ⟨files, hsweeps, -⟩
    · rw [hrun] at hpass ⊢
      exact ⟨hran, hpass⟩
    · exact hsweeps.exits_zero hpass
  · intro files hsweeps hnone hreject
    have hcases := hsweeps.exits_one hw hnone hreject
    have hoptions : { a.sweepOptions w with isDryRun := false } = a.sweepOptions w := by
      simp only [Arguments.sweepOptions, hcheck, hdry, Bool.or_false]
    rw [a.withFlags_eq hcheck hdry, hoptions] at hcases
    exact hcases

/-! ## A check that rejects a change -/

/-- The arguments that name the link, and nothing else. -/
def linkLine : Arguments := { places := { paths := ["b.js"] } }

/-- A name that the workspace does not have cannot be read. -/
theorem readText_linked {name : String} (h : Tree.openFault? name = none ∧
    Path.pieces name = [name] ∧ Path.isAbsolute name = false ∧
    (name == "" || name == ".") = false ∧ (name == "..") = false ∧
    ¬ Tree.nameLimit < name.utf8ByteSize ∧ linked.tree.entry? [name] = none) :
    linked.readText name = .error .notFound := by
  obtain ⟨hopen, hpieces, hrelative, hidle, hup, hshort, hnone⟩ := h
  have hleads : linked.tree.Leads false Tree.linkLimit [] [name] ⟨[name], none⟩ :=
    .missing rfl ⟨hidle, hup, rfl, hshort⟩ hnone
  have htarget : linked.tree.target false linked.cwd name = .ok ⟨[name], none⟩ := by
    rw [Tree.target, hpieces, hrelative]
    exact hleads.follow_eq
  have htext : Tree.textFault? name = none := (Option.or_eq_none_iff.1 hopen).1
  simp only [Workspace.readText, Tree.readText, Tree.read, Tree.find, Tree.resolve, hopen, htext,
    htarget]

/-- There are no settings beside the link. -/
theorem settings_linked : Settings.find linked "b.js" = {} := by
  have hfile : linked.isFile "b.js" = true := by
    rw [Workspace.isFile, Tree.isFile, ← Workspace.find, find_linked]
  have hparent : Path.parent? "b.js" = some "" := by decide +kernel
  have hresolve : linked.resolve "" = .error .notFound := by decide +kernel
  have hstart : Settings.start linked "b.js" = "" := by
    unfold Settings.start
    rw [hfile, hparent]
    simp only [if_true, Option.getD_some, hresolve]
  have hconfig : linked.readText (Path.join "" Settings.configName) = .error .notFound :=
    readText_linked (by decide +kernel)
  have hmanifest : linked.readText (Path.join "" Settings.manifestName) = .error .notFound :=
    readText_linked (by decide +kernel)
  have hhere : Settings.here? linked "" = none := by
    unfold Settings.here? Settings.readConfig? Settings.readManifest?
    simp only [hconfig, hmanifest, Option.map_none]
  have hupward : Settings.upward ("".length + 2) "" = [""] := by decide +kernel
  unfold Settings.find
  simp only [hstart, hupward, List.findSome?_cons, hhere, List.findSome?_nil, Option.getD_none]

/-- The target is the link itself. -/
theorem collect_linked :
    Walk.collect linked (linkLine.plan {}).walk "b.js" = .ok { paths := ["b.js"] } := by
  have hglobs : (linkLine.plan {}).walk.globs = .ok [] := rfl
  have hinput : Walk.isStandardInput "b.js" = false := by decide +kernel
  have hopen : Tree.openFault? "b.js" = none := by decide +kernel
  have hpieces : (Path.pieces "b.js").reverse = ["b.js"] := by decide +kernel
  have hname : ((Path.innerPart? "b.js").isNone || "b.js" == "..") = false := by decide +kernel
  have hitself : linked.tree.findItself linked.cwd "b.js" = .ok (["b.js"], .link "a.js") := by
    rw [Tree.findItself, hopen, hpieces]
    simp only [hname]
    rw [List.reverse_nil, Tree.follow]
    decide +kernel
  have hkept : ["b.js"].filter (Path.hasExtension (linkLine.plan {}).walk.extensions) =
      ["b.js"] := by
    decide +kernel
  unfold Walk.collect
  simp only [hglobs, hinput, hitself, find_linked, hkept]
  rfl

/-- Without settings the plan is that of the command line. -/
theorem planIn_linked : linkLine.planIn linked = linkLine.plan {} := by
  have htargets : linkLine.targets = ["b.js"] := rfl
  rw [Arguments.planIn, htargets, List.head?_cons, Option.getD_some, settings_linked]

/-- The run comes to the sweep of the link. -/
theorem sweeps_linked : Sweeps linked linkLine [] ["b.js"] := by
  have htargets : linkLine.targets = ["b.js"] := rfl
  have hsorted : Path.dropRepeated (Path.sort ["b.js"]) = ["b.js"] := by decide +kernel
  refine ⟨rfl, ?_, by rw [planIn_linked]; decide +kernel, ⟨["b.js"], ""⟩, ?_, .all rfl (by simp)⟩
  · intro target htarget
    obtain rfl : target = "b.js" := List.mem_singleton.1 htarget
    rw [Workspace.pathExists, Tree.exists?, ← Workspace.find, find_linked]
  · rw [Arguments.collectIn, planIn_linked, htargets]
    simp only [collectAll, walkAll, collect_linked, Except.map, List.flatMap_cons,
      List.flatMap_nil, List.append_nil, hsorted]
    rfl

/-- Files may be read, but not written. -/
def readOnly : Refusals where
  write := fun _ => some denied

/-- A dry run shows the call in the file behind the link. -/
theorem entriesFrom_linked (o : SweepOptions) (hdry : o.isDryRun = true) :
    entriesFrom linked (linkLine.planIn linked).rules o linked [turnOf readOnly "b.js"] =
      [changedEntry "b.js" (sweepText (linkLine.planIn linked).rules (.ofPath "b.js")
        (.ofString "console.log(1);\n"))] := by
  have hmodified : (sweepText (linkLine.planIn linked).rules (.ofPath "b.js")
      (.ofString "console.log(1);\n")).isModified = true := by
    rw [planIn_linked]
    decide +kernel
  have hswept : examine linked (linkLine.planIn linked).rules (turnOf readOnly "b.js") = _ :=
    examine_eq_swept_iff.2 ⟨rfl, rfl, _, _, find_linked, by decide +kernel, rfl⟩
  have hpath : (turnOf readOnly "b.js").path = "b.js" := rfl
  simp only [entriesFrom, hswept, finished, finish, hpath, hmodified, hdry]
  rfl

/-- The file that cannot be written stays as it is. -/
theorem not_rewrites_linked :
    ¬ Rewrites linked.tree (run linked readOnly linkLine []).workspace.tree := by
  have hrun : (run linked readOnly linkLine []).workspace = _ :=
    (sweeps_linked.run_eq false false).1.trans (sweep_eq ..).1
  rintro ⟨location, old, new, hold, hnew, hne⟩
  rw [hrun] at hnew
  rcases (framed_after (w := linked) (by decide)).held location with
    ⟨turn, text, hwrote, -⟩ | ⟨-, hsame⟩
  · obtain ⟨entry, hmem, -⟩ := hwrote.changed
    obtain rfl : turn = turnOf readOnly "b.js" := List.mem_singleton.1 (List.of_mem_zip hmem).1
    cases (hwrote.writable hwrote.wet).granted
  · exact hne (Entry.file.inj (Option.some.inj (hnew.symm.trans (hsame.trans hold))))

/-- Where nothing may be written, the check rejects the call in the file behind the link, and leaves
it there; the sweep can only report that it could not write the file. -/
theorem check_gate_linked : linked.tree.WellFormed ∧ read ["b.js"] = .ok linkLine ∧
    (run linked readOnly (linkLine.withFlags true false) []).workspace = linked ∧
    (run linked readOnly (linkLine.withFlags true false) []).Exits 1 ∧
    (∃ i turn text fault, Refused linked (linkLine.planIn linked).rules
      (linkLine.sweepOptions linked) [turnOf readOnly "b.js"] i turn text fault) ∧
    (run linked readOnly linkLine []).Exits 1 := by
  have hw : linked.tree.WellFormed := by decide
  have hread : read ["b.js"] = .ok linkLine := by decide +kernel
  obtain ⟨-, hgate⟩ := check_gate linked hw readOnly [] ["b.js"] linkLine hread (by decide)
  obtain ⟨hchecked, hruns⟩ := hgate rfl rfl rfl
  obtain ⟨hsame, -⟩ := check_gate linked hw readOnly [] _ _ hchecked (by decide)
  have hdry : ((linkLine.withFlags true false).sweepFiles linked readOnly ["b.js"]).report =
      .ofFiles (linkLine.planIn linked).rules true [changedEntry "b.js" (sweepText
        (linkLine.planIn linked).rules (.ofPath "b.js") (.ofString "console.log(1);\n"))] := by
    rw [Arguments.sweepFiles_withFlags, (sweep_eq ..).2, List.map_singleton,
      entriesFrom_linked _ rfl]
    rfl
  have hchanges : ((linkLine.withFlags true false).sweepFiles linked readOnly
      ["b.js"]).report.hasChanges = true := by
    rw [hdry]
    exact Report.hasChanges_ofFiles_iff.2 ⟨_, List.mem_singleton_self _, rfl⟩
  have hreject : (run linked readOnly (linkLine.withFlags true false) []).Exits 1 := by
    rw [(sweeps_linked.run_eq true false).2, hchanges, Bool.true_and, Bool.or_true]
    rfl
  have hnone : ∀ e ∈ ((linkLine.withFlags true false).sweepFiles linked readOnly
      ["b.js"]).report.files, e.state ≠ .failed := by
    intro e he
    rw [hdry] at he
    cases List.mem_singleton.1 (List.mem_filter.1 he).1
    decide
  exact ⟨hw, hread, hsame (.inl rfl), hreject,
    ((hruns false).2 _ sweeps_linked hnone hreject).resolve_left not_rewrites_linked⟩

end LogSweep.CommandLine
