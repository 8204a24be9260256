import LogSweep.CommandLine.Run
import LogSweep.Proofs.Command.Rewritten
import LogSweep.Proofs.Files.Spelling
import LogSweep.Proofs.Walk.Below

/-!
# The files of several targets

The files of all targets are merged in the order of paths, and of paths with the same parts one is
kept. That goes by the spelling alone: every file is listed once exactly when targets that list the
same file are spelled alike, an inner one as an outer one with the names between behind it
(`SpelledAlike`). Targets that go on from a common beginning by names are (`spelledAlike_of_base`).
Under two spellings a file is swept twice, and the sweep reports more changed files than there are
(`collectAll_merges`, `collectAll_twice`).
-/

namespace LogSweep.CommandLine

open Files

/-- A target lists a path. -/
def Lists (w : Workspace) (o : Walk.Options) (target path : String) : Prop :=
  ∃ found, Walk.collect w o target = .ok found ∧ path ∈ found.paths

/-- The walks find what some target lists. -/
theorem mem_walkAll_iff {w : Workspace} {o : Walk.Options} {targets : List String}
    {found : List Walk.Found} (h : walkAll w o targets = .ok found) {path : String} :
    path ∈ found.flatMap (·.paths) ↔ ∃ target ∈ targets, Lists w o target path := by
  induction targets generalizing found with
  | nil =>
    cases h
    simp
  | cons target targets ih =>
    unfold walkAll at h
    split at h
    · cases h
    · next first hfirst =>
      split at h
      · cases h
      · next others hothers =>
        cases h
        have hlists : Lists w o target path ↔ path ∈ first.paths := by
          simp [Lists, hfirst]
        rw [List.flatMap_cons, List.mem_append, ih hothers, List.exists_mem_cons_iff, hlists]

/-! ## What one target lists -/

/-- A path that is found leads somewhere. -/
theorem leadsTo_of_find {w : Workspace} {path : String} {location : Location} {e : Entry}
    (h : w.find path = .ok (location, e)) : w.LeadsTo path location :=
  ⟨e, (Tree.resolve_eq_ok_iff.1 (Tree.find_eq_ok_iff.1 h).2).2⟩

section
variable {w : Workspace} (hw : w.tree.WellFormed) {o : Walk.Options} {target path : String}
include hw

/-- What a target lists is the target, or an entry below it by its names. -/
theorem Lists.exists_names (h : Lists w o target path) :
    ∃ location e, w.find target = .ok (location, e) ∧ ∃ names : List String,
      path = names.foldl Path.join target ∧ (∀ name ∈ names, Tree.isEntryName name = true) ∧
        (names ≠ [] → e = .directory) := by
  obtain ⟨found, hcollect, hpath⟩ := h
  unfold Walk.collect at hcollect
  split at hcollect
  · cases hcollect
  · split at hcollect
    · cases hcollect
      cases hpath
    · split at hcollect
      · cases hcollect
        cases hpath
      · split at hcollect
        · cases hcollect
          cases hpath
        · next location hfind =>
          cases hcollect
          refine ⟨location, .directory, hfind, ?_⟩
          rw [Walk.walkBelow, Path.sort, List.mem_mergeSort, List.mem_filter,
            List.mem_append] at hpath
          rcases hpath.1 with hroot | hbelow
          · refine ⟨[], ?_, by simp, by simp⟩
            split at hroot
            · exact List.mem_singleton.1 hroot
            · cases hroot
          · obtain ⟨names, rfl, hreaches⟩ := Walk.mem_descend_depth_iff.1 hbelow
            exact ⟨names, rfl, hreaches.isEntryName hw, fun _ => rfl⟩
        · next leaf _ hfind =>
          cases hcollect
          obtain ⟨location, e⟩ := leaf
          have hsame := List.mem_singleton.1 (List.mem_filter.1 hpath).1
          exact ⟨location, e, hfind, [], hsame, by simp, by simp⟩

variable (hlink : w.tree.Linkless)
include hlink

/-- A listed path leads from where its target leads along the names behind the target. -/
theorem Lists.split (h : Lists w o target path) {location : Location}
    (hleads : w.LeadsTo path location) : ∃ top names, w.LeadsTo target top ∧
      location = top ++ names ∧ Path.parts path = Path.parts target ++ names.map .name := by
  obtain ⟨top, e, hfind, names, rfl, hnames, -⟩ := h.exists_names hw
  have htop := leadsTo_of_find hfind
  have hne := Tree.ne_empty_of_find hfind
  refine ⟨top, names, htop, ?_, parts_foldl_join hne hnames⟩
  rw [hleads.eq_place hlink, place_foldl_join w.cwd hne hnames, ← htop.eq_place hlink]

/-- A listed path leads to where a path with the same parts leads. -/
theorem Lists.leadsTo (h : Lists w o target path) {other : String} {location : Location}
    (hother : w.LeadsTo other location) (hparts : Path.parts path = Path.parts other) :
    w.LeadsTo path location := by
  obtain ⟨top, e, hfind, names, rfl, hnames, -⟩ := h.exists_names hw
  by_cases hnil : names = []
  · subst hnil
    have htop := leadsTo_of_find hfind
    have hplace : place w.cwd target = place w.cwd other := congrArg (List.foldl step w.cwd) hparts
    rw [hother.eq_place hlink, ← hplace, ← htop.eq_place hlink]
    exact htop
  · obtain ⟨front, hpieces, -⟩ := pieces_foldl_join (Tree.ne_empty_of_find hfind) hnames hnil
    refine hother.respelled hlink hparts fun piece hpiece => ?_
    have hmem : piece ∈ names := by
      rw [hpieces, List.getLast?_append_of_ne_nil _ hnil] at hpiece
      exact List.mem_of_getLast? hpiece
    rw [innerPart?_of_isEntryName (hnames piece hmem)]
    exact Option.some_ne_none _

end

/-! ## Merging -/

/-- No two of the paths lead to one entry. -/
def Once (w : Workspace) (paths : List String) : Prop :=
  ∀ a ∈ paths, ∀ b ∈ paths, ∀ location, w.LeadsTo a location → w.LeadsTo b location → a = b

/-- A target lists a path that leads to a location. -/
def Reaches (w : Workspace) (o : Walk.Options) (target : String) (location : Location) : Prop :=
  ∃ path, Lists w o target path ∧ w.LeadsTo path location

/-- Of two targets that reach one entry, an inner one has the parts of an outer one and then the
names between them. -/
def SpelledAlike (w : Workspace) (o : Walk.Options) (targets : List String) : Prop :=
  ∀ a ∈ targets, ∀ b ∈ targets, ∀ location, Reaches w o a location → Reaches w o b location →
    ∀ top names, w.LeadsTo a top → w.LeadsTo b (top ++ names) →
      Path.parts b = Path.parts a ++ names.map .name

section
variable {w : Workspace} (hlink : w.tree.Linkless) {o : Walk.Options} {targets : List String}
include hlink

/-- Targets that go on from a common beginning by names are spelled alike. -/
theorem spelledAlike_of_base {base : List Path.Part} (h : ∀ target ∈ targets,
    ∃ names : List String, Path.parts target = base ++ names.map .name) :
    SpelledAlike w o targets := by
  intro a ha b hb _ _ _ top between htop hinner
  obtain ⟨names, hnames⟩ := h a ha
  obtain ⟨names', hnames'⟩ := h b hb
  have hplace := htop.eq_place hlink
  have hplace' := hinner.eq_place hlink
  rw [place, hnames, List.foldl_append, foldl_step_names] at hplace
  rw [place, hnames', List.foldl_append, foldl_step_names, hplace, List.append_assoc] at hplace'
  rw [hnames, hnames', ← List.append_cancel_left hplace', List.map_append, List.append_assoc]

end

section
variable {w : Workspace} (hw : w.tree.WellFormed) (hlink : w.tree.Linkless) {p : Plan}
  {o : Walk.Options} {targets : List String} {collected : Collected}
  (h : collectAll w p o targets = .ok collected)

/-- The collected files are those of all walks, sorted and without repeated paths. -/
theorem collectAll_eq_ok (h : collectAll w p o targets = .ok collected) :
    ∃ found, walkAll w o targets = .ok found ∧
      collected.files = Path.dropRepeated (Path.sort (found.flatMap (·.paths))) := by
  unfold collectAll at h
  cases hfound : walkAll w o targets with
  | error fault =>
    rw [hfound] at h
    cases h
  | ok found =>
    rw [hfound] at h
    cases h
    exact ⟨found, rfl, rfl⟩

include h

/-- They are strictly increasing. -/
theorem pairwise_before_collectAll : collected.files.Pairwise Path.Before := by
  obtain ⟨found, -, hfiles⟩ := collectAll_eq_ok h
  rw [hfiles]
  exact Path.pairwise_before_dropRepeated (Path.pairwise_le_sort _)

/-- No two of them have the same parts. -/
theorem eq_of_parts_eq {a b : String} (ha : a ∈ collected.files) (hb : b ∈ collected.files)
    (hparts : Path.parts a = Path.parts b) : a = b := by
  have hnodup : (collected.files.map Path.parts).Nodup :=
    List.pairwise_map.2 ((pairwise_before_collectAll h).imp Path.Before.ne)
  exact List.inj_on_of_nodup_map hnodup ha hb hparts

/-- Each of them is listed by a target. -/
theorem exists_lists {path : String} (hpath : path ∈ collected.files) :
    ∃ target ∈ targets, Lists w o target path := by
  obtain ⟨found, hfound, hfiles⟩ := collectAll_eq_ok h
  rw [hfiles] at hpath
  exact (mem_walkAll_iff hfound).1 (List.mem_mergeSort.1 (Sorted.mem_of_mem_dropRepeated hpath))

/-- What a target lists is among them, in some spelling with the same parts. -/
theorem exists_kept {target path : String} (htarget : target ∈ targets)
    (hpath : Lists w o target path) :
    ∃ kept ∈ collected.files, Path.parts kept = Path.parts path := by
  obtain ⟨found, hfound, hfiles⟩ := collectAll_eq_ok h
  rw [hfiles]
  exact Path.exists_mem_dropRepeated
    (List.mem_mergeSort.2 ((mem_walkAll_iff hfound).2 ⟨target, htarget, hpath⟩))

include hw hlink

/-- Where targets are spelled alike, no file is collected twice. -/
theorem once_of_spelledAlike (hspelled : SpelledAlike w o targets) : Once w collected.files := by
  intro a ha b hb location hleads hleads'
  refine eq_of_parts_eq h ha hb ?_
  obtain ⟨target, htarget, hlists⟩ := exists_lists h ha
  obtain ⟨target', htarget', hlists'⟩ := exists_lists h hb
  have hreaches : Reaches w o target location := ⟨a, hlists, hleads⟩
  have hreaches' : Reaches w o target' location := ⟨b, hlists', hleads'⟩
  obtain ⟨top, names, htop, hlocation, hparts⟩ := hlists.split hw hlink hleads
  obtain ⟨top', names', htop', hlocation', hparts'⟩ := hlists'.split hw hlink hleads'
  rw [hparts, hparts']
  -- one of the two targets stands above the other, or where it stands
  rcases List.append_eq_append_iff.1 (hlocation.symm.trans hlocation') with
    ⟨between, rfl, rfl⟩ | ⟨between, rfl, rfl⟩
  · have hinner := hspelled target htarget target' htarget' location hreaches hreaches'
    rw [hinner top between htop htop', List.map_append, List.append_assoc]
  · have hinner := hspelled target' htarget' target htarget location hreaches' hreaches
    rw [hinner top' between htop' htop, List.map_append, List.append_assoc]

/-- Where no file is collected twice, the targets that meet are spelled alike. -/
theorem spelledAlike_of_once (honce : Once w collected.files) : SpelledAlike w o targets := by
  rintro a ha b hb location ⟨path, hlists, hleads⟩ ⟨path', hlists', hleads'⟩
  intro outer names houter hinner
  obtain ⟨kept, hkept, hkeeps⟩ := exists_kept h ha hlists
  obtain ⟨kept', hkept', hkeeps'⟩ := exists_kept h hb hlists'
  obtain ⟨_, -, hfrom⟩ := exists_lists h hkept
  obtain ⟨_, -, hfrom'⟩ := exists_lists h hkept'
  have hsame : kept = kept' := honce kept hkept kept' hkept' location
    (hfrom.leadsTo hw hlink hleads hkeeps) (hfrom'.leadsTo hw hlink hleads' hkeeps')
  obtain ⟨top, rest, htop, hlocation, hparts⟩ := hlists.split hw hlink hleads
  obtain ⟨top', rest', htop', hlocation', hparts'⟩ := hlists'.split hw hlink hleads'
  obtain rfl : top = outer := (htop.eq_place hlink).trans (houter.eq_place hlink).symm
  obtain rfl : top' = top ++ names := (htop'.eq_place hlink).trans (hinner.eq_place hlink).symm
  rw [hlocation, List.append_assoc] at hlocation'
  rw [hsame, hkeeps', hparts, hparts', List.append_cancel_left hlocation', List.map_append,
    ← List.append_assoc] at hkeeps
  exact List.append_cancel_right hkeeps

end

/-- The files of several targets go strictly upward and are what the targets list, of paths with the
same parts one. In a tree without links no two of them lead to one file exactly when the targets are
spelled alike, as targets are that go on from a common beginning by names. A sweep of some of them
changes at most as many files as it reports as changed, and as many exactly when it changes none by
way of two paths, whatever is cancelled or refused in it. -/
theorem collectAll_merges (w : Workspace) (hw : w.tree.WellFormed) (hkeyed : w.tree.Keyed)
    (hlink : w.tree.Linkless) (p : Plan) (o : Walk.Options) (targets : List String)
    (collected : Collected) (h : collectAll w p o targets = .ok collected) :
    collected.files.Pairwise Path.Before ∧
    (∀ parts, (∃ path ∈ collected.files, Path.parts path = parts) ↔
      ∃ target ∈ targets, ∃ path, Lists w o target path ∧ Path.parts path = parts) ∧
    (Once w collected.files ↔ SpelledAlike w o targets) ∧
    (∀ base : List Path.Part, (∀ target ∈ targets, ∃ names : List String,
      Path.parts target = base ++ names.map .name) → SpelledAlike w o targets) ∧
    ∀ (rules : Rules) (options : Command.SweepOptions) (turns : List Command.Turn),
      rules.fault? = none → options.isDryRun = false →
      (turns.map (·.path)).Sublist collected.files →
      let swept := Command.sweep w rules options turns
      (Command.rewritten w.tree swept.workspace.tree).length ≤ swept.report.summary.changed ∧
        ((Command.rewritten w.tree swept.workspace.tree).length = swept.report.summary.changed ↔
          ∀ a ∈ turns, ∀ b ∈ turns, ∀ location old,
            Command.Changes w rules options a location old →
            Command.Changes w rules options b location old → a = b) := by
  have hbefore := pairwise_before_collectAll h
  refine ⟨hbefore, fun parts => ⟨?_, ?_⟩,
    ⟨spelledAlike_of_once hw hlink h, once_of_spelledAlike hw hlink h⟩,
    fun base => spelledAlike_of_base hlink, fun rules options turns hrules hwet hturns => ?_⟩
  · rintro ⟨path, hpath, hparts⟩
    obtain ⟨target, htarget, hlists⟩ := exists_lists h hpath
    exact ⟨target, htarget, path, hlists, hparts⟩
  · rintro ⟨target, htarget, path, hlists, rfl⟩
    exact exists_kept h htarget hlists
  · have hnodup : (turns.map (·.path)).Nodup := (hbefore.sublist hturns).imp fun hbefore hsame =>
      hbefore.ne (congrArg Path.parts hsame)
    exact Command.length_rewritten hw hkeyed hrules hwet (List.Nodup.of_map _ hnodup)

/-! ## One file under two spellings -/

/-- A directory with one file. -/
def single : Workspace where
  tree.entries := [(["a.js"], .file (Bytes.ofString "console.log(1);\n"))]

/-- The directory and both spellings of its file. -/
theorem find_single : single.find "." = .ok ([], .directory) ∧
    ∀ path ∈ ["./a.js", "a.js"],
      single.find path = .ok (["a.js"], .file (Bytes.ofString "console.log(1);\n")) := by
  have hfile : single.tree.Leads false 40 [] ["a.js"]
      ⟨["a.js"], some (.file (Bytes.ofString "console.log(1);\n"))⟩ :=
    .enter rfl ⟨rfl, rfl, rfl, by decide⟩ rfl (by simp) .done
  have htop : single.tree.Leads false 40 [] ["."] ⟨[], some .directory⟩ := .idle rfl rfl .done
  refine ⟨Tree.find_of_target (by decide) htop.follow_eq, fun path hpath => ?_⟩
  rcases List.mem_pair.1 hpath with rfl | rfl
  · exact Tree.find_of_target (by decide) (Tree.Leads.idle rfl rfl hfile).follow_eq
  · exact Tree.find_of_target (by decide) hfile.follow_eq

/-- The directory lists its file behind a dot. -/
theorem collect_single_top : ∃ found, Walk.collect single { extensions := ["js"] } "." = .ok found ∧
    found.paths = ["./a.js"] := by
  have hw : single.tree.WellFormed := by decide
  have hkeyed : single.tree.Keyed := by decide
  have hbare : Walk.Bare single ⟨".", []⟩ := by
    refine ⟨by simp [single], fun inner hinner => ?_,
      fun d hd hne => absurd (List.prefix_nil.1 hd) hne⟩
    obtain rfl : inner = [] := by
      by_contra hne
      have hmem := (hkeyed.mem_iff hne).2 hinner
      simp [single] at hmem
    exact Walk.unruled_of_absent find_single.1 (by decide)
  have hkept : Walk.isFiltered single [] (Walk.Options.excludes { extensions := ["js"] })
      ⟨".", []⟩ ["a.js"] false = false :=
    (Walk.isFiltered_eq hw hbare rfl _ _).trans (Bool.false_and _)
  have hitself : single.tree.findItself single.cwd "." = .ok ([], .directory) := by
    have hpieces : (Path.pieces ".").reverse = ["."] := by decide +kernel
    rw [Tree.findItself, show Tree.openFault? "." = none by decide, hpieces]
    exact find_single.1
  have hinput : Walk.isStandardInput "." = false := by decide +kernel
  have hglobs : Walk.Options.globs { extensions := ["js"] } = .ok [] := rfl
  refine ⟨Walk.walkBelow single [] { extensions := ["js"] } ⟨".", []⟩ false, ?_, ?_⟩
  · unfold Walk.collect
    simp only [hglobs, hinput, hitself, find_single.1]
    rfl
  · have hchildren : single.tree.children [] =
        [("a.js", .file (Bytes.ofString "console.log(1);\n"))] := by
      decide +kernel
    have hdepth : single.tree.depth = 1 := by decide +kernel
    have hfile : (Entry.file (Bytes.ofString "console.log(1);\n") == .directory) = false := rfl
    have hbelow : Walk.descend single [] (Walk.Options.excludes { extensions := ["js"] })
        ⟨".", []⟩ 1 [] = { paths := ["./a.js"] } := by
      rw [Walk.descend_succ, List.nil_append, hchildren, List.map_singleton, Walk.visit,
        List.nil_append, hfile, hkept]
      decide +kernel
    unfold Walk.walkBelow
    simp only [hdepth, hbelow]
    decide +kernel

/-- The file is listed as it is spelled. -/
theorem collect_single_file {path : String} (hpath : path ∈ ["./a.js", "a.js"]) :
    Walk.collect single { extensions := ["js"] } path = .ok { paths := [path] } := by
  have hglobs : Walk.Options.globs { extensions := ["js"] } = .ok [] := rfl
  have hinput : ∀ path ∈ ["./a.js", "a.js"], Walk.isStandardInput path = false := by decide +kernel
  have hkept : ∀ path ∈ ["./a.js", "a.js"], [path].filter (Path.hasExtension ["js"]) = [path] := by
    decide +kernel
  obtain ⟨e, hitself⟩ : ∃ e, single.tree.findItself single.cwd path = .ok (["a.js"], e) := by
    rcases List.mem_pair.1 hpath with rfl | rfl
    · have hpieces : Path.pieces "./a.js" = ["."] ++ ["a.js"] := by decide +kernel
      have hfront : single.tree.Leads false 40 [] ["."] ⟨[], some .directory⟩ := .idle rfl rfl .done
      exact ⟨_, Tree.findItself_of_leads (by decide) hpieces (by decide) (by decide) hfront rfl⟩
    · have hpieces : Path.pieces "a.js" = [] ++ ["a.js"] := by decide +kernel
      have hfront : single.tree.Leads false 40 [] [] ⟨[], some .directory⟩ := .done
      exact ⟨_, Tree.findItself_of_leads (by decide) hpieces (by decide) (by decide) hfront rfl⟩
  unfold Walk.collect
  simp only [hglobs, hinput path hpath, hitself, find_single.2 path hpath, hkept path hpath]
  rfl

/-- The directory and its file are collected together, in one spelling or in two. -/
theorem collectAll_single (p : Plan) {path : String} (hpath : path ∈ ["./a.js", "a.js"]) :
    ∃ collected, collectAll single p { extensions := ["js"] } [".", path] = .ok collected ∧
      collected.files = Path.dropRepeated (Path.sort ["./a.js", path]) := by
  obtain ⟨found, hcollect, hpaths⟩ := collect_single_top
  have hwalk : walkAll single { extensions := ["js"] } [".", path] =
      .ok [found, { paths := [path] }] := by
    simp only [walkAll, hcollect, collect_single_file hpath]
  have hmerged : [found, { paths := [path] }].flatMap (·.paths) = ["./a.js", path] := by
    rw [List.flatMap_cons, hpaths]
    rfl
  unfold collectAll
  rw [hwalk]
  exact ⟨_, rfl, by rw [← hmerged]⟩

/-- Either spelling makes the sweep change the file. -/
theorem changes_single {path : String} (hpath : path ∈ ["./a.js", "a.js"]) :
    Command.Changes single {} {} (turnOf {} path) ["a.js"] (.ofString "console.log(1);\n") := by
  have hmodified : ∀ path ∈ ["./a.js", "a.js"],
      (sweepText {} (.ofPath path) (.ofString "console.log(1);\n")).isModified = true := by
    decide +kernel
  exact ⟨rfl, rfl, find_single.2 path hpath, by decide +kernel, hmodified path hpath,
    fun _ => ⟨rfl, by simp⟩⟩

/-- Targets that are spelled alike list the file once, and the sweep reports one change. -/
theorem collectAll_merges_single : ∃ collected,
    collectAll single default { extensions := ["js"] } [".", "./a.js"] = .ok collected ∧
      Once single collected.files ∧
      (Command.rewritten single.tree
          (Command.sweep single {} {} (collected.files.map (turnOf {}))).workspace.tree).length =
        (Command.sweep single {} {} (collected.files.map (turnOf {}))).report.summary.changed := by
  obtain ⟨collected, hcollected, -⟩ := collectAll_single default List.mem_cons_self
  have hlink : single.tree.Linkless := by
    intro location target hentry
    have hne : location ≠ [] := by
      rintro rfl
      cases hentry
    have hkeyed : single.tree.Keyed := by decide
    have hmem := (hkeyed.mem_iff hne).2 hentry
    simp [single] at hmem
  obtain ⟨-, -, honce, hbase, hcount⟩ := collectAll_merges single (by decide) (by decide) hlink
    default _ _ collected hcollected
  have hone : Once single collected.files := by
    refine honce.2 (hbase [.here] fun target htarget => ?_)
    rcases List.mem_pair.1 htarget with rfl | rfl
    · exact ⟨[], by decide +kernel⟩
    · exact ⟨["a.js"], by decide +kernel⟩
  refine ⟨collected, hcollected, hone, ?_⟩
  have hpaths : (collected.files.map (turnOf {})).map (·.path) = collected.files := by
    rw [List.map_map]
    exact List.map_id _
  refine (hcount {} {} _ (by decide +kernel) rfl (by rw [hpaths])).2.2 ?_
  intro a ha b hb location old hfirst hsecond
  obtain ⟨path, hpath, rfl⟩ := List.mem_map.1 ha
  obtain ⟨path', hpath', rfl⟩ := List.mem_map.1 hb
  rw [hone path hpath path' hpath' location (leadsTo_of_find hfirst.leads)
    (leadsTo_of_find hsecond.leads)]

/-- Under two spellings the file is listed twice, and the sweep reports two changes. -/
theorem collectAll_twice : ∃ collected,
    collectAll single default { extensions := ["js"] } [".", "a.js"] = .ok collected ∧
      collected.files = ["./a.js", "a.js"] ∧
      single.LeadsTo "./a.js" ["a.js"] ∧ single.LeadsTo "a.js" ["a.js"] ∧
      (Command.sweep single {} {} (collected.files.map (turnOf {}))).report.summary.changed = 2 ∧
      Command.rewritten single.tree
          (Command.sweep single {} {} (collected.files.map (turnOf {}))).workspace.tree =
        [["a.js"]] := by
  obtain ⟨collected, hcollected, hfiles⟩ := collectAll_single default
    (List.mem_cons_of_mem "./a.js" (List.mem_singleton_self "a.js"))
  have hsort : Path.sort ["./a.js", "a.js"] = ["./a.js", "a.js"] :=
    List.mergeSort_of_pairwise (by decide +kernel)
  rw [hsort, show Path.dropRepeated ["./a.js", "a.js"] = ["./a.js", "a.js"] by decide +kernel]
    at hfiles
  have hw : single.tree.WellFormed := by decide
  have hturns : collected.files.map (turnOf {}) = [turnOf {} "./a.js", turnOf {} "a.js"] := by
    rw [hfiles]
    rfl
  have hall : Command.changedPairs single {} {} (collected.files.map (turnOf {})) =
      (collected.files.map (turnOf {})).zip
        (Command.entriesFrom single {} {} single (collected.files.map (turnOf {}))) := by
    refine List.filter_eq_self.2 fun r hr => ?_
    obtain ⟨path, hpath, hsame⟩ := List.mem_map.1 (List.of_mem_zip hr).1
    rw [hfiles] at hpath
    exact (List.mem_filter.1 ((Command.mem_changedPairs_iff hw).2
      ⟨hr, _, _, hsame ▸ changes_single hpath⟩)).2
  refine ⟨collected, hcollected, hfiles, leadsTo_of_find (find_single.2 _ (by simp)),
    leadsTo_of_find (find_single.2 _ (by simp)), ?_, ?_⟩
  · rw [← Command.length_changedPairs, hall, List.length_zip, Command.length_entriesFrom, hturns]
    rfl
  · have hfile : turnOf {} "a.js" ∈ collected.files.map (turnOf {}) := by simp [hturns]
    rw [← Command.map_fst_zip_entriesFrom single {} {} (collected.files.map (turnOf {})), ← hall]
      at hfile
    obtain ⟨r, hr, hfile⟩ := List.mem_map.1 hfile
    have hmem : ["a.js"] ∈ Command.rewritten single.tree
        (Command.sweep single {} {} (collected.files.map (turnOf {}))).workspace.tree := by
      rw [(Command.sweep_eq single {} {} _).1]
      refine (Command.mem_rewritten_iff hw (by decide) (by decide +kernel) rfl).2
        (List.mem_map.2 ⟨r, hr, ?_⟩)
      rw [hfile, (changes_single (by simp)).destination_eq]
    refine List.filter_eq_self.2 fun location hlocation => ?_
    obtain rfl := List.mem_singleton.1 hlocation
    exact (List.mem_filter.1 hmem).2

end LogSweep.CommandLine
