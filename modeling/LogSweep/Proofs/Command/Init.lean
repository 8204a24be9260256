import LogSweep.Command.Init
import LogSweep.Proofs.Settings.Discovery
import LogSweep.Proofs.Text.Names

/-!
# Initializing and finding settings

Initializing a directory without a configuration file creates one, unless the package manifest has a
section when read strictly (`init_cases`). Either way no entry of the tree changes, and initializing
again changes nothing. A configuration file that was created is what the settings of the directory
are found in, and it sets the defaults. Where a section stood in the way, the settings are found in
the manifest exactly when the section can also be read as settings (`init_then_find`); one that is
`null` cannot, and then the directory is left without settings (`find_after_init_null`).
-/

namespace LogSweep.Command

open Files Settings

/-! ## The file that is created -/

/-- The settings of the configuration file that is created. -/
def defaultSection : Section where
  target := some "console.log"
  replacement := some "console.error"
  keyword := some "catch"
  extensions := some ["js", "vue"]
  excluded := some []
  included := some []

/-- The default configuration, line by line. -/
theorem toList_defaultConfig :
    defaultConfig.toList = defaultLines.flatMap fun line => line.toList ++ ['\n'] := by
  rw [defaultConfig, String.toList_join, List.flatMap_map]
  simp only [String.toList_append]
  rfl

/-- The default configuration reads as the default settings. -/
theorem read_defaultConfig :
    (Toml.read? (Bytes.ofString defaultConfig).decode.toList).bind Section.ofTomlDocument? =
      some defaultSection := by
  rw [Bytes.decode, decode?_ofString, Option.getD_some, toList_defaultConfig]
  decide +kernel

/-! ## What initializing does -/

/-- A configuration that was created was written. -/
theorem write_of_createConfig {w : Workspace} {config : String} {refusal : Option Fault}
    (h : (createConfig w config refusal).fault = none) :
    w.write config (.ofString defaultConfig) refusal =
      .ok (createConfig w config refusal).workspace := by
  unfold createConfig at h ⊢
  split at h
  · cases h
  · next hwrite =>
    rw [hwrite]
    rfl

/-- A file that can be read exists. -/
theorem pathExists_of_readText {w : Workspace} {path : String} {content : Bytes}
    (h : w.readText path = .ok content) : w.pathExists path = true := by
  obtain ⟨location, hfind, -⟩ := readText_eq_ok_iff.1 h
  rw [Workspace.pathExists, Tree.exists?, ← Workspace.find, hfind]

section
variable {w : Workspace} {directory : String} {location : Location}
  (hdir : w.find directory = .ok (location, .directory))
  (hnone : w.tree.entry? (location ++ [configName]) = none)
include hdir hnone

/-- There is no configuration in the directory yet. -/
theorem not_pathExists_config : w.pathExists (Path.join directory configName) = false := by
  have hnames : ∀ name ∈ [configName], Tree.isEntryName name = true := by decide +kernel
  exact Tree.exists?_foldl_join_eq_false hdir hnames hnone

/-- Nothing is written where the manifest has a section. -/
theorem init_of_section {content : Bytes}
    (hread : w.readText (Path.join directory manifestName) = .ok content)
    (hsection : hasSection content = true) (refusal : Option Fault) :
    init w directory refusal =
      initDone w "  • package.json already contains an \"rmlogs\" section - skipping.\n" := by
  unfold init
  dsimp only
  rw [not_pathExists_config hdir hnone, pathExists_of_readText hread, hread]
  dsimp only
  rw [hsection]
  rfl

variable {refusal : Option Fault} (hfault : (init w directory refusal).fault = none)
include hfault

/-- Initializing leaves a directory whose manifest has a section as it is, and creates a
configuration file otherwise. -/
theorem init_cases :
    (∃ content, w.readText (Path.join directory manifestName) = .ok content ∧
      hasSection content = true ∧ (init w directory refusal).workspace = w) ∨
    ((∀ content, w.readText (Path.join directory manifestName) = .ok content →
      hasSection content = false) ∧
      w.write (Path.join directory configName) (.ofString defaultConfig) refusal =
        .ok (init w directory refusal).workspace) := by
  generalize hmade : init w directory refusal = made at hfault ⊢
  unfold init at hmade
  dsimp only at hmade
  rw [not_pathExists_config hdir hnone, if_neg Bool.false_ne_true] at hmade
  split at hmade
  · split at hmade
    · subst hmade
      cases hfault
    · next content hread =>
      split at hmade
      · next hsection =>
        subst hmade
        exact .inl ⟨content, hread, hsection, rfl⟩
      · next hsection =>
        subst hmade
        refine .inr ⟨fun other hother => ?_, write_of_createConfig hfault⟩
        cases hread.symm.trans hother
        exact Bool.eq_false_iff.2 hsection
  · next hmissing =>
    subst hmade
    exact .inr ⟨fun content hread => absurd (pathExists_of_readText hread) hmissing,
      write_of_createConfig hfault⟩

end

/-- What is written in the directory is one new file of that name. -/
theorem exists_put_of_write {w made : Workspace} {directory : String} {location : Location}
    {refusal : Option Fault} (hdir : w.find directory = .ok (location, .directory))
    (hnone : w.tree.entry? (location ++ [configName]) = none)
    (hwrite : w.write (Path.join directory configName) (.ofString defaultConfig) refusal =
      .ok made) :
    ∃ tree, made = { w with tree } ∧
      tree = w.tree.put (location ++ [configName]) (.file (.ofString defaultConfig)) ∧
      tree.find w.cwd (Path.join directory configName) =
        .ok (location ++ [configName], .file (.ofString defaultConfig)) := by
  unfold Workspace.write at hwrite
  split at hwrite
  · cases hwrite
  · next tree htree =>
    cases hwrite
    exact ⟨tree, rfl, Tree.write_join hdir (by decide +kernel) hnone htree⟩

/-! ## What is found afterwards -/

/-- The section of a manifest, read as settings. -/
def settingsOf? (content : Bytes) : Option Section :=
  (Json.read? content.decode.toList).bind Section.ofJsonDocument?

/-- A section stood in the way: everything is as it was, and the settings of the directory are found
in the manifest if the section can be read as settings, and not in the directory otherwise. -/
structure LeavesSection (w made : Workspace) (directory : String) (location : Location)
    (content : Bytes) : Prop where
  read : w.readText (Path.join directory manifestName) = .ok content
  hasSection : hasSection content = true
  same : made = w
  found : ∀ settings, settingsOf? content = some settings →
    find made directory = ⟨settings, some (absolutePath (location ++ [manifestName]))⟩
  notFound : settingsOf? content = none → ∀ name ∈ [configName, manifestName],
    (find made directory).file ≠ some (absolutePath (location ++ [name]))

/-- No section stood in the way: a configuration file was created, and the settings of the directory
are found in it and are the defaults. -/
structure CreatesConfig (w made : Workspace) (directory : String) (location : Location) : Prop where
  noSection : ∀ content, w.readText (Path.join directory manifestName) = .ok content →
    hasSection content = false
  created : made.tree.entry? (location ++ [configName]) = some (.file (.ofString defaultConfig))
  found : ∃ settings, find made directory =
      ⟨settings, some (absolutePath (location ++ [configName]))⟩ ∧
    settings.rules = {} ∧ settings.allExtensions = ["js", "vue"]

section
variable {w : Workspace} (hw : w.tree.WellFormed) {directory : String} {location : Location}
  (hdir : w.find directory = .ok (location, .directory))
  (hnone : w.tree.entry? (location ++ [configName]) = none) (haddress : Addressable location)
include hw hdir hnone haddress

/-- A section in the manifest stands in the way, and all stays as it is. -/
theorem leavesSection {content : Bytes}
    (hread : w.readText (Path.join directory manifestName) = .ok content)
    (hsection : hasSection content = true) :
    LeavesSection w w directory location content := by
  have hentry : w.tree.entry? location = some .directory := Tree.entry?_of_find hdir
  have hnames := (hw.of_entry hentry).2
  have hhere : here? w (absolutePath location) = (settingsOf? content).map fun settings =>
      ⟨settings, some (absolutePath (location ++ [manifestName]))⟩ := by
    have hmanifest : Path.join (absolutePath location) manifestName =
        absolutePath (location ++ [manifestName]) :=
      join_absolutePath hnames (isEntryName_of_mem (by simp))
    rw [here?, readConfig?_of_none hw hentry haddress hnone,
      readManifest?_eq hw hentry haddress hdir hread, hmanifest]
    rfl
  refine ⟨hread, hsection, rfl, fun settings hsome => ?_, fun hnothing => ?_⟩
  · rw [hsome] at hhere
    exact find_of_here hdir hnames hhere
  · rw [hnothing] at hhere
    exact fun name => file_ne_of_not_here hdir hnames hhere

/-- Without a section the configuration is created and then found. -/
theorem createsConfig {made : Workspace} {refusal : Option Fault}
    (hwrite : w.write (Path.join directory configName) (.ofString defaultConfig) refusal =
      .ok made)
    (hsection : ∀ content, w.readText (Path.join directory manifestName) = .ok content →
      hasSection content = false) : CreatesConfig w made directory location := by
  obtain ⟨tree, rfl, hput, hfind⟩ := exists_put_of_write hdir hnone hwrite
  have hname := isEntryName_of_mem (List.mem_cons_self (a := configName) (l := [manifestName]))
  have hentry : w.tree.entry? location = some .directory := Tree.entry?_of_find hdir
  have hnames := (hw.of_entry hentry).2
  have hgrows : w.tree.Grows tree := hput ▸ Tree.grows_put hnone _
  have hw' : tree.WellFormed := hput ▸ hw.put_file hentry hname hnone _
  have hfile : tree.entry? (location ++ [configName]) = some (.file (.ofString defaultConfig)) :=
    Tree.entry?_of_find hfind
  have hhere : here? { w with tree } (absolutePath location) =
      some ⟨defaultSection, some (absolutePath (location ++ [configName]))⟩ := by
    have hconfig : readConfig? { w with tree } (Path.join (absolutePath location) configName) =
        some defaultSection :=
      (readConfig?_of_file hw' (hgrows _ _ hentry) haddress hfile
        (by rw [decode?_ofString]; rfl)).trans read_defaultConfig
    rw [here?, hconfig, join_absolutePath hnames hname]
  have hdir' : Workspace.find { w with tree } directory = .ok (location, .directory) :=
    Tree.find_grow hgrows hdir
  exact ⟨hsection, hfile, defaultSection, find_of_here hdir' hnames hhere, by decide +kernel,
    by decide +kernel⟩

end

/-- Initializing a directory without a configuration file changes no entry, and doing it again
changes nothing, whatever the system would refuse to write then. Afterwards the settings of the
directory are found in the configuration file that was created, as the defaults, or, where a section
of the manifest stood in the way, in the manifest exactly when that section can be read as
settings. -/
theorem init_then_find (w : Workspace) (hw : w.tree.WellFormed) (directory : String)
    (location : Location) (hdir : w.find directory = .ok (location, .directory))
    (hnone : w.tree.entry? (location ++ [configName]) = none) (haddress : Addressable location)
    (refusal again : Option Fault) (made : Initialized) (hmade : init w directory refusal = made)
    (hfault : made.fault = none) :
    (∀ l, l ≠ location ++ [configName] → made.workspace.tree.entry? l = w.tree.entry? l) ∧
    (init made.workspace directory again).workspace = made.workspace ∧
    (init made.workspace directory again).fault = none ∧
    ((∃ content, LeavesSection w made.workspace directory location content) ∨
      CreatesConfig w made.workspace directory location) := by
  subst hmade
  rcases init_cases hdir hnone hfault with ⟨content, hread, hsection, hsame⟩ | ⟨hsection, hwrite⟩
  · rw [hsame, init_of_section hdir hnone hread hsection again]
    exact ⟨fun _ _ => rfl, rfl, rfl,
      .inl ⟨content, leavesSection hw hdir hnone haddress hread hsection⟩⟩
  · have hcreates := createsConfig hw hdir hnone haddress hwrite hsection
    obtain ⟨tree, hmade, hput, hfind⟩ := exists_put_of_write hdir hnone hwrite
    rw [hmade] at hcreates ⊢
    have hexists :
        Workspace.pathExists { w with tree } (Path.join directory configName) = true := by
      rw [Workspace.pathExists, Tree.exists?, hfind]
    have hagain : init { w with tree } directory again =
        initDone { w with tree } "  • .rmlogs.toml already exists - skipping.\n" := by
      rw [init, hexists]
      rfl
    rw [hagain]
    refine ⟨fun l hl => ?_, rfl, rfl, .inr hcreates⟩
    dsimp only
    rw [hput, Tree.entry?_put_of_none hnone, if_neg hl]

/-! ## Two projects -/

/-- A directory with a manifest. -/
def project (manifest : String) : Workspace where
  tree.entries := [(["d"], .directory), (["d", "package.json"], .file (.ofString manifest))]

section
variable (manifest : String)

theorem wellFormed_project : (project manifest).tree.WellFormed := by
  intro p hp
  obtain rfl | rfl : p = (["d"], .directory) ∨
      p = (["d", "package.json"], .file (.ofString manifest)) := by simpa [project] using hp
  · exact ⟨rfl, by decide⟩
  · exact ⟨rfl, show ∀ name ∈ ["d", "package.json"], Tree.isEntryName name = true by decide⟩

theorem find_project : (project manifest).find "d" = .ok (["d"], .directory) := by
  have hleads : (project manifest).tree.Leads false 40 [] ["d"] ⟨["d"], some .directory⟩ :=
    .enter rfl ⟨rfl, rfl, rfl, by decide⟩ rfl (by simp) .done
  exact Tree.find_of_target (by decide) hleads.follow_eq

/-- The manifest of the project is its file. -/
theorem readText_project :
    (project manifest).readText (Path.join "d" manifestName) = .ok (.ofString manifest) := by
  have hlast : (project manifest).tree.Leads false 40 ["d"] ["package.json"]
      ⟨["d", "package.json"], some (.file (.ofString manifest))⟩ :=
    .enter rfl ⟨rfl, rfl, rfl, by decide⟩ rfl (by simp) .done
  have hleads : (project manifest).tree.Leads false 40 [] ["d", "package.json"]
      ⟨["d", "package.json"], some (.file (.ofString manifest))⟩ :=
    .enter rfl ⟨rfl, rfl, rfl, by decide⟩ rfl (by simp) hlast
  refine readText_eq_ok_iff.2 ⟨_, Tree.find_of_target (by decide) hleads.follow_eq, ?_⟩
  rw [decode?_ofString]
  rfl

/-- The manifest has a section when its text, read strictly, has the key. -/
theorem hasSection_ofString : hasSection (.ofString manifest) =
    (Json.readStrict? manifest.toList).any (·.hasKey Section.sectionKey) := by
  rw [hasSection, Bytes.decode, decode?_ofString, Option.getD_some]

/-- The manifest has settings when its text reads as a section. -/
theorem settingsOf?_ofString : settingsOf? (.ofString manifest) =
    (Json.read? manifest.toList).bind Section.ofJsonDocument? := by
  rw [settingsOf?, Bytes.decode, decode?_ofString, Option.getD_some]

end

theorem addressable_project : Addressable ["d"] :=
  ⟨by decide, by decide +kernel⟩

/-- A manifest without a section: a configuration file is created, and the settings are found in
it. -/
theorem init_then_find_plain :
    ((init (project "\x7b\x7d") "d").workspace.tree.entry? ["d", "package.json"] =
      some (.file (.ofString "\x7b\x7d"))) ∧
    ∃ settings, find (init (project "\x7b\x7d") "d").workspace "d" =
        ⟨settings, some "/d/.rmlogs.toml"⟩ ∧
      settings.rules = {} ∧ settings.allExtensions = ["js", "vue"] := by
  have hsection : hasSection (.ofString "\x7b\x7d") = false := by
    rw [hasSection_ofString]
    decide +kernel
  have hread := readText_project "\x7b\x7d"
  have hdir := find_project "\x7b\x7d"
  have hw := wellFormed_project "\x7b\x7d"
  have hfile : Tree.entry? (project "\x7b\x7d").tree ["d", "package.json"] =
    some (.file (.ofString "\x7b\x7d")) := rfl
  have hnone : Tree.entry? (project "\x7b\x7d").tree (["d"] ++ [configName]) = none := rfl
  generalize project "\x7b\x7d" = w at *
  have hfault : (init w "d").fault = none := by
    have hwrite : w.tree.write w.cwd (Path.join "d" configName) (.ofString defaultConfig) = _ :=
      Tree.write_join_of_none hdir (by decide +kernel) (by decide) hnone (by decide +kernel)
    unfold init
    dsimp only
    rw [not_pathExists_config hdir hnone, pathExists_of_readText hread, hread]
    simp only [hsection, createConfig, Workspace.write, hwrite]
    rfl
  obtain ⟨hkept, -, -, ⟨content, hleaves⟩ | hcreates⟩ := init_then_find w hw "d" ["d"] hdir hnone
    addressable_project none none _ rfl hfault
  · cases hread.symm.trans hleaves.read
    cases hsection.symm.trans hleaves.hasSection
  · exact ⟨(hkept _ (by decide)).trans hfile, hcreates.found⟩

/-- A section that is `null` stands in the way of a configuration file, but it cannot be read as
settings: the directory is left without any. -/
theorem find_after_init_null :
    init (project "\x7b\"rmlogs\": null\x7d") "d" = initDone (project "\x7b\"rmlogs\": null\x7d")
        "  • package.json already contains an \"rmlogs\" section - skipping.\n" ∧
      ∀ name ∈ [configName, manifestName],
        (find (project "\x7b\"rmlogs\": null\x7d") "d").file ≠ some (absolutePath ["d", name]) := by
  have hread := readText_project "\x7b\"rmlogs\": null\x7d"
  have hsection : hasSection (.ofString "\x7b\"rmlogs\": null\x7d") = true := by
    rw [hasSection_ofString]
    decide +kernel
  have hsettings : settingsOf? (.ofString "\x7b\"rmlogs\": null\x7d") = none := by
    rw [settingsOf?_ofString]
    decide +kernel
  have hdir := find_project "\x7b\"rmlogs\": null\x7d"
  have hw := wellFormed_project "\x7b\"rmlogs\": null\x7d"
  generalize "\x7b\"rmlogs\": null\x7d" = manifest at *
  exact ⟨init_of_section hdir rfl hread hsection none,
    (leavesSection hw hdir rfl addressable_project hread hsection).notFound hsettings⟩

end LogSweep.Command
