import LogSweep.Proofs.Files.Create
import LogSweep.Settings.Discovery

/-!
# Where settings are found

The search for the settings of a directory starts at the directory itself, by its absolute path, and
goes up to the directories above it (`exists_of_mem_upward`). What the directory holds is found
(`find_of_here`); when it holds nothing, the file that is found is not in it
(`file_ne_of_not_here`). The files of the directory are read by their absolute paths as they are by
any other path of the directory (`readConfig?_of_file`, `readManifest?_eq`).
-/

namespace LogSweep.Settings

open Files

/-! ## Going up -/

/-- Nothing is above the top. -/
theorem parent?_top : Path.parent? (absolutePath []) = none := by
  decide +kernel

/-- The name of an entry is not idle, so the pieces up to it stay. -/
theorem withoutIdle_cons {piece : String} (h : Tree.isEntryName piece = true) (rest : List String) :
    Path.withoutIdle (piece :: rest) = piece :: rest := by
  obtain ⟨hempty, hdot, -, -⟩ := isEntryName_iff.1 h
  cases rest with
  | nil => rfl
  | cons => simp [Path.withoutIdle, hempty, hdot]

/-- Names joined behind an empty piece make an absolute path. -/
theorem intercalate_absolute (outer : Location) :
    (if "" :: outer == [""] then some "/" else some (String.intercalate "/" ("" :: outer))) =
      some (absolutePath outer) := by
  cases outer with
  | nil => decide +kernel
  | cons name names =>
    rw [if_neg (by simp), Option.some_inj, ← String.toList_inj, absolutePath, String.toList_append,
      String.toList_intercalate, String.toList_intercalate, List.map_cons, List.map_cons,
      List.intercalate_cons_cons]
    rfl

section
variable {outer : Location} {name : String}
  (hnames : ∀ n ∈ outer ++ [name], Tree.isEntryName n = true)
include hnames

/-- The last part of an absolute path is the last name. -/
theorem parts_absolutePath : ∃ front, Path.parts (absolutePath (outer ++ [name])) =
    front ++ [.name name] := by
  refine ⟨.root :: outer.filterMap Path.innerPart?, ?_⟩
  have hname := innerPart?_of_isEntryName (hnames name (by simp))
  rw [Path.parts, Tree.pieces_absolutePath (by simp) hnames]
  simp only [Tree.isAbsolute_absolutePath, if_true, List.filterMap_append]
  rw [List.filterMap_cons_some hname]
  rfl

/-- The parent of an absolute path is that of the location above. -/
theorem parent?_absolutePath :
    Path.parent? (absolutePath (outer ++ [name])) = some (absolutePath outer) := by
  obtain ⟨hinner, hname⟩ := List.forall_mem_append.1 hnames
  obtain ⟨front, hparts⟩ := parts_absolutePath hnames
  have hreverse : ("" :: (outer ++ [name])).reverse = name :: (outer.reverse ++ [""]) := by simp
  have hkept : Path.withoutIdle (outer.reverse ++ [""]) = outer.reverse ++ [""] := by
    cases hlast : outer.reverse with
    | nil => rfl
    | cons last rest =>
      have hmem : last ∈ outer := List.mem_reverse.1 (hlast ▸ List.mem_cons_self)
      exact withoutIdle_cons (hinner last hmem) _
  rw [Path.parent?, hparts, List.reverse_concat, Tree.pieces_absolutePath (by simp) hnames,
    hreverse, withoutIdle_cons (hname name (List.mem_singleton_self name))]
  simp only [hkept, List.reverse_append, List.reverse_reverse, List.reverse_singleton,
    List.singleton_append]
  exact intercalate_absolute outer

end

section
variable {location : Location} (hnames : ∀ name ∈ location, Tree.isEntryName name = true)
include hnames

/-- Going up from a location, one directory at a time. -/
theorem upward_succ (n : Nat) : upward (n + 1) (absolutePath location) =
    absolutePath location ::
      if location = [] then [] else upward n (absolutePath location.dropLast) := by
  by_cases hnil : location = []
  · subst hnil
    rw [upward, parent?_top]
    rfl
  · obtain ⟨outer, name, rfl⟩ : ∃ outer name, location = outer ++ [name] :=
      ⟨_, _, (List.dropLast_concat_getLast hnil).symm⟩
    rw [upward, parent?_absolutePath hnames, List.dropLast_concat, if_neg hnil]

/-- The search goes on in the directories above only. -/
theorem exists_of_mem_upward {n : Nat} {directory : String}
    (h : directory ∈ upward n (absolutePath location)) :
    ∃ outer, outer <+: location ∧ directory = absolutePath outer := by
  induction n generalizing location with
  | zero => cases h
  | succ n ih =>
    rw [upward_succ hnames] at h
    rcases List.mem_cons.1 h with rfl | h
    · exact ⟨location, List.prefix_rfl, rfl⟩
    · split at h
      · cases h
      · obtain ⟨outer, houter, rfl⟩ :=
          ih (fun name hname => hnames name (List.dropLast_subset location hname)) h
        exact ⟨outer, houter.trans (List.dropLast_prefix location), rfl⟩

end

/-! ## Reading -/

/-- A text can be read when the path leads to a file that is text. -/
theorem readText_eq_ok_iff {w : Workspace} {path : String} {content : Bytes} :
    w.readText path = .ok content ↔
      ∃ location, w.find path = .ok (location, .file content) ∧ content.decode?.isSome = true := by
  unfold Workspace.readText Tree.readText Tree.read Workspace.find
  constructor
  · intro h
    split at h
    · cases h
    · next found hread =>
      split at hread
      · cases hread
      · next hfind =>
        cases hread
        split at h
        · next htext =>
          cases h
          exact ⟨_, hfind, htext⟩
        · cases h
      · cases hread
  · rintro ⟨location, hfind, htext⟩
    rw [hfind]
    exact if_pos htext

/-! ## Searching -/

/-- Settings are found in a configuration or in a manifest. -/
theorem exists_name_of_here {w : Workspace} {directory : String} {found : Found}
    (h : here? w directory = some found) :
    ∃ name ∈ [configName, manifestName], found.file = some (Path.join directory name) := by
  unfold here? at h
  dsimp only at h
  split at h
  · cases h
    exact ⟨configName, by simp, rfl⟩
  · obtain ⟨settings, -, rfl⟩ := Option.map_eq_some_iff.1 h
    exact ⟨manifestName, by simp, rfl⟩

/-- Both have names that entries can have. -/
theorem isEntryName_of_mem {name : String} (h : name ∈ [configName, manifestName]) :
    Tree.isEntryName name = true := by
  have hall : ∀ name ∈ [configName, manifestName], Tree.isEntryName name = true := by
    decide +kernel
  exact hall name h

/-- What a directory above holds is not in the directory: its file has fewer names. -/
theorem file_ne_of_shorter {w : Workspace} {outer location : Location}
    (hnames : ∀ name ∈ location, Tree.isEntryName name = true) (houter : outer <+: location)
    (hshorter : outer.length < location.length) {found : Found}
    (hhere : here? w (absolutePath outer) = some found) {name : String}
    (hname : name ∈ [configName, manifestName]) :
    found.file ≠ some (absolutePath (location ++ [name])) := by
  obtain ⟨other, hother, hfile⟩ := exists_name_of_here hhere
  have hentry := isEntryName_of_mem hname
  have hentry' := isEntryName_of_mem hother
  have hnames' : ∀ n ∈ outer, Tree.isEntryName n = true := fun n hn => hnames n (houter.subset hn)
  rw [hfile, join_absolutePath hnames' hentry', ne_eq, Option.some_inj]
  intro hsame
  have hlocation := absolutePath_injective (by simp) (by simp)
    (List.forall_mem_append.2 ⟨hnames', List.forall_mem_singleton.2 hentry'⟩)
    (List.forall_mem_append.2 ⟨hnames, List.forall_mem_singleton.2 hentry⟩) hsame
  have hlength := congrArg List.length hlocation
  simp only [List.length_append, List.length_singleton] at hlength
  omega

section
variable {w : Workspace} {directory : String} {location : Location}
  (hdir : w.find directory = .ok (location, .directory))
include hdir

/-- The search starts from the absolute path of the directory. -/
theorem start_eq : start w directory = absolutePath location := by
  have hfile : w.isFile directory = false := by
    unfold Workspace.isFile Tree.isFile
    rw [Workspace.find] at hdir
    rw [hdir]
  have hresolve : w.resolve directory = .ok (location, .directory) := (Tree.find_eq_ok_iff.1 hdir).2
  simp only [start, hfile, Bool.false_eq_true, if_false, hresolve]

variable (hnames : ∀ name ∈ location, Tree.isEntryName name = true)
include hnames

/-- Settings in the directory itself are found before any above it. -/
theorem find_of_here {found : Found} (h : here? w (absolutePath location) = some found) :
    find w directory = found := by
  rw [find, start_eq hdir, upward_succ hnames, List.findSome?_cons, h]
  rfl

/-- What is found for a directory that holds no settings is not in it. -/
theorem file_ne_of_not_here (h : here? w (absolutePath location) = none) {name : String}
    (hname : name ∈ [configName, manifestName]) :
    (find w directory).file ≠ some (absolutePath (location ++ [name])) := by
  rw [find, start_eq hdir, upward_succ hnames, List.findSome?_cons, h]
  dsimp only
  split
  · simp
  · next hnil =>
    cases hsome : (upward _ (absolutePath location.dropLast)).findSome? (here? w) with
    | none => simp
    | some found =>
      -- found further up, so in a directory with fewer names
      obtain ⟨above, hmem, hhere⟩ := List.exists_of_findSome?_eq_some hsome
      obtain ⟨outer, houter, rfl⟩ := exists_of_mem_upward
        (fun n hn => hnames n (List.dropLast_subset location hn)) hmem
      have hlength := houter.length_le
      have hpos := List.length_pos_iff.2 hnil
      rw [List.length_dropLast] at hlength
      exact file_ne_of_shorter hnames (houter.trans (List.dropLast_prefix location)) (by omega)
        hhere hname

end

/-! ## The files of a directory -/

/-- The files with settings in a directory can be opened by their absolute paths. -/
structure Addressable (location : Location) : Prop where
  short : ∀ name ∈ location, ¬ Tree.nameLimit < name.utf8ByteSize
  opens : ∀ name ∈ [configName, manifestName],
    Tree.openFault? (absolutePath (location ++ [name])) = none

section
variable {w : Workspace} (hw : w.tree.WellFormed) {location : Location}
  (hdir : w.tree.entry? location = some .directory) (haddress : Addressable location)
include hw hdir haddress

/-- The files of a directory are found by their absolute paths as they are from the directory. -/
theorem find_absolute {name : String} (hname : name ∈ [configName, manifestName]) {place : Location}
    {e : Entry} (hlast : w.tree.Leads false Tree.linkLimit location [name] ⟨place, some e⟩) :
    w.find (Path.join (absolutePath location) name) = .ok (place, e) := by
  have hentry := isEntryName_of_mem hname
  rw [join_absolutePath (hw.of_entry hdir).2 hentry]
  exact Tree.find_of_target (haddress.opens name hname)
    (hw.target_absolutePath hdir haddress.short hentry hlast w.cwd)

/-- Without a configuration none is read. -/
theorem readConfig?_of_none (hnone : w.tree.entry? (location ++ [configName]) = none) :
    readConfig? w (Path.join (absolutePath location) configName) = none := by
  have hname : configName ∈ [configName, manifestName] := by simp
  have hentry := isEntryName_of_mem hname
  have hmissing : w.tree.Leads false Tree.linkLimit location [configName]
      ⟨location ++ [configName], none⟩ :=
    .missing hdir ⟨by decide, by decide, rfl, by decide⟩ hnone
  have htarget := hw.target_absolutePath hdir haddress.short hentry hmissing w.cwd
  rw [← join_absolutePath (hw.of_entry hdir).2 hentry] at htarget
  unfold readConfig?
  split
  · rfl
  · next content hread =>
    obtain ⟨place, hfind, -⟩ := readText_eq_ok_iff.1 hread
    have hfound := (Tree.resolve_eq_ok_iff.1 (Tree.find_eq_ok_iff.1 hfind).2).2
    cases htarget.symm.trans hfound

/-- A configuration that is text is read as such. -/
theorem readConfig?_of_file {content : Bytes} (hfile : w.tree.entry? (location ++ [configName]) =
      some (.file content)) (htext : content.decode?.isSome = true) :
    readConfig? w (Path.join (absolutePath location) configName) =
      (Toml.read? content.decode.toList).bind Section.ofTomlDocument? := by
  have hlast : w.tree.Leads false Tree.linkLimit location [configName]
      ⟨location ++ [configName], some (.file content)⟩ := by
    rw [← hfile]
    exact .enter hdir ⟨by decide, by decide, rfl, by decide⟩ hfile (by simp) .done
  have hread := readText_eq_ok_iff.2
    ⟨_, find_absolute hw hdir haddress (by simp) hlast, htext⟩
  rw [readConfig?, hread]

/-- A manifest that is read by way of some path of its directory is read by its absolute path. -/
theorem readManifest?_eq {directory : String}
    (hfind : w.find directory = .ok (location, .directory)) {content : Bytes}
    (hread : w.readText (Path.join directory manifestName) = .ok content) :
    readManifest? w (Path.join (absolutePath location) manifestName) =
      (Json.read? content.decode.toList).bind Section.ofJsonDocument? := by
  have hname : manifestName ∈ [configName, manifestName] := by simp
  obtain ⟨place, hmanifest, htext⟩ := readText_eq_ok_iff.1 hread
  obtain ⟨left, hleft, hleads⟩ := Tree.leads_of_find_foldl_join hfind
    (List.forall_mem_singleton.2 (isEntryName_of_mem hname)) (List.cons_ne_nil _ _) hmanifest
  have habsolute := readText_eq_ok_iff.2
    ⟨place, find_absolute hw hdir haddress hname (hleads.mono hleft), htext⟩
  rw [readManifest?, habsolute]

end

end LogSweep.Settings
