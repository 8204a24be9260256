import LogSweep.Proofs.Files.Joined
import LogSweep.Proofs.Path.Order
import LogSweep.Walk.Collect
import Mathlib.Data.List.Nodup

/-!
# What a walk lists

A walk goes down from directory to directory, through those that are not filtered out and can be
opened, and lists what is no directory (`Reaches`, `mem_descend_depth_iff`); the depth of the tree
bounds how far it has to go. Where no ignore file has a rule, no globs are given and every directory
can be opened, it lists every entry that is no directory, has one of the extensions, and has no
folder between it and the root with a name that the options exclude (`Listed`). It lists them in the
strict order of paths (`collect_lists`).
-/

namespace LogSweep.Walk

open Files

/-! ## Excluded folders -/

/-- An exclusion covers a name: it is the name, or a star and an ending of the name from a dot on.
No other exclusion with a star in front covers anything. -/
inductive Covers (name : String) : String → Prop
  | same (h : name.toList.head? ≠ some '*') : Covers name name
  | ending {front back : List Char} (h : name.toList = front ++ '.' :: back) :
      Covers name (String.ofList ('*' :: '.' :: back))

/-- The test of an exclusion says whether it covers a name. -/
theorem covers_iff {name exclude : String} : covers name exclude = true ↔ Covers name exclude := by
  constructor
  · intro h
    unfold covers at h
    split at h
    · next back hexclude =>
      obtain ⟨front, hfront⟩ := List.isSuffixOf_iff_suffix.1 h
      rw [← String.ofList_toList (s := exclude), hexclude]
      exact .ending hfront.symm
    · cases h
    · next hstar =>
      obtain rfl := beq_iff_eq.1 h
      refine .same fun hhead => ?_
      obtain ⟨rest, hrest⟩ := List.head?_eq_some_iff.1 hhead
      exact hstar rest hrest
  · rintro (hhead | hname)
    · unfold covers
      split
      · next hname => exact absurd (by rw [hname]; rfl) hhead
      · next hname => exact absurd (by rw [hname]; rfl) hhead
      · exact beq_self_eq_true name
    · unfold covers
      rw [String.toList_ofList, hname]
      exact List.isSuffixOf_iff_suffix.2 (List.suffix_append _ _)

/-- The options exclude folders of a name: an exclusion that is given or is a default one covers it,
and is not itself among the folders to include. -/
def Options.Excludes (o : Options) (name : String) : Prop :=
  ∃ exclude, (exclude ∈ o.excluded ∨ exclude ∈ defaultExcludes) ∧ exclude ∉ o.included ∧
    Covers name exclude

/-- A folder is excluded by the user or by default, unless it is included. -/
theorem isExcluded_iff {o : Options} {name : String} :
    isExcluded o.excludes name = true ↔ o.Excludes name := by
  simp only [isExcluded, Options.excludes, List.any_eq_true, List.mem_filter, List.mem_append,
    List.contains_eq_mem, Bool.not_eq_true', decide_eq_false_iff_not, covers_iff, and_assoc,
    Options.Excludes]

/-! ## Directories without rules -/

/-- No file has rules for the entries below a directory. -/
structure Unruled (w : Workspace) (directory : String) : Prop where
  ignore : w.pathExists (Path.join directory ".ignore") = false
  gitIgnore : w.pathExists (Path.join directory ".gitignore") = false
  gitExclude : ∀ data, repositoryData? w directory = .ok (some data) →
    w.pathExists (Path.join data "info/exclude") = false

section
variable {w : Workspace}

/-- A file that does not exist has no rules. -/
theorem readRuleFile_of_not_exists {path : String} (h : w.pathExists path = false) :
    readRuleFile w path = {} := by
  unfold Workspace.pathExists Tree.exists? at h
  unfold readRuleFile Tree.read
  split at h
  · cases h
  · next hfind => rw [hfind]

/-- A directory without ignore files has no rules of any kind. -/
theorem Unruled.localRules {directory : String} (h : Unruled w directory) :
    (localRules w directory).ignore = [] ∧ (localRules w directory).gitIgnore = [] ∧
      (localRules w directory).gitExclude = [] := by
  have hnone : RuleFile.working {} = [] := rfl
  unfold Walk.localRules
  dsimp only
  rw [readRuleFile_of_not_exists h.ignore, readRuleFile_of_not_exists h.gitIgnore]
  refine ⟨hnone, hnone, ?_⟩
  split
  · exact hnone
  · exact hnone
  · next hdata => rw [readRuleFile_of_not_exists (h.gitExclude _ hdata), hnone]

theorem join_info_exclude (data : String) :
    Path.join data "info/exclude" = ["info", "exclude"].foldl Path.join data := by
  have hrelative : Path.isAbsolute "info/exclude" = false ∧ Path.isAbsolute "info" = false ∧
      Path.isAbsolute "exclude" = false := by
    decide +kernel
  have hexclude : ∀ front : String,
      Path.join (front ++ "info") "exclude" = front ++ "info" ++ "/" ++ "exclude" := by
    simp [Path.join, hrelative, String.toList_append]
  obtain ⟨front, hinfo, hwhole⟩ : ∃ front, Path.join data "info" = front ++ "info" ∧
      Path.join data "info/exclude" = front ++ "info/exclude" := by
    rw [Path.join, Path.join, hrelative.1, hrelative.2.1]
    cases data == "" || data.toList.getLast? == some '/' with
    | true => exact ⟨data, rfl, rfl⟩
    | false => exact ⟨data ++ "/", rfl, rfl⟩
  rw [List.foldl_cons, List.foldl_cons, List.foldl_nil, hinfo, hwhole, hexclude,
    String.append_assoc, String.append_assoc]
  rfl

/-- A directory that has none of the files that rules are found by is without rules. -/
theorem unruled_of_absent {directory : String} {location : Location}
    (hdir : w.find directory = .ok (location, .directory))
    (habsent : ∀ name ∈ [".ignore", ".gitignore", ".git"],
      w.tree.entry? (location ++ [name]) = none) : Unruled w directory := by
  have hnames : ∀ name ∈ [".ignore", ".gitignore", ".git"], Tree.isEntryName name = true := by
    decide +kernel
  have hjoin : ∀ name ∈ [".ignore", ".gitignore", ".git"],
      w.tree.exists? w.cwd ([name].foldl Path.join directory) = false := fun name hname =>
    Tree.exists?_foldl_join_eq_false hdir (List.forall_mem_singleton.2 (hnames name hname))
      (habsent name hname)
  have hexclude : w.tree.exists? w.cwd ([".git", "info", "exclude"].foldl Path.join directory) =
      false :=
    Tree.exists?_foldl_join_eq_false hdir (by decide +kernel) (habsent ".git" (by simp))
  refine ⟨hjoin ".ignore" (by simp), hjoin ".gitignore" (by simp), fun data hdata => ?_⟩
  have hfile : w.isFile (Path.join directory ".git") = false := by
    have hgit : w.tree.exists? w.cwd (Path.join directory ".git") = false := hjoin ".git" (by simp)
    unfold Tree.exists? at hgit
    unfold Workspace.isFile Tree.isFile
    split at hgit
    · cases hgit
    · next hfind => rw [hfind]
  rw [repositoryData?, hfile] at hdata
  cases hdata
  rw [join_info_exclude]
  exact hexclude

/-- The directories at or below a root and above it are without rules, and the user has no ignore
file. -/
structure Bare (w : Workspace) (r : Root) : Prop where
  user : ∀ path ∈ w.userIgnore, w.pathExists path = false
  inside : ∀ inner, w.tree.entry? (r.location ++ inner) = some .directory →
    Unruled w (r.pathTo inner)
  outside : ∀ d, d <+: r.location → d ≠ r.location → Unruled w (absolutePath d)

/-- The locations above one are its proper prefixes. -/
theorem mem_above_iff {d location : Location} :
    d ∈ above location ↔ d <+: location ∧ d ≠ location := by
  rw [above, List.mem_map]
  constructor
  · rintro ⟨n, hn, rfl⟩
    rw [List.mem_reverse, List.mem_range] at hn
    refine ⟨List.take_prefix n location, fun heq => ?_⟩
    have hlength := congrArg List.length heq
    rw [List.length_take] at hlength
    omega
  · rintro ⟨hd, hne⟩
    have hlength := hd.length_le
    refine ⟨d.length, ?_, (List.prefix_iff_eq_take.1 hd).symm⟩
    rw [List.mem_reverse, List.mem_range]
    exact Nat.lt_of_le_of_ne hlength fun heq => hne (hd.eq_of_length heq)

/-- The levels up to the repository are some of all. -/
theorem mem_of_mem_upToRepository {level : Level} {levels : List Level}
    (h : level ∈ upToRepository levels) : level ∈ levels := by
  induction levels with
  | nil => exact h
  | cons first levels ih =>
    rw [upToRepository] at h
    split at h
    · obtain rfl := List.mem_singleton.1 h
      exact List.mem_cons_self
    · rcases List.mem_cons.1 h with rfl | h
      · exact List.mem_cons_self
      · exact List.mem_cons_of_mem _ (ih h)

variable (hw : w.tree.WellFormed) {r : Root} (hbare : Bare w r) {names : List String} {e : Entry}
include hw hbare

/-- None of the directories on the way to an entry has rules. -/
theorem unruled_of_mem_directories (he : w.tree.entry? (r.location ++ names) = some e)
    {d path : String} (hd : (d, path) ∈ r.directories names) : Unruled w d := by
  unfold Root.directories at hd
  rcases List.mem_append.1 hd with hd | hd
  · obtain ⟨inner, hinner, hpair⟩ := List.mem_map.1 hd
    cases hpair
    obtain ⟨⟨rest, rfl⟩, hne⟩ := mem_above_iff.1 hinner
    rw [← List.append_assoc] at he
    exact hbare.inside inner (hw.above he fun hnil => hne (by rw [hnil, List.append_nil]))
  · obtain ⟨outer, houter, hpair⟩ := List.mem_map.1 hd
    cases hpair
    obtain ⟨hfront, hne⟩ := mem_above_iff.1 houter
    exact hbare.outside outer hfront hne

omit hw in
/-- A user without an ignore file has no rules. -/
theorem userRules_eq_nil : userRules w = [] := by
  unfold userRules
  split
  · rfl
  · next path hpath =>
    rw [readRuleFile_of_not_exists (hbare.user path hpath)]
    rfl

/-- Where no file has rules, none decides. -/
theorem ignoreDecision?_eq_none (he : w.tree.entry? (r.location ++ names) = some e)
    (isDirectory : Bool) : ignoreDecision? w r names isDirectory = none := by
  unfold ignoreDecision?
  extract_lets levels decided isInside inRepository ofUser
  have hlevel : ∀ level ∈ levels, level.decide? (·.ignore) isDirectory = none ∧
      level.decide? (·.gitIgnore) isDirectory = none ∧
      level.decide? (·.gitExclude) isDirectory = none := by
    refine List.forall_mem_map.2 fun p hp => ?_
    obtain ⟨hignore, hgit, hexclude⟩ :=
      (unruled_of_mem_directories hw hbare he hp).localRules
    simp only [Level.decide?, hignore, hgit, hexclude]
    exact ⟨rfl, rfl, rfl⟩
  have hinside : ∀ level ∈ inRepository, level ∈ levels := by
    intro level hmem
    dsimp only [inRepository] at hmem
    split at hmem
    · exact mem_of_mem_upToRepository hmem
    · cases hmem
  have huser : ofUser = none := by
    dsimp only [ofUser]
    rw [userRules_eq_nil hbare]
    exact ite_self none
  rw [Option.or_eq_none_iff, Option.or_eq_none_iff, Option.or_eq_none_iff,
    List.findSome?_eq_none_iff, List.findSome?_eq_none_iff, List.findSome?_eq_none_iff]
  exact ⟨fun level h => (hlevel level h).1, fun level h => (hlevel level (hinside level h)).2.1,
    fun level h => (hlevel level (hinside level h)).2.2, huser⟩

/-- Without globs and rules an entry is filtered out only as a folder with an excluded name. -/
theorem isFiltered_eq (he : w.tree.entry? (r.location ++ names) = some e) (excludes : List String)
    (isDirectory : Bool) : isFiltered w [] excludes r names isDirectory =
      (isDirectory && names.getLast?.any (isExcluded excludes)) := by
  have hglobs : globDecision? r.path [] (withoutDot (r.pathTo names)) isDirectory = none := by
    cases isDirectory <;> rfl
  rw [isFiltered, hglobs, ignoreDecision?_eq_none hw hbare he]
  exact Bool.or_false _

end

/-! ## Going down -/

/-- The names by which a walk comes from a directory below a root to what it lists: through
directories that are not filtered out and can be opened, to something that is no directory and is
not filtered out. -/
inductive Reaches (w : Workspace) (globs : List Rule) (excludes : List String) (r : Root) :
    List String → List String → Prop
  | leaf {names : List String} {name : String} {e : Entry}
      (hchild : (name, e) ∈ w.tree.children (r.location ++ names)) (hleaf : e ≠ .directory)
      (hkept : isFiltered w globs excludes r (names ++ [name]) false = false) :
      Reaches w globs excludes r names [name]
  | through {names rest : List String} {name : String}
      (hchild : (name, .directory) ∈ w.tree.children (r.location ++ names))
      (hkept : isFiltered w globs excludes r (names ++ [name]) true = false)
      (hopen : Tree.openFault? (r.pathTo (names ++ [name])) = none)
      (hrest : Reaches w globs excludes r (names ++ [name]) rest) :
      Reaches w globs excludes r names (name :: rest)

/-- Different names lead from a root by paths with different parts. -/
theorem Root.names_eq_of_parts {r : Root} (hpath : r.path ≠ "") {names names' : List String}
    (hnames : ∀ name ∈ names, Tree.isEntryName name = true)
    (hnames' : ∀ name ∈ names', Tree.isEntryName name = true)
    (h : Path.parts (r.pathTo names) = Path.parts (r.pathTo names')) : names = names' := by
  rw [Root.pathTo, Root.pathTo, parts_foldl_join hpath hnames, parts_foldl_join hpath hnames'] at h
  exact List.map_injective_iff.2 (fun _ _ => Path.Part.name.inj) (List.append_cancel_left h)

section
variable {w : Workspace} {globs : List Rule} {excludes : List String} {r : Root}
  {names rest : List String}

/-- What a walk comes to is an entry of the tree. -/
theorem Reaches.exists_mem (h : Reaches w globs excludes r names rest) :
    rest ≠ [] ∧ ∃ e, (r.location ++ (names ++ rest), e) ∈ w.tree.entries ∧ e ≠ .directory := by
  induction h with
  | @leaf names name e hchild hleaf _ =>
    rw [Tree.mem_children_iff, List.append_assoc] at hchild
    exact ⟨List.cons_ne_nil _ _, e, hchild, hleaf⟩
  | through _ _ _ _ ih =>
    obtain ⟨-, e, hmem, hleaf⟩ := ih
    rw [List.append_assoc, List.singleton_append] at hmem
    exact ⟨List.cons_ne_nil _ _, e, hmem, hleaf⟩

/-- A walk does not go deeper than the tree. -/
theorem Reaches.length_le (h : Reaches w globs excludes r names rest) :
    rest.length ≤ w.tree.depth := by
  obtain ⟨-, e, hmem, -⟩ := h.exists_mem
  have hdepth := Tree.length_le_depth hmem
  rw [List.length_append, List.length_append] at hdepth
  omega

/-- The names on the way of a walk can stand in paths. -/
theorem Reaches.isEntryName (h : Reaches w globs excludes r names rest)
    (hw : w.tree.WellFormed) : ∀ name ∈ names ++ rest, Tree.isEntryName name = true := by
  obtain ⟨-, e, hmem, -⟩ := h.exists_mem
  exact fun name hname => (hw _ hmem).2 name (List.mem_append_right _ hname)

/-- What a walk does with an entry of a directory, when it can go on for some levels. -/
def visit (w : Workspace) (globs : List Rule) (excludes : List String) (r : Root) (levels : Nat)
    (names : List String) (child : String × Entry) : Found :=
  if isFiltered w globs excludes r (names ++ [child.1]) (child.2 == .directory) then {}
  else if child.2 != .directory then { paths := [r.pathTo (names ++ [child.1])] }
  else
    match Tree.openFault? (r.pathTo (names ++ [child.1])) with
    | some fault => { faults := [walkError (r.pathTo (names ++ [child.1])) fault] }
    | none => descend w globs excludes r levels (names ++ [child.1])

/-- One level down, all children are visited. -/
theorem descend_succ (levels : Nat) : descend w globs excludes r (levels + 1) names =
    Found.join ((w.tree.children (r.location ++ names)).map
      (visit w globs excludes r levels names)) :=
  rfl

/-- What is listed at or below an entry is come to by way of it, if that holds one level below. -/
theorem exists_of_mem_visit {levels : Nat} {child : String × Entry} {path : String}
    (ih : ∀ {names}, path ∈ (descend w globs excludes r levels names).paths →
      ∃ rest, Reaches w globs excludes r names rest ∧ path = r.pathTo (names ++ rest))
    (hchild : child ∈ w.tree.children (r.location ++ names))
    (h : path ∈ (visit w globs excludes r levels names child).paths) :
    ∃ rest, Reaches w globs excludes r names (child.1 :: rest) ∧
      path = r.pathTo (names ++ child.1 :: rest) := by
  obtain ⟨name, e⟩ := child
  unfold visit at h
  dsimp only at h ⊢
  split at h
  · cases h
  · next hkept =>
    rw [Bool.not_eq_true] at hkept
    split at h
    · next hleaf =>
      obtain rfl := List.mem_singleton.1 h
      rw [bne_iff_ne] at hleaf
      rw [beq_eq_false_iff_ne.2 hleaf] at hkept
      exact ⟨[], .leaf hchild hleaf hkept, rfl⟩
    · next hdirectory =>
      obtain rfl : e = .directory := by simpa using hdirectory
      split at h
      · cases h
      · next hopen =>
        obtain ⟨rest, hrest, rfl⟩ := ih h
        refine ⟨rest, .through hchild hkept hopen hrest, ?_⟩
        rw [List.append_assoc, List.singleton_append]

/-- Whatever a walk lists, it comes to. -/
theorem exists_of_mem_descend {levels : Nat} {path : String}
    (h : path ∈ (descend w globs excludes r levels names).paths) :
    ∃ rest, Reaches w globs excludes r names rest ∧ path = r.pathTo (names ++ rest) := by
  induction levels generalizing names with
  | zero => cases h
  | succ levels ih =>
    rw [descend_succ] at h
    obtain ⟨found, hfound, hpath⟩ := List.mem_flatMap.1 h
    obtain ⟨child, hchild, rfl⟩ := List.mem_map.1 hfound
    obtain ⟨rest, hrest, hpath⟩ := exists_of_mem_visit ih hchild hpath
    exact ⟨child.1 :: rest, hrest, hpath⟩

/-- Whatever a walk comes to within the given number of levels, it lists. -/
theorem Reaches.mem_descend (h : Reaches w globs excludes r names rest) {levels : Nat}
    (hlevels : rest.length ≤ levels) :
    r.pathTo (names ++ rest) ∈ (descend w globs excludes r levels names).paths := by
  induction h generalizing levels with
  | @leaf names name e hchild hleaf hkept =>
    obtain ⟨levels, rfl⟩ := Nat.exists_eq_add_one.2 (Nat.lt_of_lt_of_le Nat.one_pos hlevels)
    refine List.mem_flatMap.2 ⟨_, List.mem_map_of_mem hchild, ?_⟩
    have hkind : (e == Entry.directory) = false := beq_eq_false_iff_ne.2 hleaf
    simp [bne, hkind, hkept]
  | @through names rest name hchild hkept hopen _ ih =>
    rw [List.length_cons] at hlevels
    obtain ⟨levels, rfl⟩ := Nat.exists_eq_add_one.2 (Nat.lt_of_lt_of_le (Nat.succ_pos _) hlevels)
    refine List.mem_flatMap.2 ⟨_, List.mem_map_of_mem hchild, ?_⟩
    have hbelow := ih (Nat.le_of_succ_le_succ hlevels)
    rw [List.append_assoc, List.singleton_append] at hbelow
    simp [hkept, hopen, hbelow]

/-- A walk that can go as deep as the tree lists exactly what it comes to. -/
theorem mem_descend_depth_iff {path : String} :
    path ∈ (descend w globs excludes r w.tree.depth []).paths ↔
      ∃ names, path = r.pathTo names ∧ Reaches w globs excludes r [] names := by
  constructor
  · intro h
    obtain ⟨names, hreaches, hpath⟩ := exists_of_mem_descend h
    exact ⟨names, hpath, hreaches⟩
  · rintro ⟨names, rfl, hreaches⟩
    exact hreaches.mem_descend hreaches.length_le

/-- A walk lists no path twice: names that differ give paths with different parts. -/
theorem nodup_parts_descend (hw : w.tree.WellFormed) (hkeyed : w.tree.Keyed) (hpath : r.path ≠ "")
    (levels : Nat) (names : List String) :
    ((descend w globs excludes r levels names).paths.map Path.parts).Nodup := by
  induction levels generalizing names with
  | zero => exact .nil
  | succ levels ih =>
    have hchildren := List.pairwise_map.1 (hkeyed.nodup_children (r.location ++ names))
    rw [descend_succ, Found.join, List.flatMap_map, List.map_flatMap]
    refine List.nodup_flatMap.2 ⟨fun child _ => ?_, ?_⟩
    · unfold visit
      split
      · exact .nil
      · split
        · exact List.nodup_singleton _
        · split
          · exact .nil
          · exact ih _
    · refine List.Pairwise.imp_of_mem ?_ hchildren
      intro a b ha hb hne
      refine List.disjoint_left.2 fun parts hfirst hsecond => ?_
      obtain ⟨path, hmem, rfl⟩ := List.mem_map.1 hfirst
      obtain ⟨path', hmem', hsame⟩ := List.mem_map.1 hsecond
      obtain ⟨rest, hreaches, rfl⟩ := exists_of_mem_visit exists_of_mem_descend ha hmem
      obtain ⟨rest', hreaches', rfl⟩ := exists_of_mem_visit exists_of_mem_descend hb hmem'
      have hnames := Root.names_eq_of_parts hpath (hreaches'.isEntryName hw)
        (hreaches.isEntryName hw) hsame
      exact hne (List.cons.inj (List.append_cancel_left hnames)).1.symm

end

/-! ## What is listed -/

/-- What a walk lists below a root where no file has rules: what is no directory, has one of the
extensions, and has no folder strictly between it and the root that is excluded. A link is listed as
itself, and nothing is below it. -/
structure Listed (w : Workspace) (o : Options) (r : Root) (names : List String) : Prop where
  leaf : ∃ e, w.tree.entry? (r.location ++ names) = some e ∧ e ≠ .directory
  extension : Path.hasExtension o.extensions (r.pathTo names) = true
  walked : ∀ inner name rest, names = inner ++ name :: rest → rest ≠ [] → ¬ o.Excludes name

section
variable {w : Workspace} (hw : w.tree.WellFormed) (hkeyed : w.tree.Keyed) {o : Options} {r : Root}
include hw hkeyed

section
variable (hbare : Bare w r)
  (hopen : ∀ inner, w.tree.entry? (r.location ++ inner) = some .directory →
    Tree.openFault? (r.pathTo inner) = none)
include hbare

/-- A walk only goes through folders that are not excluded. -/
theorem Reaches.not_excludes {names rest : List String}
    (h : Reaches w [] o.excludes r names rest) :
    ∀ inner name tail, rest = inner ++ name :: tail → tail ≠ [] → ¬ o.Excludes name := by
  induction h with
  | leaf =>
    intro inner name tail hsplit htail
    have hlength := congrArg List.length hsplit
    have := List.length_pos_of_ne_nil htail
    rw [List.length_singleton, List.length_append, List.length_cons] at hlength
    omega
  | @through names rest name hchild hkept _ _ ih =>
    intro inner folder tail hsplit htail
    cases inner with
    | nil =>
      obtain ⟨rfl, -⟩ := List.cons.inj hsplit
      rw [hkeyed.mem_children_iff, List.append_assoc] at hchild
      rw [isFiltered_eq hw hbare hchild, List.getLast?_concat, Option.any_some, Bool.true_and,
        ← Bool.not_eq_true, isExcluded_iff] at hkept
      exact hkept
    | cons first inner => exact ih inner folder tail (List.cons.inj hsplit).2 htail

include hopen

/-- A walk comes to whatever lies below folders that are not excluded. -/
theorem reaches_of_walked {names rest : List String} {e : Entry} (hrest : rest ≠ [])
    (hentry : w.tree.entry? (r.location ++ (names ++ rest)) = some e) (hleaf : e ≠ .directory)
    (hwalked : ∀ inner name tail, rest = inner ++ name :: tail → tail ≠ [] → ¬ o.Excludes name) :
    Reaches w [] o.excludes r names rest := by
  induction rest generalizing names with
  | nil => exact absurd rfl hrest
  | cons name rest ih =>
    by_cases hnil : rest = []
    · subst hnil
      refine .leaf (hkeyed.mem_children_iff.2 ?_) hleaf ?_
      · rw [List.append_assoc]
        exact hentry
      · rw [isFiltered_eq hw hbare hentry, Bool.false_and]
    · rw [List.append_cons] at hentry
      -- the folder on the way is a directory, because something lies below it
      have hfolder : w.tree.entry? (r.location ++ (names ++ [name])) = some .directory := by
        rw [← List.append_assoc] at hentry
        exact hw.above hentry hnil
      refine .through (hkeyed.mem_children_iff.2 ?_) ?_ (hopen _ hfolder)
        (ih hnil hentry fun inner folder tail hsplit =>
          hwalked (name :: inner) folder tail (by rw [hsplit, List.cons_append]))
      · rw [List.append_assoc]
        exact hfolder
      · rw [isFiltered_eq hw hbare hfolder, List.getLast?_concat, Option.any_some, Bool.true_and,
          ← Bool.not_eq_true, isExcluded_iff]
        exact hwalked [] name rest rfl hnil

/-- The walk below the root lists what is to be listed. -/
theorem mem_paths_walkBelow_iff (hroot : w.tree.entry? r.location = some .directory)
    {path : String} : path ∈ (walkBelow w [] o r false).paths ↔
      ∃ names, path = r.pathTo names ∧ Listed w o r names := by
  rw [walkBelow, Path.sort, List.mem_mergeSort]
  simp only [Bool.false_eq_true, if_false, List.nil_append, List.mem_filter, mem_descend_depth_iff]
  constructor
  · rintro ⟨⟨names, rfl, hreaches⟩, hextension⟩
    obtain ⟨hne, e, hmem, hleaf⟩ := hreaches.exists_mem
    have hentry := (hkeyed.mem_iff (List.append_ne_nil_of_right_ne_nil _ hne)).1 hmem
    exact ⟨names, rfl, ⟨e, hentry, hleaf⟩, hextension, hreaches.not_excludes hw hkeyed hbare⟩
  · rintro ⟨names, rfl, ⟨e, hentry, hleaf⟩, hextension, hwalked⟩
    have hne : names ≠ [] := by
      rintro rfl
      rw [List.append_nil, hroot] at hentry
      exact hleaf (Option.some.inj hentry).symm
    exact ⟨⟨names, rfl, reaches_of_walked hw hkeyed hbare hopen hne hentry hleaf hwalked⟩,
      hextension⟩

end

/-- Different entries have different paths, so a walk goes strictly upward. -/
theorem pairwise_before_walkBelow (hpath : r.path ≠ "") (globs : List Rule) :
    (walkBelow w globs o r false).paths.Pairwise Path.Before := by
  refine Path.pairwise_before_sort ?_
  simp only [Bool.false_eq_true, if_false, List.nil_append]
  exact (nodup_parts_descend hw hkeyed hpath _ _).sublist (List.filter_sublist.map Path.parts)

end

/-- Below a directory that is no link, where neither the directories nor the user have ignore files,
and without globs, exactly what is listed below the directory is collected, strictly in the order of
paths. The path of the directory must not stand for the standard input, and it must be possible to
open every directory below. -/
theorem collect_lists (w : Workspace) (hw : w.tree.WellFormed) (hkeyed : w.tree.Keyed)
    (o : Options) (honly : o.only = []) (hskip : o.skip = []) (r : Root)
    (hroot : w.tree.findItself w.cwd r.path = .ok (r.location, .directory)) (hbare : Bare w r)
    (hinput : isStandardInput r.path = false)
    (hopen : ∀ inner, w.tree.entry? (r.location ++ inner) = some .directory →
      Tree.openFault? (r.pathTo inner) = none) :
    ∃ found, collect w o r.path = .ok found ∧ found.paths.Pairwise Path.Before ∧
      ∀ path, path ∈ found.paths ↔ ∃ names, path = r.pathTo names ∧ Listed w o r names := by
  have hglobs : o.globs = .ok [] := by
    rw [Options.globs, honly, hskip]
    rfl
  -- the root is a directory and not a link to one, so it is not listed itself
  have hfind : w.find r.path = .ok (r.location, .directory) :=
    Tree.find_of_findItself hroot fun target => Entry.noConfusion
  unfold collect
  rw [hglobs]
  dsimp only
  rw [hinput, hroot, hfind]
  exact ⟨_, rfl, pairwise_before_walkBelow hw hkeyed (Tree.ne_empty_of_find hfind) [],
    fun path => mem_paths_walkBelow_iff hw hkeyed hbare hopen (Tree.entry?_of_find hfind)⟩

/-- A directory with a file, a link to it and an excluded folder. -/
def site : Workspace where
  tree.entries := [(["web"], .directory), (["web", "a.js"], .file []),
    (["web", "b.js"], .link "a.js"), (["web", "dist"], .directory),
    (["web", "dist", "c.js"], .file [])]

/-- The directories of the site. -/
theorem entry_site {inner : List String}
    (h : site.tree.entry? (["web"] ++ inner) = some .directory) :
    inner = [] ∨ inner = ["dist"] := by
  have hkeyed : site.tree.Keyed := by decide
  simpa [site] using (hkeyed.mem_iff (by simp)).2 h

theorem find_site : site.find "web" = .ok (["web"], .directory) ∧
    site.find "web/dist" = .ok (["web", "dist"], .directory) := by
  have hdist : site.tree.Leads false 40 ["web"] ["dist"] ⟨["web", "dist"], some .directory⟩ :=
    .enter rfl ⟨rfl, rfl, rfl, by decide⟩ rfl (by simp) .done
  have hroot : site.tree.Leads false 40 [] ["web"] ⟨["web"], some .directory⟩ :=
    .enter rfl ⟨rfl, rfl, rfl, by decide⟩ rfl (by simp) .done
  have hboth : site.tree.Leads false 40 [] ["web", "dist"] ⟨["web", "dist"], some .directory⟩ :=
    .enter rfl ⟨rfl, rfl, rfl, by decide⟩ rfl (by simp) hdist
  exact ⟨Tree.find_of_target (by decide) hroot.follow_eq,
    Tree.find_of_target (by decide) hboth.follow_eq⟩

/-- No ignore file rules the site. -/
theorem bare_site : Bare site ⟨"web", ["web"]⟩ := by
  refine ⟨by simp [site], fun inner hinner => ?_, fun d hfront hne => ?_⟩
  · rcases entry_site hinner with rfl | rfl
    · exact unruled_of_absent find_site.1 (by decide)
    · exact unruled_of_absent find_site.2 (by decide)
  · obtain rfl : d = [] := by
      rcases List.prefix_cons_iff.1 hfront with rfl | ⟨rest, rfl, hrest⟩
      · rfl
      · exact absurd (by rw [List.prefix_nil.1 hrest]) hne
    have htop : site.tree.Leads false 40 [] ["", ""] ⟨[], some .directory⟩ :=
      .idle rfl rfl (.idle rfl rfl .done)
    exact unruled_of_absent (Tree.find_of_target (by decide) htop.follow_eq) (by decide)

/-- The file and the link are collected, and what lies in the excluded folder is not. -/
theorem collect_lists_site :
    ∃ found, collect site { extensions := ["js"] } "web" = .ok found ∧
      "web/a.js" ∈ found.paths ∧ "web/b.js" ∈ found.paths ∧ "web/dist/c.js" ∉ found.paths := by
  have hroot : site.tree.findItself site.cwd "web" = .ok (["web"], .directory) := by
    have hpieces : Path.pieces "web" = [] ++ ["web"] := by decide +kernel
    have hfront : site.tree.Leads false 40 [] [] ⟨[], some .directory⟩ := .done
    exact Tree.findItself_of_leads (by decide) hpieces (by decide) (by decide) hfront rfl
  have hopen : ∀ inner, site.tree.entry? (["web"] ++ inner) = some .directory →
      Tree.openFault? (Root.pathTo ⟨"web", ["web"]⟩ inner) = none := by
    intro inner hinner
    rcases entry_site hinner with rfl | rfl <;> decide +kernel
  obtain ⟨found, hcollect, -, hmem⟩ := collect_lists site (by decide) (by decide)
    { extensions := ["js"] } rfl rfl ⟨"web", ["web"]⟩ hroot bare_site (by decide +kernel) hopen
  have hlisted : ∀ name ∈ ["a.js", "b.js"],
      Listed site { extensions := ["js"] } ⟨"web", ["web"]⟩ [name] := by
    have hextension : ∀ name ∈ ["a.js", "b.js"],
        Path.hasExtension ["js"] (Path.join "web" name) = true := by
      decide +kernel
    intro name hname
    refine ⟨?_, hextension name hname, fun inner _ rest hsplit hrest => absurd hsplit ?_⟩
    · rcases List.mem_pair.1 hname with rfl | rfl <;> exact ⟨_, rfl, by decide⟩
    · obtain ⟨last, rest, rfl⟩ := List.exists_cons_of_ne_nil hrest
      cases inner <;> simp
  refine ⟨found, hcollect, ?_, ?_, fun hfound => ?_⟩
  · exact (hmem _).2 ⟨["a.js"], by decide +kernel, hlisted _ (by simp)⟩
  · exact (hmem _).2 ⟨["b.js"], by decide +kernel, hlisted _ (by simp)⟩
  · obtain ⟨names, hpath, hnames⟩ := (hmem _).1 hfound
    obtain ⟨e, hentry, -⟩ := hnames.leaf
    have hwell : site.tree.WellFormed := by decide
    have hvalid := fun name hname => (hwell.of_entry hentry).2 name (List.mem_append_right _ hname)
    have hparts : Path.parts (Root.pathTo ⟨"web", ["web"]⟩ names) =
        Path.parts (Root.pathTo ⟨"web", ["web"]⟩ ["dist", "c.js"]) := by
      rw [← hpath]
      decide +kernel
    obtain rfl := Root.names_eq_of_parts (by decide) hvalid (by decide +kernel) hparts
    exact hnames.walked [] "dist" ["c.js"] rfl (by simp)
      ⟨"dist", .inr (by decide), by simp, .same (by decide)⟩

end LogSweep.Walk
