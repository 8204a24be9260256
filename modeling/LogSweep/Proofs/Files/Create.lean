import LogSweep.Proofs.Files.Joined

/-!
# Creating a file

A file that is created is one more entry (`entry?_put_of_none`), so whatever was found is found as
before (`find_grow`), and the new file by the path that created it (`write_join`). In a well-formed
tree the absolute path of a name in a directory leads to where the name leads from there
(`WellFormed.target_absolutePath`), as long as no name is too long to be looked up.
-/

namespace LogSweep.Files

namespace Tree

/-! ## One more entry -/

section
variable {t : Tree} {location : Location} (h : t.entry? location = none) (e : Entry)
include h

/-- Where there is no entry, none is found in the table. -/
theorem lookup_eq_none : location ≠ [] ∧ t.entries.lookup location = none := by
  have hne : location ≠ [] := by
    rintro rfl
    cases h
  exact ⟨hne, by simpa [ entry?, hne] using h⟩

/-- A new entry is put at the end of the table. -/
theorem entries_put_of_none : (t.put location e).entries = t.entries ++ [(location, e)] := by
  rw [put, (lookup_eq_none h).2]
  rfl

/-- Putting an entry where there is none adds it, and changes nothing else. -/
theorem entry?_put_of_none (l : Location) :
    Tree.entry? (t.put location e) l = if l = location then some e else t.entry? l := by
  obtain ⟨hne, hlookup⟩ := lookup_eq_none h
  rw [ entry?, entries_put_of_none h, List.lookup_append]
  by_cases hl : l = location
  · subst hl
    simp [hne, hlookup]
  · have hbeq : (l == location) = false := beq_eq_false_iff_ne.2 hl
    rw [if_neg hl, List.lookup_cons, hbeq, List.lookup_nil, Option.or_none]
    rfl

end

/-- A tree has the entries of another. -/
def Grows (t t' : Tree) : Prop :=
  ∀ location e, t.entry? location = some e → t'.entry? location = some e

/-- A tree grows by a new entry. -/
theorem grows_put {t : Tree} {location : Location} (h : t.entry? location = none) (e : Entry) :
    Grows t (t.put location e) := by
  intro l old hold
  rw [entry?_put_of_none h, if_neg (fun heq => by rw [heq, h] at hold; cases hold), hold]

section
variable {t t' : Tree} {links : Nat} {here cwd location : Location} {pieces : List String}
  {x : Target} {e : Entry} {path : String}

/-- What a path leads to in a tree it leads to when the tree grows. -/
theorem Leads.grow (hgrows : Grows t t') (h : Leads t false links here pieces x)
    (hsome : x.entry = some e) : Leads t' false links here pieces x := by
  induction h with
  | @done _ here =>
    have hsame : t.entry? here = t'.entry? here := hsome.trans (hgrows _ _ hsome).symm
    rw [hsame]
    exact .done
  | idle hdir hpiece _ ih => exact .idle (hgrows _ _ hdir) hpiece (ih hsome)
  | up hdir hpiece hup _ ih => exact .up (hgrows _ _ hdir) hpiece hup (ih hsome)
  | missing => cases hsome
  | link hdir hlooked hentry _ ih =>
    exact .link (hgrows _ _ hdir) hlooked (hgrows _ _ hentry) (ih hsome)
  | enter hdir hlooked hentry hlink _ ih =>
    exact .enter (hgrows _ _ hdir) hlooked (hgrows _ _ hentry) hlink (ih hsome)

/-- What is found in a tree is found when the tree grows. -/
theorem find_grow (hgrows : Grows t t') (h : t.find cwd path = .ok (location, e)) :
    t'.find cwd path = .ok (location, e) :=
  find_of_target (find_eq_ok_iff.1 h).1 ((leads_of_find h).grow hgrows rfl).follow_eq

end

/-! ## Creating a file in a directory -/

section
variable {t t' : Tree} {cwd top : Location} {path name : String} {content : Bytes}
  (hdir : t.find cwd path = .ok (top, .directory)) (hname : isEntryName name = true)
include hdir hname

/-- A name that is joined to the path of a directory finds what the directory has under it. -/
theorem find_join {e : Entry} (hshort : ¬ nameLimit < name.utf8ByteSize)
    (hentry : t.entry? (top ++ [name]) = some e) (hlink : ∀ target, e ≠ .link target)
    (hopen : openFault? (Path.join path name) = none) :
    t.find cwd (Path.join path name) = .ok (top ++ [name], e) := by
  have hlooked := looked_of_isEntryName hname hshort []
  have htop : t.entry? top = some .directory := entry?_of_find hdir
  have hrest : ∀ links, Leads t false links top [name] ⟨top ++ [name], some e⟩ := fun links => by
    rw [← hentry]
    exact .enter htop hlooked hentry hlink .done
  have hnames : ∀ n ∈ [name], isEntryName n = true := List.forall_mem_singleton.2 hname
  exact find_of_target hopen (target_foldl_join hdir hnames (List.cons_ne_nil _ _) hrest)

/-- A name that a directory does not have can be written. -/
theorem write_join_of_none (hshort : ¬ nameLimit < name.utf8ByteSize)
    (hnone : t.entry? (top ++ [name]) = none) (hopen : openFault? (Path.join path name) = none) :
    t.write cwd (Path.join path name) content = .ok (t.put (top ++ [name]) (.file content)) := by
  have hlooked := looked_of_isEntryName hname hshort []
  have htop : t.entry? top = some .directory := entry?_of_find hdir
  have hnames : ∀ n ∈ [name], isEntryName n = true := List.forall_mem_singleton.2 hname
  have hreads := leads_of_follow (target_foldl_join hdir hnames (List.cons_ne_nil _ _)
    fun _ => .missing htop hlooked hnone)
  have htarget : t.target true cwd (Path.join path name) = .ok ⟨top ++ [name], none⟩ :=
    (hreads.writes (by simp)).follow_eq
  rw [write, hopen, htarget]

/-- Writing by a name that the directory does not have creates a file there. -/
theorem write_join (hnone : t.entry? (top ++ [name]) = none) {refusal : Option Fault}
    (h : t.write cwd (Path.join path name) content refusal = .ok t') :
    t' = t.put (top ++ [name]) (.file content) ∧
      t'.find cwd (Path.join path name) = .ok (top ++ [name], .file content) := by
  have hnames : ∀ n ∈ [name], isEntryName n = true := List.forall_mem_singleton.2 hname
  obtain ⟨hempty, hdot, hdots, -⟩ := isEntryName_iff.1 hname
  obtain ⟨rfl, hopen, x, htarget⟩ := exists_target_of_write h
  obtain ⟨front, hpieces, hfront⟩ := leads_front hdir hnames (List.cons_ne_nil _ _)
  have hwhole := (leads_of_follow htarget).reads
  rw [show Path.join path name = [name].foldl Path.join path from rfl, hpieces] at hwhole
  obtain ⟨left, -, hlast⟩ := hfront.split rfl hwhole
  -- nothing is there, so the last step comes to a missing entry
  have hmissing : x = ⟨top ++ [name], none⟩ ∧ ¬ nameLimit < name.utf8ByteSize := by
    cases hlast with
    | idle _ hpiece => simp [hempty, hdot] at hpiece
    | up _ _ hup => simp [hdots] at hup
    | missing _ hlooked => exact ⟨rfl, hlooked.short⟩
    | link _ _ hentry | enter _ _ hentry =>
      rw [hnone] at hentry
      cases hentry
  obtain ⟨rfl, hshort⟩ := hmissing
  have hput : t' = t.put (top ++ [name]) (.file content) := by
    rw [write, hopen, htarget] at h
    exact (Except.ok.inj h).symm
  have hgrows : Grows t t' := hput ▸ grows_put hnone (.file content)
  refine ⟨hput, find_join (find_grow hgrows hdir) hname hshort ?_ (by simp) hopen⟩
  rw [hput, entry?_put_of_none hnone, if_pos rfl]

end

/-- The names of a directory lead to it, and on from there. -/
theorem WellFormed.leads_through {t : Tree} (hw : WellFormed t) {links : Nat}
    {here names : Location} {rest : List String} {x : Target}
    (hdir : t.entry? (here ++ names) = some .directory)
    (hshort : ∀ name ∈ names, ¬ nameLimit < name.utf8ByteSize)
    (hrest : Leads t false links (here ++ names) rest x) :
    Leads t false links here (names ++ rest) x := by
  induction names generalizing here with
  | nil =>
    rw [List.append_nil] at hrest
    exact hrest
  | cons name names ih =>
    obtain ⟨hfirst, hothers⟩ := List.forall_mem_cons.1 hshort
    have hlooked := looked_of_isEntryName ((hw.of_entry hdir).2 name (by simp)) hfirst
      (names ++ rest)
    have hhere := hw.above hdir (List.cons_ne_nil _ _)
    rw [List.append_cons] at hdir hrest
    have hname : t.entry? (here ++ [name]) = some .directory := by
      by_cases hnil : names = []
      · rwa [hnil, List.append_nil] at hdir
      · exact hw.above hdir hnil
    exact .enter hhere hlooked hname (by simp) (ih hdir hothers hrest)

/-- The absolute path of a name in a directory leads to where the name leads from there. -/
theorem WellFormed.target_absolutePath {t : Tree} (hw : WellFormed t) {location : Location}
    {name : String} {x : Target} (hdir : t.entry? location = some .directory)
    (hshort : ∀ n ∈ location, ¬ nameLimit < n.utf8ByteSize) (hname : isEntryName name = true)
    (hlast : Leads t false linkLimit location [name] x) (cwd : Location) :
    t.target false cwd (absolutePath (location ++ [name])) = .ok x := by
  have hnames : ∀ n ∈ location ++ [name], isEntryName n = true :=
    List.forall_mem_append.2 ⟨(hw.of_entry hdir).2, List.forall_mem_singleton.2 hname⟩
  have hwhole : Leads t false linkLimit [] (location ++ [name]) x :=
    hw.leads_through hdir hshort hlast
  rw [target, isAbsolute_absolutePath, pieces_absolutePath (by simp) hnames]
  exact (Leads.idle rfl rfl hwhole).follow_eq

/-- A tree with one more file in a directory is well-formed. -/
theorem WellFormed.put_file {t : Tree} (hw : WellFormed t) {top : Location} {name : String}
    (hdir : t.entry? top = some .directory) (hname : isEntryName name = true)
    (hnone : t.entry? (top ++ [name]) = none) (content : Bytes) :
    WellFormed (t.put (top ++ [name]) (.file content)) := by
  have hgrows : Grows t _ := grows_put hnone (.file content)
  intro p hp
  rw [entries_put_of_none hnone] at hp
  rcases List.mem_append.1 hp with hp | hp
  · exact ⟨hgrows _ _ (hw p hp).1, (hw p hp).2⟩
  · obtain rfl := List.mem_singleton.1 hp
    rw [List.dropLast_concat]
    exact ⟨hgrows _ _ hdir,
      List.forall_mem_append.2 ⟨(hw.of_entry hdir).2, List.forall_mem_singleton.2 hname⟩⟩

end Tree

/-- A path is spelled by its pieces. -/
theorem pieces_injective {a b : String} (h : Path.pieces a = Path.pieces b) : a = b := by
  have hsplit : a.toList.splitOn '/' = b.toList.splitOn '/' :=
    (List.map_inj_right fun _ _ => String.ofList_inj.1).1 h
  have htext := congrArg ['/'].intercalate hsplit
  rw [List.intercalate_splitOn, List.intercalate_splitOn] at htext
  exact String.toList_inj.1 htext

/-- Different locations have different absolute paths. -/
theorem absolutePath_injective {a b : Location} (ha : a ≠ []) (hb : b ≠ [])
    (hnames : ∀ name ∈ a, Tree.isEntryName name = true)
    (hnames' : ∀ name ∈ b, Tree.isEntryName name = true) (h : absolutePath a = absolutePath b) :
    a = b := by
  have hpieces := congrArg Path.pieces h
  rw [Tree.pieces_absolutePath ha hnames, Tree.pieces_absolutePath hb hnames'] at hpieces
  exact (List.cons.inj hpieces).2

/-- A name that is joined to the absolute path of a location gives the absolute path below it. -/
theorem join_absolutePath {location : Location} {name : String}
    (hnames : ∀ n ∈ location, Tree.isEntryName n = true) (hname : Tree.isEntryName name = true) :
    Path.join (absolutePath location) name = absolutePath (location ++ [name]) := by
  by_cases hnil : location = []
  · subst hnil
    have hslash : (absolutePath []).toList.getLast? = some '/' := by decide +kernel
    rw [Path.join, isAbsolute_of_isEntryName hname]
    simp only [hslash, beq_self_eq_true, Bool.or_true, if_true, Bool.false_eq_true, if_false]
    rfl
  · refine pieces_injective ?_
    have hbelow : ∀ n ∈ location ++ [name], Tree.isEntryName n = true :=
      List.forall_mem_append.2 ⟨hnames, List.forall_mem_singleton.2 hname⟩
    have hpath : absolutePath location ≠ "" := by
      intro hempty
      have habsolute := Tree.isAbsolute_absolutePath location
      rw [hempty] at habsolute
      cases habsolute
    have hlast : (Path.pieces (absolutePath location)).getLast? ≠ some "" := by
      rw [Tree.pieces_absolutePath hnil hnames, List.getLast?_cons_of_ne_nil hnil]
      exact fun hlast =>
        (isEntryName_iff.1 (hnames "" (List.mem_of_getLast? hlast))).1 rfl
    have hpieces : Path.pieces ([name].foldl Path.join (absolutePath location)) =
        Path.pieces (absolutePath location) ++ [name] :=
      pieces_foldl_join_append hpath (List.forall_mem_singleton.2 hname) hlast
    rw [Tree.pieces_absolutePath (by simp) hbelow]
    rw [Tree.pieces_absolutePath hnil hnames] at hpieces
    exact hpieces

end LogSweep.Files
