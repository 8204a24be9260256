import LogSweep.Proofs.Files.Tree

/-!
# Where joined paths lead

A path with names joined to it has the pieces of the path and then the names, up to a slash at the
end of the path (`pieces_foldl_join`); its parts are those of the path and then the names
(`parts_foldl_join`). What leads to a directory leads on from there: following a path and then more
of it is following the whole (`Leads.append`, `Leads.split`). So names that are joined to the path
of a directory lead to where they lead from the directory (`target_foldl_join`,
`leads_of_find_foldl_join`).
-/

namespace LogSweep.Files

open LogSweep.Files.Tree

/-! ## The text of joined paths -/

section
variable {name : String}

/-- The names that entries can have. -/
theorem isEntryName_iff : isEntryName name = true ↔
    name ≠ "" ∧ name ≠ "." ∧ name ≠ ".." ∧ '/' ∉ name.toList := by
  simp only [isEntryName, Bool.and_eq_true, bne_iff_ne, Bool.not_eq_true', List.contains_eq_mem,
    decide_eq_false_iff_not, and_assoc]

/-- The name of an entry is a part of a path as it stands. -/
theorem innerPart?_of_isEntryName (h : isEntryName name = true) :
    Path.innerPart? name = some (.name name) := by
  obtain ⟨hempty, hdot, hdots, -⟩ := isEntryName_iff.1 h
  simp [Path.innerPart?, hempty, hdot, hdots]

/-- The name of an entry is one piece. -/
theorem splitOn_of_isEntryName (h : isEntryName name = true) :
    name.toList.splitOn '/' = [name.toList] := by
  have hslash := (isEntryName_iff.1 h).2.2.2
  have hsplit : (['/'].intercalate [name.toList]).splitOn '/' = [name.toList] :=
    List.splitOn_intercalate '/' (by simpa using hslash) (List.cons_ne_nil _ _)
  rwa [List.intercalate_singleton] at hsplit

/-- The name of an entry is no absolute path. -/
theorem isAbsolute_of_isEntryName (h : isEntryName name = true) :
    Path.isAbsolute name = false := by
  rw [Path.isAbsolute, beq_eq_false_iff_ne]
  intro hhead
  obtain ⟨rest, hrest⟩ := List.head?_eq_some_iff.1 hhead
  exact (isEntryName_iff.1 h).2.2.2 (by rw [hrest]; exact List.mem_cons_self)

end

section
variable {path name : String} (hpath : path ≠ "") (hname : isEntryName name = true)
include hpath hname

/-- A name is joined to a path behind a slash, which the path may end with already. -/
theorem toList_join : ∃ front : List Char,
    (Path.join path name).toList = front ++ '/' :: name.toList ∧
      (path.toList = front ∨ path.toList = front ++ ['/']) := by
  rw [Path.join, isAbsolute_of_isEntryName hname]
  by_cases hlast : path.toList.getLast? = some '/'
  · obtain ⟨front, hfront⟩ := List.getLast?_eq_some_iff.1 hlast
    refine ⟨front, ?_, .inr hfront⟩
    simp [String.toList_append, hfront]
  · refine ⟨path.toList, ?_, .inl rfl⟩
    simp [hlast, hpath, String.toList_append]

/-- Joining a name adds it as the last piece, behind a slash of its own or the one that is there. -/
theorem pieces_join : ∃ front, front ≠ [] ∧ Path.pieces (Path.join path name) = front ++ [name] ∧
    (Path.pieces path = front ∨ Path.pieces path = front ++ [""]) := by
  obtain ⟨front, hjoin, hfront⟩ := toList_join hpath hname
  have hsplit : ∀ text : List Char,
      (front ++ '/' :: text).splitOn '/' = front.splitOn '/' ++ text.splitOn '/' := fun text =>
    List.splitOnP_append_cons front text (beq_self_eq_true '/')
  refine ⟨(front.splitOn '/').map String.ofList, ?_, ?_, ?_⟩
  · simp [List.splitOn, List.splitOnP_ne_nil]
  · rw [Path.pieces, hjoin, hsplit, splitOn_of_isEntryName hname, List.map_append,
      List.map_singleton, String.ofList_toList]
  · refine hfront.imp (fun h => by rw [Path.pieces, h]) (fun h => ?_)
    rw [Path.pieces, h, hsplit, List.map_append]
    rfl

/-- Joining a name leaves a path absolute or relative. -/
theorem isAbsolute_join : Path.isAbsolute (Path.join path name) = Path.isAbsolute path := by
  obtain ⟨front, hjoin, hfront⟩ := toList_join hpath hname
  rw [Path.isAbsolute, Path.isAbsolute, hjoin]
  rcases hfront with hfront | hfront
  · rw [hfront]
    cases front with
    | nil => exact absurd (String.toList_inj.1 (hfront.trans String.toList_empty.symm)) hpath
    | cons c front => rfl
  · rw [hfront]
    cases front <;> rfl

/-- A joined path is not empty. -/
theorem join_ne_empty : Path.join path name ≠ "" := by
  obtain ⟨front, hjoin, -⟩ := toList_join hpath hname
  intro hempty
  rw [hempty] at hjoin
  exact List.append_ne_nil_of_right_ne_nil front (List.cons_ne_nil _ _) hjoin.symm

/-- A joined name is one more part. -/
theorem parts_join : Path.parts (Path.join path name) = Path.parts path ++ [.name name] := by
  obtain ⟨front, hne, hjoin, hfront⟩ := pieces_join hpath hname
  obtain ⟨first, rest, rfl⟩ := List.exists_cons_of_ne_nil hne
  have hslash : Path.innerPart? "" = none := rfl
  have hparts : Path.parts path = (if Path.isAbsolute path then [.root]
      else if first == "." then [.here] else (Path.innerPart? first).toList) ++
        rest.filterMap Path.innerPart? := by
    rcases hfront with hfront | hfront
    · rw [Path.parts, hfront]
    · rw [Path.parts, hfront, List.cons_append]
      simp only [List.filterMap_append, List.filterMap_cons, hslash, List.filterMap_nil,
        List.append_nil]
  rw [hparts, Path.parts, hjoin, List.cons_append, isAbsolute_join hpath hname]
  simp only [List.filterMap_append, List.filterMap_cons, innerPart?_of_isEntryName hname,
    List.filterMap_nil, List.append_assoc]

end

section
variable {path : String} {names : List String}

/-- Joining names adds them as parts. -/
theorem parts_foldl_join (hpath : path ≠ "") (hnames : ∀ name ∈ names, isEntryName name = true) :
    Path.parts (names.foldl Path.join path) = Path.parts path ++ names.map .name := by
  induction names generalizing path with
  | nil => exact (List.append_nil _).symm
  | cons name names ih =>
    obtain ⟨hname, hnames⟩ := List.forall_mem_cons.1 hnames
    rw [List.foldl_cons, ih (join_ne_empty hpath hname) hnames, parts_join hpath hname,
      List.append_assoc, List.map_cons, List.singleton_append]

/-- Joining names leaves a path absolute or relative. -/
theorem isAbsolute_foldl_join (hpath : path ≠ "")
    (hnames : ∀ name ∈ names, isEntryName name = true) :
    Path.isAbsolute (names.foldl Path.join path) = Path.isAbsolute path := by
  induction names generalizing path with
  | nil => rfl
  | cons name names ih =>
    obtain ⟨hname, hnames⟩ := List.forall_mem_cons.1 hnames
    rw [List.foldl_cons, ih (join_ne_empty hpath hname) hnames, isAbsolute_join hpath hname]

/-- Once a name has been joined there is no slash at the end, so the names that follow are all
pieces of their own. -/
theorem pieces_foldl_join_append (hpath : path ≠ "")
    (hnames : ∀ name ∈ names, isEntryName name = true)
    (hlast : (Path.pieces path).getLast? ≠ some "") :
    Path.pieces (names.foldl Path.join path) = Path.pieces path ++ names := by
  induction names generalizing path with
  | nil => exact (List.append_nil _).symm
  | cons name names ih =>
    obtain ⟨hname, hnames⟩ := List.forall_mem_cons.1 hnames
    obtain ⟨front, -, hjoin, hfront | hfront⟩ := pieces_join hpath hname
    · have hlast' : (Path.pieces (Path.join path name)).getLast? ≠ some "" := by
        rw [hjoin, List.getLast?_concat]
        simpa using (isEntryName_iff.1 hname).1
      rw [List.foldl_cons, ih (join_ne_empty hpath hname) hnames hlast', hjoin, hfront,
        List.append_assoc, List.singleton_append]
    · rw [hfront, List.getLast?_concat] at hlast
      exact absurd rfl hlast

/-- Joining names adds them as pieces, all but for the slash at the end of the path. -/
theorem pieces_foldl_join (hpath : path ≠ "") (hnames : ∀ name ∈ names, isEntryName name = true)
    (hne : names ≠ []) : ∃ front, Path.pieces (names.foldl Path.join path) = front ++ names ∧
      (Path.pieces path = front ∨ Path.pieces path = front ++ [""]) := by
  obtain ⟨name, names, rfl⟩ := List.exists_cons_of_ne_nil hne
  obtain ⟨hname, hnames⟩ := List.forall_mem_cons.1 hnames
  obtain ⟨front, -, hjoin, hfront⟩ := pieces_join hpath hname
  have hlast : (Path.pieces (Path.join path name)).getLast? ≠ some "" := by
    rw [hjoin, List.getLast?_concat]
    simpa using (isEntryName_iff.1 hname).1
  refine ⟨front, ?_, hfront⟩
  rw [List.foldl_cons, pieces_foldl_join_append (join_ne_empty hpath hname) hnames hlast, hjoin,
    List.append_assoc, List.singleton_append]

end

namespace Tree

/-! ## Leading on -/

section
variable {t : Tree} {links : Nat} {here : Location} {a b : List String} {x y : Target}

/-- The name of an entry is looked up, unless it is too long. -/
theorem looked_of_isEntryName {name : String} (h : isEntryName name = true)
    (hshort : ¬ nameLimit < name.utf8ByteSize) (rest : List String) : Looked false name rest := by
  obtain ⟨hempty, hdot, hdots, -⟩ := isEntryName_iff.1 h
  exact ⟨by simp [hempty, hdot], by simp [hdots], rfl, hshort⟩

/-- Whether a name is looked up does not depend on what follows, when nothing is to be created. -/
theorem Looked.behind {piece : String} {rest rest' : List String}
    (h : Looked false piece rest) : Looked false piece rest' :=
  ⟨h.not_idle, h.not_up, rfl, h.short⟩

/-- What can be followed with some links can be followed with more. -/
theorem Leads.mono (h : Leads t false links here a x) {more : Nat} (hmore : links ≤ more) :
    Leads t false more here a x := by
  induction h generalizing more with
  | done => exact .done
  | idle hdir hpiece _ ih => exact .idle hdir hpiece (ih hmore)
  | up hdir hpiece hup _ ih => exact .up hdir hpiece hup (ih hmore)
  | missing hdir hlooked hnone => exact .missing hdir hlooked hnone
  | link hdir hlooked hlink _ ih =>
    obtain ⟨n, rfl⟩ := Nat.exists_eq_add_of_le' hmore
    exact .link hdir hlooked hlink (ih (Nat.le_add_left _ _))
  | enter hdir hlooked hentry hlink _ ih => exact .enter hdir hlooked hentry hlink (ih hmore)

/-- A slash at the end of a path says nothing about where it leads. -/
theorem Leads.of_slash (h : Leads t false links here (a ++ [""]) x) :
    Leads t false links here a x := by
  -- the last piece is empty, so only `idle` can be the step over it
  generalize hpieces : a ++ [""] = pieces at h
  induction h generalizing a with
  | done => exact absurd hpieces (by simp)
  | idle hdir hpiece hrest ih =>
    cases a with
    | nil =>
      cases hpieces
      cases hrest
      exact .done
    | cons piece a =>
      cases hpieces
      exact .idle hdir hpiece (ih rfl)
  | up hdir hpiece hup _ ih =>
    cases a with
    | nil =>
      cases hpieces
      cases hpiece
    | cons piece a =>
      cases hpieces
      exact .up hdir hpiece hup (ih rfl)
  | missing _ hlooked =>
    cases a with
    | nil =>
      cases hpieces
      cases hlooked.not_idle
    | cons piece a => exact absurd (List.cons.inj hpieces).2 (by simp)
  | link hdir hlooked hlink _ ih =>
    cases a with
    | nil =>
      cases hpieces
      cases hlooked.not_idle
    | cons piece a =>
      cases hpieces
      exact .link hdir hlooked.behind hlink (ih (List.append_assoc _ _ _))
  | enter hdir hlooked hentry hlink _ ih =>
    cases a with
    | nil =>
      cases hpieces
      cases hlooked.not_idle
    | cons piece a =>
      cases hpieces
      exact .enter hdir hlooked.behind hentry hlink (ih rfl)

/-- What leads to a directory leads on to where the rest leads from there. -/
theorem Leads.append (h : Leads t false links here a x) (hdir : x.entry = some .directory)
    (hrest : ∀ links, Leads t false links x.location b y) :
    Leads t false links here (a ++ b) y := by
  induction h with
  | done => exact hrest _
  | idle hhere hpiece _ ih => exact .idle hhere hpiece (ih hdir hrest)
  | up hhere hpiece hup _ ih => exact .up hhere hpiece hup (ih hdir hrest)
  | missing => cases hdir
  | link hhere hlooked hlink _ ih =>
    -- the pieces of the link's target stand in front of the rest of `a`, and `b` behind both
    have hwhole := ih hdir hrest
    rw [List.append_assoc] at hwhole
    exact .link hhere hlooked.behind hlink hwhole
  | enter hhere hlooked hentry hlink _ ih =>
    exact .enter hhere hlooked.behind hentry hlink (ih hdir hrest)

/-- Where a path leads is where the rest of it leads from the directory that its front leads to. The
front is followed once more along the whole path, link by link. -/
theorem Leads.split (h : Leads t false links here a x) (hdir : x.entry = some .directory)
    (hwhole : Leads t false links here (a ++ b) y) :
    ∃ left ≤ links, Leads t false left x.location b y := by
  induction h with
  | done => exact ⟨_, Nat.le_refl _, hwhole⟩
  | missing => cases hdir
  | idle hhere hpiece _ ih =>
    have hfollow := hwhole.follow_eq
    rw [List.cons_append, follow, if_neg (by simp [hhere]), if_pos hpiece] at hfollow
    exact ih hdir (leads_of_follow hfollow)
  | up hhere hpiece hup _ ih =>
    have hfollow := hwhole.follow_eq
    rw [List.cons_append, follow, if_neg (by simp [hhere]), if_neg (by simp [hpiece]),
      if_pos hup] at hfollow
    exact ih hdir (leads_of_follow hfollow)
  | link hhere hlooked hlink _ ih =>
    have hfollow := hwhole.follow_eq
    rw [List.cons_append, follow, if_neg (by simp [hhere]), if_neg (by simp [hlooked.not_idle]),
      if_neg (by simp [hlooked.not_up]), if_neg (by simp), if_neg hlooked.short, hlink] at hfollow
    simp only [← List.append_assoc] at hfollow
    obtain ⟨left, hle, hleads⟩ := ih hdir (leads_of_follow hfollow)
    exact ⟨left, Nat.le_succ_of_le hle, hleads⟩
  | @enter _ _ _ _ _ e hhere hlooked hentry hlink _ ih =>
    have hfollow := hwhole.follow_eq
    rw [List.cons_append, follow, if_neg (by simp [hhere]), if_neg (by simp [hlooked.not_idle]),
      if_neg (by simp [hlooked.not_up]), if_neg (by simp), if_neg hlooked.short, hentry] at hfollow
    cases e with
    | link target => exact absurd rfl (hlink target)
    | file | directory => exact ih hdir (leads_of_follow hfollow)

end

/-! ## Names below a directory -/

section
variable {t : Tree} {cwd top location : Location} {path : String} {e : Entry}

/-- A path that is found leads to what is found. -/
theorem leads_of_find (h : t.find cwd path = .ok (location, e)) :
    Leads t false linkLimit (if Path.isAbsolute path then [] else cwd) (Path.pieces path)
      ⟨location, some e⟩ :=
  leads_of_follow (resolve_eq_ok_iff.1 (find_eq_ok_iff.1 h).2).2

/-- The empty path is not found. -/
theorem ne_empty_of_find (h : t.find cwd path = .ok (location, e)) : path ≠ "" := by
  rintro rfl
  cases (find_eq_ok_iff.1 h).1

/-- What is found by name in a directory is its entry of that name. -/
theorem of_findIn {name : String} {x : Target} (h : t.findIn name x = .ok (location, e)) :
    x.entry = some .directory ∧ location = x.location ++ [name] ∧
      t.entry? (x.location ++ [name]) = some e ∧ ¬ nameLimit < name.utf8ByteSize := by
  unfold findIn at h
  split at h
  · cases h
  · split at h
    · cases h
    · next hshort =>
      split at h
      · cases h
      · next hentry =>
        cases h
        exact ⟨rfl, rfl, hentry, hshort⟩
  · cases h

/-- What a path names itself, unless it is a link, is what the path leads to. -/
theorem find_of_findItself (h : t.findItself cwd path = .ok (location, e))
    (hlink : ∀ target, e ≠ .link target) : t.find cwd path = .ok (location, e) := by
  unfold findItself at h
  split at h
  · cases h
  · exact h
  · next last above hopen hpieces =>
    split at h
    · exact h
    · next hname =>
      simp only [Bool.or_eq_true, not_or, Bool.not_eq_true] at hname
      generalize hstart : (if Path.isAbsolute path then [] else cwd : Location) = start at h
      dsimp only at h
      split at h
      · cases h
      · next directory hfollow =>
        obtain ⟨hdir, rfl, hentry, hshort⟩ := of_findIn h
        have habove := leads_of_follow hfollow
        have hidle : (last == "" || last == ".") = false := by
          refine Bool.eq_false_iff.2 fun hidle => ?_
          rw [Path.innerPart?, if_pos hidle] at hname
          exact absurd hname.1 (by simp)
        have hlast : ∀ links, Leads t false links directory.location [last]
            ⟨directory.location ++ [last], some e⟩ := fun links => by
          rw [← hentry]
          exact .enter (habove.entry_eq ▸ hdir) ⟨hidle, hname.2, rfl, hshort⟩ hentry hlink .done
        have hwhole := habove.append hdir hlast
        rw [← List.reverse_cons, ← hpieces, List.reverse_reverse, ← hstart] at hwhole
        exact find_of_target hopen hwhole.follow_eq

/-- The last name of a path names the entry that the directory in front of it has. -/
theorem findItself_of_leads {above : List String} {last : String} (hopen : openFault? path = none)
    (hpieces : Path.pieces path = above ++ [last]) (hlast : isEntryName last = true)
    (hshort : ¬ nameLimit < last.utf8ByteSize)
    (habove : Leads t false linkLimit (if Path.isAbsolute path then [] else cwd) above
      ⟨top, some .directory⟩) (hentry : t.entry? (top ++ [last]) = some e) :
    t.findItself cwd path = .ok (top ++ [last], e) := by
  have hname : ¬ ((Path.innerPart? last).isNone || last == "..") = true := by
    rw [innerPart?_of_isEntryName hlast]
    simpa using (isEntryName_iff.1 hlast).2.2.1
  have hreverse : (Path.pieces path).reverse = last :: above.reverse := by
    rw [hpieces, List.reverse_concat]
  rw [findItself, hopen, hreverse]
  dsimp only
  rw [if_neg hname, List.reverse_reverse, habove.follow_eq]
  dsimp only [findIn]
  rw [if_neg hshort, hentry]

variable (hdir : t.find cwd path = .ok (top, .directory)) {names : List String}
  (hnames : ∀ name ∈ names, isEntryName name = true) (hne : names ≠ [])
include hdir hnames hne

/-- A path with names joined to it goes through the directory that the path leads to. -/
theorem leads_front : ∃ front, Path.pieces (names.foldl Path.join path) = front ++ names ∧
    Leads t false linkLimit (if Path.isAbsolute (names.foldl Path.join path) then [] else cwd) front
      ⟨top, some .directory⟩ := by
  have hpath := ne_empty_of_find hdir
  have hleads := leads_of_find hdir
  obtain ⟨front, hpieces, hfront⟩ := pieces_foldl_join hpath hnames hne
  refine ⟨front, hpieces, ?_⟩
  rw [isAbsolute_foldl_join hpath hnames]
  rcases hfront with hfront | hfront
  · rwa [hfront] at hleads
  · rw [hfront] at hleads
    exact hleads.of_slash

/-- Names that are joined to a path lead to where they lead from its directory. -/
theorem target_foldl_join {y : Target} (hrest : ∀ links, Leads t false links top names y) :
    t.target false cwd (names.foldl Path.join path) = .ok y := by
  obtain ⟨front, hpieces, hfront⟩ := leads_front hdir hnames hne
  rw [target, hpieces]
  exact (hfront.append rfl hrest).follow_eq

/-- What is found by joined names is found by the names from what the path leads to. -/
theorem leads_of_find_foldl_join
    (h : t.find cwd (names.foldl Path.join path) = .ok (location, e)) :
    ∃ left ≤ linkLimit, Leads t false left top names ⟨location, some e⟩ := by
  obtain ⟨front, hpieces, hfront⟩ := leads_front hdir hnames hne
  have hwhole := leads_of_find h
  rw [hpieces] at hwhole
  exact hfront.split rfl hwhole

end

/-- Below a name that a directory does not have there is nothing. -/
theorem exists?_foldl_join_eq_false {t : Tree} {cwd top : Location} {path name : String}
    {names : List String} (hdir : t.find cwd path = .ok (top, .directory))
    (hnames : ∀ n ∈ name :: names, isEntryName n = true) (hnone : t.entry? (top ++ [name]) = none) :
    t.exists? cwd ((name :: names).foldl Path.join path) = false := by
  unfold exists?
  split
  · next found hfind =>
    obtain ⟨location, e⟩ := found
    obtain ⟨left, -, hleads⟩ :=
      leads_of_find_foldl_join hdir hnames (List.cons_ne_nil _ _) hfind
    obtain ⟨hempty, hdot, hdots, -⟩ := isEntryName_iff.1 (hnames name List.mem_cons_self)
    cases hleads with
    | idle _ hpiece => simp [hempty, hdot] at hpiece
    | up _ _ hup => simp [hdots] at hup
    | link _ _ hentry | enter _ _ hentry =>
      rw [hnone] at hentry
      cases hentry
  · rfl

end Tree

end LogSweep.Files
