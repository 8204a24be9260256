import LogSweep.Proofs.Files.Joined

/-!
# How a path is spelled

Without links, where a path leads is read off its parts: two dots go up and a name goes down
(`place`, `Workspace.LeadsTo.eq_place`). So paths with the same parts lead to one place; one of them
may still lead nowhere, for a slash or a dot behind the name of a file
(`Workspace.LeadsTo.respelled`).
-/

namespace LogSweep.Files

/-- Where a part of a path leads from a location. -/
def step (here : Location) : Path.Part → Location
  | .root => []
  | .here => here
  | .up => here.dropLast
  | .name name => here ++ [name]

/-- Where the parts of a path lead from a working directory. -/
def place (cwd : Location) (path : String) : Location :=
  (Path.parts path).foldl step cwd

/-- Names lead down one by one. -/
theorem foldl_step_names (here : Location) (names : List String) :
    (names.map Path.Part.name).foldl step here = here ++ names := by
  induction names generalizing here with
  | nil => exact (List.append_nil here).symm
  | cons name names ih =>
    rw [List.map_cons, List.foldl_cons, ih, step, List.append_assoc, List.singleton_append]

/-- The place of joined names is that of the path and then the names. -/
theorem place_foldl_join {path : String} {names : List String} (cwd : Location) (hpath : path ≠ "")
    (hnames : ∀ name ∈ names, Tree.isEntryName name = true) :
    place cwd (names.foldl Path.join path) = place cwd path ++ names := by
  rw [place, parts_foldl_join hpath hnames, List.foldl_append, foldl_step_names]
  rfl

/-! ## Pieces and parts -/

section
variable {path : String}

theorem pieces_ne_nil (path : String) : Path.pieces path ≠ [] := by
  simp [Path.pieces, List.splitOn, List.splitOnP_ne_nil]

/-- An absolute path begins with an empty piece. -/
theorem pieces_of_isAbsolute (h : Path.isAbsolute path = true) :
    ∃ rest, Path.pieces path = "" :: rest := by
  obtain ⟨text, htext⟩ := List.head?_eq_some_iff.1 (beq_iff_eq.1 h)
  refine ⟨(text.splitOn '/').map String.ofList, ?_⟩
  have hsplit : ('/' :: text).splitOn '/' = [].splitOn '/' ++ text.splitOn '/' :=
    List.splitOnP_append_cons [] text (beq_self_eq_true '/')
  rw [Path.pieces, htext, hsplit]
  rfl

section
variable {piece : String}

/-- Empty pieces and dots lead nowhere. -/
theorem innerPart?_idle (h : (piece == "" || piece == ".") = true) :
    Path.innerPart? piece = none :=
  if_pos h

/-- Two dots lead up. -/
theorem innerPart?_up (h : (piece == "" || piece == ".") = false) (hup : (piece == "..") = true) :
    Path.innerPart? piece = some .up := by
  rw [Path.innerPart?, if_neg (by simp [h]), if_pos hup]

/-- Any other piece is a name. -/
theorem innerPart?_name (h : (piece == "" || piece == ".") = false)
    (hup : (piece == "..") = false) : Path.innerPart? piece = some (.name piece) := by
  rw [Path.innerPart?, if_neg (by simp [h]), if_neg (by simp [hup])]

variable {part : Path.Part} (h : Path.innerPart? piece = some part)
include h

/-- A piece that leads somewhere leads up or is a name. -/
theorem innerPart?_cases : piece = ".." ∧ part = .up ∨ part = .name piece := by
  unfold Path.innerPart? at h
  split at h
  · cases h
  · split at h
    · next hup => exact .inl ⟨beq_iff_eq.1 hup, (Option.some.inj h).symm⟩
    · exact .inr (Option.some.inj h).symm

/-- A part is spelled by one piece. -/
theorem innerPart?_inj {piece' : String} (h' : Path.innerPart? piece' = some part) :
    piece = piece' := by
  rcases innerPart?_cases h with ⟨rfl, rfl⟩ | rfl
  · rcases innerPart?_cases h' with ⟨rfl, -⟩ | heq
    · rfl
    · cases heq
  · rcases innerPart?_cases h' with ⟨-, heq⟩ | heq
    · cases heq
    · exact Path.Part.name.inj heq

/-- Names and two dots rank behind the parts at the start of a path. -/
theorem rank_of_innerPart? : 2 ≤ part.rank := by
  rcases innerPart?_cases h with ⟨-, rfl⟩ | rfl
  · exact Nat.le_refl 2
  · exact Nat.le_succ 2

end

/-- The parts of a path are those of its pieces, behind a mark for where the path starts. -/
theorem parts_eq (path : String) : ∃ start,
    Path.parts path = start ++ (Path.pieces path).filterMap Path.innerPart? ∧
      (Path.isAbsolute path = true ∧ start = [.root] ∨
        Path.isAbsolute path = false ∧ (start = [] ∨ start = [.here])) := by
  obtain ⟨first, rest, hpieces⟩ := List.exists_cons_of_ne_nil (pieces_ne_nil path)
  cases habsolute : Path.isAbsolute path with
  | true =>
    obtain ⟨rest', hslash⟩ := pieces_of_isAbsolute habsolute
    obtain ⟨rfl, rfl⟩ := List.cons.inj (hpieces.symm.trans hslash)
    refine ⟨[.root], ?_, .inl ⟨rfl, rfl⟩⟩
    rw [Path.parts, hpieces, List.filterMap_cons_none (by rfl)]
    simp only [habsolute]
    rfl
  | false =>
    rw [Path.parts, hpieces]
    simp only [habsolute, Bool.false_eq_true, if_false]
    by_cases hdot : (first == ".") = true
    · have hnone : Path.innerPart? first = none := innerPart?_idle (by simp [hdot])
      rw [if_pos hdot, List.filterMap_cons_none hnone]
      exact ⟨[.here], rfl, .inr ⟨trivial, .inr rfl⟩⟩
    · rw [if_neg hdot]
      refine ⟨[], ?_, .inr ⟨trivial, .inl rfl⟩⟩
      cases hfirst : Path.innerPart? first with
      | none => rw [List.filterMap_cons_none hfirst]; rfl
      | some part => rw [List.filterMap_cons_some hfirst]; rfl

/-- The place of a path follows the pieces that lead somewhere. -/
theorem place_eq (cwd : Location) (path : String) :
    place cwd path = ((Path.pieces path).filterMap Path.innerPart?).foldl step
      (if Path.isAbsolute path then [] else cwd) := by
  obtain ⟨start, hparts, ⟨habsolute, rfl⟩ | ⟨habsolute, rfl | rfl⟩⟩ := parts_eq path <;>
    · rw [place, hparts, habsolute]
      rfl

/-- The parts of a path behind its start are those of its pieces. -/
theorem filter_parts (path : String) : (Path.parts path).filter (fun part => 2 ≤ part.rank) =
    (Path.pieces path).filterMap Path.innerPart? := by
  have hinner : ((Path.pieces path).filterMap Path.innerPart?).filter (fun part => 2 ≤ part.rank) =
      (Path.pieces path).filterMap Path.innerPart? := by
    refine List.filter_eq_self.2 fun part hpart => ?_
    obtain ⟨piece, -, hpiece⟩ := List.mem_filterMap.1 hpart
    exact decide_eq_true (rank_of_innerPart? hpiece)
  obtain ⟨start, hparts, ⟨-, rfl⟩ | ⟨-, rfl | rfl⟩⟩ := parts_eq path <;>
    · rw [hparts, List.filter_append, hinner]
      rfl

/-- A path is absolute when the root is among its parts. -/
theorem isAbsolute_iff_parts : Path.isAbsolute path = true ↔ .root ∈ Path.parts path := by
  have hinner : Path.Part.root ∉ (Path.pieces path).filterMap Path.innerPart? := by
    intro hroot
    obtain ⟨piece, -, hpiece⟩ := List.mem_filterMap.1 hroot
    exact absurd (rank_of_innerPart? hpiece) (by decide)
  obtain ⟨start, hparts, ⟨habsolute, rfl⟩ | ⟨habsolute, rfl | rfl⟩⟩ := parts_eq path <;>
    · rw [hparts, habsolute]
      simp [hinner]

end

/-! ## Where a path leads -/

/-- A path leads to an entry at a location. -/
def Workspace.LeadsTo (w : Workspace) (path : String) (location : Location) : Prop :=
  ∃ e, w.tree.target false w.cwd path = .ok ⟨location, some e⟩

namespace Tree

/-- No entry is a link. -/
def Linkless (t : Tree) : Prop :=
  ∀ location target, t.entry? location ≠ some (.link target)

section
variable {t : Tree} (hlink : t.Linkless) {creates : Bool} {links : Nat} {here : Location}
  {pieces : List String} {x : Target}
include hlink

/-- Without links a path leads to the place that its pieces spell. -/
theorem Leads.location_eq_foldl (h : Leads t creates links here pieces x) :
    x.location = (pieces.filterMap Path.innerPart?).foldl step here := by
  induction h with
  | done => rfl
  | idle _ hpiece _ ih => rw [List.filterMap_cons_none (innerPart?_idle hpiece), ih]
  | up _ hpiece hup _ ih =>
    rw [List.filterMap_cons_some (innerPart?_up hpiece hup), ih]
    rfl
  | missing _ hlooked =>
    rw [List.filterMap_cons_some (innerPart?_name hlooked.not_idle hlooked.not_up)]
    rfl
  | link _ _ hentry => exact absurd hentry (hlink _ _)
  | enter _ hlooked _ _ _ ih =>
    rw [List.filterMap_cons_some (innerPart?_name hlooked.not_idle hlooked.not_up), ih]
    rfl

end

/-- Pieces that say nothing do not matter in a directory. -/
theorem Leads.idles {t : Tree} {creates : Bool} {links : Nat} {here : Location}
    {idles pieces : List String} {x : Target}
    (hidles : ∀ piece ∈ idles, Path.innerPart? piece = none)
    (hdir : t.entry? here = some .directory) (h : Leads t creates links here pieces x) :
    Leads t creates links here (idles ++ pieces) x := by
  induction idles with
  | nil => exact h
  | cons piece idles ih =>
    obtain ⟨hpiece, hidles⟩ := List.forall_mem_cons.1 hidles
    cases hidle : piece == "" || piece == "." with
    | true => exact .idle hdir hidle (ih hidles)
    | false =>
      cases hup : piece == ".." with
      | true => cases (innerPart?_up hidle hup).symm.trans hpiece
      | false => cases (innerPart?_name hidle hup).symm.trans hpiece

section
variable {others : List String} (hlast : ∀ piece ∈ others.getLast?, Path.innerPart? piece ≠ none)
include hlast

/-- Pieces that end in one with a meaning are read up to the first that has one. -/
theorem exists_first {piece : String} {part : Path.Part} {rest : List String}
    (hpart : Path.innerPart? piece = some part)
    (hparts : others.filterMap Path.innerPart? = (piece :: rest).filterMap Path.innerPart?) :
    ∃ idles others', others = idles ++ piece :: others' ∧
      (∀ p ∈ idles, Path.innerPart? p = none) ∧
      others'.filterMap Path.innerPart? = rest.filterMap Path.innerPart? ∧
      ∀ p ∈ others'.getLast?, Path.innerPart? p ≠ none := by
  rw [List.filterMap_cons_some hpart] at hparts
  obtain ⟨idles, piece', others', rfl, hidles, hpart', hrest⟩ := List.filterMap_eq_cons_iff.1 hparts
  obtain rfl := innerPart?_inj hpart hpart'
  refine ⟨idles, others', rfl, hidles, hrest, fun p hp => hlast p ?_⟩
  rw [List.getLast?_append, List.getLast?_cons, hp]
  rfl

/-- Pieces that all lead somewhere and give no part are none. -/
theorem eq_nil_of_filterMap (h : others.filterMap Path.innerPart? = []) : others = [] := by
  cases hothers : others.getLast? with
  | none => exact List.getLast?_eq_none_iff.1 hothers
  | some piece =>
    exact absurd (List.filterMap_eq_nil_iff.1 h piece (List.mem_of_getLast? hothers))
      (hlast piece hothers)

/-- What the pieces of a path lead to, other pieces with the same parts lead to, unless they end in
one that says nothing. -/
theorem Leads.respelled {t : Tree} (hlink : t.Linkless) {links : Nat} {here : Location}
    {pieces : List String} {x : Target} (h : Leads t false links here pieces x)
    (hparts : others.filterMap Path.innerPart? = pieces.filterMap Path.innerPart?) :
    Leads t false links here others x := by
  -- the others may have pieces more that say nothing in front of each step, but not at the end,
  -- where they would ask for a directory
  induction h generalizing others with
  | done =>
    rw [eq_nil_of_filterMap hlast hparts]
    exact .done
  | idle _ hpiece _ ih =>
    rw [List.filterMap_cons_none (innerPart?_idle hpiece)] at hparts
    exact ih hlast hparts
  | up hdir hpiece hup _ ih =>
    obtain ⟨idles, others, rfl, hidles, hrest, hlast⟩ :=
      exists_first hlast (innerPart?_up hpiece hup) hparts
    exact .idles hidles hdir (.up hdir hpiece hup (ih hlast hrest))
  | missing hdir hlooked hnone =>
    obtain ⟨idles, others, rfl, hidles, hrest, hlast⟩ :=
      exists_first hlast (innerPart?_name hlooked.not_idle hlooked.not_up) hparts
    rw [eq_nil_of_filterMap hlast hrest]
    exact .idles hidles hdir (.missing hdir hlooked hnone)
  | link _ _ hentry => exact absurd hentry (hlink _ _)
  | enter hdir hlooked hentry hleaf _ ih =>
    obtain ⟨idles, others, rfl, hidles, hrest, hlast⟩ :=
      exists_first hlast (innerPart?_name hlooked.not_idle hlooked.not_up) hparts
    exact .idles hidles hdir (.enter hdir hlooked.behind hentry hleaf (ih hlast hrest))

end

end Tree

section
variable {w : Workspace} (hlink : w.tree.Linkless) {path other : String} {location : Location}
include hlink

/-- Without links a path leads to its place. -/
theorem Workspace.LeadsTo.eq_place (h : w.LeadsTo path location) : location = place w.cwd path := by
  obtain ⟨e, htarget⟩ := h
  rw [place_eq]
  exact (Tree.leads_of_follow htarget).location_eq_foldl hlink

/-- A path leads to where another path with the same parts leads, unless it ends in a piece that
says nothing. -/
theorem Workspace.LeadsTo.respelled (h : w.LeadsTo path location)
    (hparts : Path.parts other = Path.parts path)
    (hlast : ∀ piece ∈ (Path.pieces other).getLast?, Path.innerPart? piece ≠ none) :
    w.LeadsTo other location := by
  obtain ⟨e, htarget⟩ := h
  have habsolute : Path.isAbsolute other = Path.isAbsolute path := by
    rw [Bool.eq_iff_iff, isAbsolute_iff_parts, isAbsolute_iff_parts, hparts]
  have hpieces : (Path.pieces other).filterMap Path.innerPart? =
      (Path.pieces path).filterMap Path.innerPart? := by
    rw [← filter_parts, ← filter_parts, hparts]
  refine ⟨e, ?_⟩
  rw [Tree.target, habsolute]
  exact ((Tree.leads_of_follow htarget).respelled hlast hlink hpieces).follow_eq

end

end LogSweep.Files
