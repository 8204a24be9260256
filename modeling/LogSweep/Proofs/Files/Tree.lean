import LogSweep.Files.Tree
import Mathlib.Data.List.Induction

/-!
# Where paths lead

A path that is followed without a fault takes one step for each of its pieces (`Tree.Leads`). The
steps look at the kinds of entries only, never at the contents of files, so a path leads to the same
place in trees that differ in contents (`Tree.Alike`, `Tree.Leads.alike`). In a well-formed tree the
absolute path of a file leads to the file, through no link
(`Tree.WellFormed.location_absolutePath`). What is read through a path is written through it
(`Tree.write_of_find`): a path with a slash at its end, which no file is created by, reads none.
-/

namespace LogSweep.Files

namespace Tree

/-! ## Steps along a path -/

/-- A piece of a path that is looked up as a name, with `rest` behind it. -/
structure Looked (creates : Bool) (piece : String) (rest : List String) : Prop where
  not_idle : (piece == "" || piece == ".") = false
  not_up : (piece == "..") = false
  free : (creates && onlySlashes rest) = false
  short : ¬ nameLimit < piece.utf8ByteSize

/-- The pieces of a path lead from a location to a target, through at most `links` links. -/
inductive Leads (t : Tree) (creates : Bool) : Nat → Location → List String → Target → Prop
  | done {links : Nat} {here : Location} : Leads t creates links here [] ⟨here, t.entry? here⟩
  | idle {links : Nat} {here : Location} {piece : String} {rest : List String} {x : Target}
      (hdir : t.entry? here = some .directory) (hpiece : (piece == "" || piece == ".") = true)
      (hrest : Leads t creates links here rest x) : Leads t creates links here (piece :: rest) x
  | up {links : Nat} {here : Location} {piece : String} {rest : List String} {x : Target}
      (hdir : t.entry? here = some .directory) (hpiece : (piece == "" || piece == ".") = false)
      (hup : (piece == "..") = true) (hrest : Leads t creates links here.dropLast rest x) :
      Leads t creates links here (piece :: rest) x
  | missing {links : Nat} {here : Location} {piece : String}
      (hdir : t.entry? here = some .directory) (hlooked : Looked creates piece [])
      (hnone : t.entry? (here ++ [piece]) = none) :
      Leads t creates links here [piece] ⟨here ++ [piece], none⟩
  | link {links : Nat} {here : Location} {piece : String} {rest : List String} {x : Target}
      {target : String} (hdir : t.entry? here = some .directory)
      (hlooked : Looked creates piece rest)
      (hlink : t.entry? (here ++ [piece]) = some (.link target))
      (hrest : Leads t creates links (if Path.isAbsolute target then [] else here)
        (Path.pieces target ++ rest) x) : Leads t creates (links + 1) here (piece :: rest) x
  | enter {links : Nat} {here : Location} {piece : String} {rest : List String} {x : Target}
      {e : Entry} (hdir : t.entry? here = some .directory) (hlooked : Looked creates piece rest)
      (hentry : t.entry? (here ++ [piece]) = some e) (hlink : ∀ target, e ≠ .link target)
      (hrest : Leads t creates links (here ++ [piece]) rest x) :
      Leads t creates links here (piece :: rest) x

section
variable {t t' : Tree} {creates : Bool} {links : Nat} {here : Location} {pieces : List String}
  {x : Target}

/-- A path that is followed without a fault leads to its target. -/
theorem leads_of_follow (h : t.follow creates links here pieces = .ok x) :
    Leads t creates links here pieces x := by
  fun_induction follow t creates links here pieces with
  | case1 links here =>
    cases h
    exact .done
  | case2 | case5 | case6 | case8 | case9 => cases h
  | case3 links here piece rest hdir hpiece ih => exact .idle (by simpa using hdir) hpiece (ih h)
  | case4 links here piece rest hdir hpiece hup ih =>
    exact .up (by simpa using hdir) (by simpa using hpiece) hup (ih h)
  | case7 links here piece rest hdir hpiece hup hfree hshort hnone hempty =>
    cases h
    rw [List.isEmpty_iff.1 hempty] at hfree ⊢
    exact .missing (by simpa using hdir)
      ⟨by simpa using hpiece, by simpa using hup, by simpa using hfree, hshort⟩ hnone
  | case10 here piece rest hdir hpiece hup hfree hshort target hlink links ih =>
    exact .link (by simpa using hdir)
      ⟨by simpa using hpiece, by simpa using hup, by simpa using hfree, hshort⟩ hlink (ih h)
  | case11 links here piece rest hdir hpiece hup hfree hshort e hlink hentry ih =>
    exact .enter (by simpa using hdir)
      ⟨by simpa using hpiece, by simpa using hup, by simpa using hfree, hshort⟩ hentry hlink (ih h)

/-- A path that leads to a target is followed to it. -/
theorem Leads.follow_eq (h : Leads t creates links here pieces x) :
    t.follow creates links here pieces = .ok x := by
  induction h with
  | done => rw [follow]
  | idle hdir hpiece _ ih =>
    rw [follow, if_neg (by simp [hdir]), if_pos hpiece]
    exact ih
  | up hdir hpiece hup _ ih =>
    rw [follow, if_neg (by simp [hdir]), if_neg (by simp [hpiece]), if_pos hup]
    exact ih
  | missing hdir hlooked hnone =>
    rw [follow, if_neg (by simp [hdir]), if_neg (by simp [hlooked.not_idle]),
      if_neg (by simp [hlooked.not_up]), if_neg (by simp [hlooked.free]), if_neg hlooked.short,
      hnone]
    rfl
  | link hdir hlooked hlink _ ih =>
    rw [follow, if_neg (by simp [hdir]), if_neg (by simp [hlooked.not_idle]),
      if_neg (by simp [hlooked.not_up]), if_neg (by simp [hlooked.free]), if_neg hlooked.short,
      hlink]
    exact ih
  | @enter _ _ _ _ _ e hdir hlooked hentry hlink _ ih =>
    rw [follow, if_neg (by simp [hdir]), if_neg (by simp [hlooked.not_idle]),
      if_neg (by simp [hlooked.not_up]), if_neg (by simp [hlooked.free]), if_neg hlooked.short,
      hentry]
    cases e with
    | link target => exact absurd rfl (hlink target)
    | file | directory => exact ih

/-- A path leads to one target at most. -/
theorem Leads.unique {y : Target} (h : Leads t creates links here pieces x)
    (h' : Leads t creates links here pieces y) : x = y :=
  Except.ok.inj (h.follow_eq.symm.trans h'.follow_eq)

/-- A target is what the tree holds at its location. -/
theorem Leads.entry_eq (h : Leads t creates links here pieces x) :
    x.entry = t.entry? x.location := by
  induction h with
  | done => rfl
  | missing _ _ hnone => exact hnone.symm
  | idle _ _ _ ih | up _ _ _ _ ih | link _ _ _ _ ih | enter _ _ _ _ _ ih => exact ih

/-- A path that ends with a slash leads to a directory. -/
theorem Leads.entry_of_slash (h : Leads t creates links here pieces x)
    (hlast : pieces.getLast? = some "") : x.entry = some .directory := by
  induction h with
  | done => cases hlast
  | @idle _ _ _ rest _ hdir _ hrest ih =>
    cases rest with
    | nil =>
      cases hrest
      exact hdir
    | cons next rest => exact ih hlast
  | @up _ _ piece rest _ _ hpiece _ _ ih =>
    cases rest with
    | nil =>
      cases hlast
      cases hpiece
    | cons next rest => exact ih hlast
  | missing _ hlooked =>
    cases hlast
    cases hlooked.not_idle
  | @link _ _ _ rest _ _ _ hlooked _ _ ih =>
    cases rest with
    | nil =>
      cases hlast
      cases hlooked.not_idle
    | cons next rest => exact ih (by simpa [List.getLast?_append] using hlast)
  | @enter _ _ _ rest _ _ _ hlooked _ _ _ ih =>
    cases rest with
    | nil =>
      cases hlast
      cases hlooked.not_idle
    | cons next rest => exact ih hlast

/-- Pieces that stand for slashes end with an empty one. -/
theorem getLast?_of_onlySlashes {rest : List String} (h : onlySlashes rest = true) :
    rest.getLast? = some "" := by
  simp only [onlySlashes, Bool.and_eq_true, List.all_eq_true, beq_iff_eq, Bool.not_eq_true',
    List.isEmpty_eq_false_iff] at h
  rw [List.getLast?_eq_some_getLast h.1, h.2 _ (List.getLast_mem h.1)]

/-- A path by which a file is read is one by which it can be created. -/
theorem Leads.writes (h : Leads t false links here pieces x) (hfile : x.entry ≠ some .directory) :
    Leads t true links here pieces x := by
  have hlooked : ∀ {piece rest}, Looked false piece rest → onlySlashes rest ≠ true →
      Looked true piece rest :=
    fun h hrest => ⟨h.not_idle, h.not_up, by simpa using hrest, h.short⟩
  induction h with
  | done => exact .done
  | idle hdir hpiece _ ih => exact .idle hdir hpiece (ih hfile)
  | up hdir hpiece hup _ ih => exact .up hdir hpiece hup (ih hfile)
  | missing hdir hpiece hnone => exact .missing hdir (hlooked hpiece (by simp [onlySlashes])) hnone
  | link hdir hpiece hlink hrest ih =>
    refine .link hdir (hlooked hpiece fun hslashes => hfile (hrest.entry_of_slash ?_)) hlink
      (ih hfile)
    rw [List.getLast?_append, getLast?_of_onlySlashes hslashes]
    rfl
  | enter hdir hpiece hentry hlink hrest ih =>
    refine .enter hdir (hlooked hpiece fun hslashes => hfile (hrest.entry_of_slash ?_)) hentry hlink
      (ih hfile)
    exact getLast?_of_onlySlashes hslashes

/-- A path by which a file can be created is one by which it can be read. -/
theorem Leads.reads (h : Leads t creates links here pieces x) :
    Leads t false links here pieces x := by
  have hlooked : ∀ {piece rest}, Looked creates piece rest → Looked false piece rest :=
    fun h => ⟨h.not_idle, h.not_up, rfl, h.short⟩
  induction h with
  | done => exact .done
  | idle hdir hpiece _ ih => exact .idle hdir hpiece ih
  | up hdir hpiece hup _ ih => exact .up hdir hpiece hup ih
  | missing hdir hpiece hnone => exact .missing hdir (hlooked hpiece) hnone
  | link hdir hpiece hlink _ ih => exact .link hdir (hlooked hpiece) hlink ih
  | enter hdir hpiece hentry hlink _ ih => exact .enter hdir (hlooked hpiece) hentry hlink ih

end

/-! ## Trees that differ in contents -/

/-- Two trees hold the same entries, apart from what their files contain. -/
def Alike (t t' : Tree) : Prop :=
  ∀ location, t.entry? location = t'.entry? location ∨
    ∃ a b, t.entry? location = some (.file a) ∧ t'.entry? location = some (.file b)

namespace Alike

variable {t t' t'' : Tree} {location : Location}

/-- A tree is like itself. -/
theorem refl (t : Tree) : Alike t t :=
  fun _ => .inl rfl

/-- Likeness goes both ways. -/
theorem symm (h : Alike t t') : Alike t' t := by
  intro location
  rcases h location with heq | ⟨a, b, ha, hb⟩
  · exact .inl heq.symm
  · exact .inr ⟨b, a, hb, ha⟩

/-- Likeness is transitive. -/
theorem trans (h : Alike t t') (h' : Alike t' t'') : Alike t t'' := by
  intro location
  rcases h location with heq | ⟨a, b, ha, hb⟩
  · rw [heq]
    exact h' location
  · rcases h' location with heq | ⟨-, c, -, hc⟩
    · exact .inr ⟨a, b, ha, heq ▸ hb⟩
    · exact .inr ⟨a, c, ha, hc⟩

/-- What is no file is the same in both trees. -/
theorem entry?_eq (h : Alike t t') {e : Option Entry} (he : t.entry? location = e)
    (hfile : ∀ a, e ≠ some (.file a)) : t'.entry? location = e := by
  rcases h location with heq | ⟨a, -, ha, -⟩
  · rw [← heq, he]
  · exact absurd (he.symm.trans ha) (hfile a)

/-- A file is a file in both trees. -/
theorem exists_file (h : Alike t t') {a : Bytes} (ha : t.entry? location = some (.file a)) :
    ∃ b, t'.entry? location = some (.file b) := by
  rcases h location with heq | ⟨-, b, -, hb⟩
  · exact ⟨a, heq ▸ ha⟩
  · exact ⟨b, hb⟩

end Alike

section
variable {t t' : Tree} {creates : Bool} {links : Nat} {here : Location} {pieces : List String}
  {x : Target}

/-- A path leads to the same location in both trees. -/
theorem Leads.alike (h : Leads t creates links here pieces x) (halike : Alike t t') :
    Leads t' creates links here pieces ⟨x.location, t'.entry? x.location⟩ := by
  induction h with
  | done => exact .done
  | idle hdir hpiece _ ih => exact .idle (halike.entry?_eq hdir (by simp)) hpiece ih
  | up hdir hpiece hup _ ih => exact .up (halike.entry?_eq hdir (by simp)) hpiece hup ih
  | missing hdir hlooked hnone =>
    have hnone' := halike.entry?_eq hnone (by simp)
    rw [hnone']
    exact .missing (halike.entry?_eq hdir (by simp)) hlooked hnone'
  | link hdir hlooked hlink _ ih =>
    exact .link (halike.entry?_eq hdir (by simp)) hlooked (halike.entry?_eq hlink (by simp)) ih
  | @enter _ _ _ _ _ e hdir hlooked hentry hlink _ ih =>
    have hdir' := halike.entry?_eq hdir (by simp)
    cases e with
    | link target => exact absurd rfl (hlink target)
    | directory => exact .enter hdir' hlooked (halike.entry?_eq hentry (by simp)) hlink ih
    | file a =>
      obtain ⟨b, hb⟩ := halike.exists_file hentry
      exact .enter hdir' hlooked hb (by simp) ih

end

/-! ## Writing a file -/

/-- A change of the entries that leaves the locations alone is seen by looking them up. -/
theorem lookup_map {f : Location × Entry → Location × Entry} {g : Location → Entry → Entry}
    (hf : ∀ p, f p = (p.1, g p.1 p.2)) (entries : List (Location × Entry)) (l : Location) :
    (entries.map f).lookup l = (entries.lookup l).map (g l) := by
  induction entries with
  | nil => rfl
  | cons p entries ih =>
    rw [List.map_cons, hf, List.lookup_cons, List.lookup_cons, ih]
    cases hl : l == p.1 with
    | true =>
      rw [beq_iff_eq.1 hl]
      rfl
    | false => rfl

/-- Writing a file that is there changes what it contains, and nothing else. -/
theorem entry?_put {t : Tree} {location : Location} {old : Bytes}
    (h : t.entry? location = some (.file old)) (new : Bytes) (l : Location) :
    Tree.entry? (t.put location (.file new)) l =
      if l = location then some (.file new) else t.entry? l := by
  cases location with
  | nil => cases h
  | cons name names =>
    have hsome : t.entries.lookup (name :: names) = some (.file old) := h
    have hentries : (t.put (name :: names) (.file new)).entries.lookup l =
        (t.entries.lookup l).map fun old => if l = name :: names then .file new else old := by
      rw [put, hsome]
      refine lookup_map (g := fun l old => if l = name :: names then .file new else old)
        (fun p => ?_) t.entries l
      by_cases hp : p.1 = name :: names
      · simp [hp]
      · simp [hp]
    rw [ entry?, hentries]
    by_cases hl : l = name :: names
    · subst hl
      rw [hsome]
      simp
    · simp [hl, entry?]

/-- Other bytes in a file leave a tree alike. -/
theorem alike_put {t : Tree} {location : Location} {old : Bytes}
    (h : t.entry? location = some (.file old)) (new : Bytes) :
    Alike t (t.put location (.file new)) := by
  intro l
  rw [entry?_put h]
  split
  · next hl => exact .inr ⟨old, new, hl ▸ h, rfl⟩
  · exact .inl rfl

/-! ## Well-formed trees -/

/-- A name that an entry can have. -/
def isEntryName (name : String) : Bool :=
  name != "" && name != "." && name != ".." && !name.toList.contains '/'

/-- The directories above an entry are there, and the names of entries can stand in paths. -/
def WellFormed (t : Tree) : Prop :=
  ∀ p ∈ t.entries, t.entry? p.1.dropLast = some .directory ∧ ∀ name ∈ p.1, isEntryName name = true

instance (t : Tree) : Decidable (WellFormed t) :=
  inferInstanceAs (Decidable (∀ p ∈ t.entries, _))

namespace WellFormed

variable {t : Tree} (h : WellFormed t) {location : Location} {e : Entry}
include h

/-- An entry stands in a directory, and the names on the way can stand in paths. -/
theorem of_entry (he : t.entry? location = some e) :
    t.entry? location.dropLast = some .directory ∧
      ∀ name ∈ location, isEntryName name = true := by
  cases location with
  | nil => exact ⟨rfl, by simp⟩
  | cons name names =>
    have hlookup : t.entries.lookup (name :: names) = some e := he
    obtain ⟨a, b, hentries, -⟩ := List.lookup_eq_some_iff.1 hlookup
    exact h (name :: names, e) (by rw [hentries]; simp)

/-- Everything above an entry is a directory. -/
theorem above {a b : Location} (he : t.entry? (a ++ b) = some e) (hb : b ≠ []) :
    t.entry? a = some .directory := by
  induction b using List.reverseRecOn generalizing e with
  | nil => exact absurd rfl hb
  | append_singleton b name ih =>
    have hup := (h.of_entry he).1
    rw [← List.append_assoc, List.dropLast_concat] at hup
    by_cases hb' : b = []
    · rw [hb', List.append_nil] at hup
      exact hup
    · exact ih hup hb'

end WellFormed

/-- A location has one entry at most, and the top has none. -/
def Keyed (t : Tree) : Prop :=
  (t.entries.map Prod.fst).Nodup ∧ ∀ p ∈ t.entries, p.1 ≠ []

instance (t : Tree) : Decidable (Keyed t) :=
  inferInstanceAs (Decidable (_ ∧ ∀ p ∈ t.entries, _))

/-- In a keyed tree the table holds what is looked up. -/
theorem Keyed.mem_iff {t : Tree} (h : Keyed t) {location : Location} {e : Entry}
    (hne : location ≠ []) : (location, e) ∈ t.entries ↔ t.entry? location = some e := by
  have hlookup : t.entry? location = t.entries.lookup location := by simp [ entry?, hne]
  rw [hlookup]
  refine ⟨fun hmem => ?_, fun hsome => ?_⟩
  · obtain ⟨a, b, hsplit⟩ := List.append_of_mem hmem
    have hkeys := h.1
    rw [hsplit, List.map_append, List.map_cons, List.nodup_append] at hkeys
    refine List.lookup_eq_some_iff.2 ⟨a, b, hsplit, fun p hp => ?_⟩
    simpa using (hkeys.2.2 p.1 (List.mem_map_of_mem hp) location List.mem_cons_self).symm
  · obtain ⟨a, b, hsplit, -⟩ := List.lookup_eq_some_iff.1 hsome
    simp [hsplit]

/-- A child of a directory is listed by the directory and its name. -/
theorem eq_concat_of_child {directory : Location} {p : Location × Entry} {child : String × Entry}
    (h : (match p.1.getLast? with
      | some name => if p.1.dropLast == directory then some (name, p.2) else none
      | none => none) = some child) : p = (directory ++ [child.1], child.2) := by
  split at h
  · next last hlast =>
    obtain ⟨hdirectory, hchild⟩ := Option.ite_none_right_eq_some.1 h
    obtain rfl := Option.some.inj hchild
    obtain ⟨front, hfront⟩ := List.getLast?_eq_some_iff.1 hlast
    rw [hfront, List.dropLast_concat, beq_iff_eq] at hdirectory
    rw [← hdirectory, ← hfront]
  · cases h

/-- A directory holds what the table has one name below it. -/
theorem mem_children_iff {t : Tree} {directory : Location} {name : String} {e : Entry} :
    (name, e) ∈ t.children directory ↔ (directory ++ [name], e) ∈ t.entries := by
  rw [children, List.mem_filterMap]
  constructor
  · rintro ⟨p, hmem, hsome⟩
    exact eq_concat_of_child hsome ▸ hmem
  · intro hmem
    exact ⟨(directory ++ [name], e), hmem, by simp⟩

/-- In a keyed tree the children of a directory are the entries right below it. -/
theorem Keyed.mem_children_iff {t : Tree} (h : Keyed t) {directory : Location} {name : String}
    {e : Entry} : (name, e) ∈ t.children directory ↔ t.entry? (directory ++ [name]) = some e :=
  Tree.mem_children_iff.trans (h.mem_iff (by simp))

/-- No name stands in a directory twice. -/
theorem Keyed.nodup_children {t : Tree} (h : Keyed t) (directory : Location) :
    ((t.children directory).map Prod.fst).Nodup := by
  have hkeys : t.entries.Pairwise fun p q => p.1 ≠ q.1 := List.pairwise_map.1 h.1
  refine List.pairwise_map.2 (List.pairwise_filterMap.2 (hkeys.imp fun hne c hp c' hq hsame => ?_))
  rw [eq_concat_of_child hp, eq_concat_of_child hq, hsame] at hne
  exact hne rfl

/-- No entry lies deeper than the depth. -/
theorem length_le_depth {t : Tree} {p : Location × Entry} (h : p ∈ t.entries) :
    p.1.length ≤ t.depth := by
  rw [depth]
  generalize t.entries = entries at h ⊢
  induction entries with
  | nil => cases h
  | cons q entries ih =>
    rw [List.foldr_cons]
    rcases List.mem_cons.1 h with rfl | h
    · exact Nat.le_max_left _ _
    · exact Nat.le_trans (ih h) (Nat.le_max_right _ _)

/-- Names lead to where they stand when none of them stands for a link. -/
theorem Leads.location_eq {t : Tree} {creates : Bool} {links : Nat} {here names : Location}
    {x : Target} (h : Leads t creates links here names x)
    (hnames : ∀ name ∈ names, isEntryName name = true)
    (hlink : ∀ a b, names = a ++ b → ∀ target, t.entry? (here ++ a) ≠ some (.link target)) :
    x.location = here ++ names := by
  induction h with
  | done => exact (List.append_nil _).symm
  | idle _ hpiece =>
    have hname := (List.forall_mem_cons.1 hnames).1
    simp only [isEntryName, Bool.and_eq_true, bne_iff_ne] at hname
    simp [hname] at hpiece
  | up _ _ hup =>
    have hname := (List.forall_mem_cons.1 hnames).1
    simp only [isEntryName, Bool.and_eq_true, bne_iff_ne] at hname
    simp [hname] at hup
  | missing => rfl
  | @link _ _ piece rest _ target _ _ hentry => exact absurd hentry (hlink [piece] rest rfl target)
  | @enter _ here piece rest _ _ _ _ _ _ _ ih =>
    rw [ih (List.forall_mem_cons.1 hnames).2, List.append_assoc, List.singleton_append]
    intro a b hrest target
    rw [List.append_assoc]
    exact hlink (piece :: a) b (congrArg (piece :: ·) hrest) target

/-- The pieces of an absolute path are an empty one and the names. -/
theorem pieces_absolutePath {location : Location} (hne : location ≠ [])
    (hnames : ∀ name ∈ location, isEntryName name = true) :
    Path.pieces (absolutePath location) = "" :: location := by
  have hslash : ∀ l ∈ [] :: location.map String.toList, '/' ∉ l := by
    refine List.forall_mem_cons.2 ⟨List.not_mem_nil, List.forall_mem_map.2 fun name hname => ?_⟩
    have hentry := hnames name hname
    simp only [isEntryName, Bool.and_eq_true, Bool.not_eq_true', List.contains_eq_mem,
      decide_eq_false_iff_not] at hentry
    exact hentry.2
  have hpath : (absolutePath location).toList =
      ['/'].intercalate ([] :: location.map String.toList) := by
    rw [absolutePath, String.toList_append, String.toList_intercalate]
    cases location with
    | nil => exact absurd rfl hne
    | cons name names => rw [List.map_cons, List.intercalate_cons_cons]; rfl
  have hback : location.map (String.ofList ∘ String.toList) = location :=
    (List.map_congr_left fun name _ => String.ofList_toList).trans (List.map_id location)
  rw [Path.pieces, hpath, List.splitOn_intercalate '/' hslash (List.cons_ne_nil _ _),
    List.map_cons, List.map_map, hback]

/-- The absolute path of a location is absolute. -/
theorem isAbsolute_absolutePath (location : Location) :
    Path.isAbsolute (absolutePath location) = true := by
  rw [Path.isAbsolute, absolutePath, String.toList_append]
  rfl

/-- The absolute path of a file leads to the file. -/
theorem WellFormed.location_absolutePath {t t' : Tree} (h : WellFormed t) (halike : Alike t t')
    {location : Location} {content : Bytes} (hfile : t.entry? location = some (.file content))
    {creates : Bool} {cwd : Location} {x : Target}
    (hx : t'.target creates cwd (absolutePath location) = .ok x) : x.location = location := by
  have hne : location ≠ [] := by
    rintro rfl
    cases hfile
  have hnames := (h.of_entry hfile).2
  rw [target, isAbsolute_absolutePath, if_pos rfl, pieces_absolutePath hne hnames] at hx
  -- the first piece is empty, and the others are the names of the location
  have hleads : Leads t' creates linkLimit [] location x := by
    cases leads_of_follow hx with
    | idle _ _ hrest => exact hrest
    | up _ hpiece => cases hpiece
    | missing _ hlooked | link _ hlooked | enter _ hlooked => cases hlooked.not_idle
  refine hleads.location_eq hnames fun a b hsplit target hlink => ?_
  have hlink : t.entry? a = some (.link target) := halike.symm.entry?_eq hlink (by simp)
  by_cases hb : b = []
  · rw [hb, List.append_nil] at hsplit
    rw [← hsplit, hfile] at hlink
    cases hlink
  · rw [hsplit] at hfile
    rw [h.above hfile hb] at hlink
    cases hlink

/-! ## What reading and writing find -/

section
variable {t t' : Tree} {cwd location : Location} {path : String} {e : Entry} {x : Target}

/-- In trees that are alike a path leads to the same location. -/
theorem target_alike {creates : Bool} (halike : Alike t t')
    (h : t.target creates cwd path = .ok x) :
    t'.target creates cwd path = .ok ⟨x.location, t'.entry? x.location⟩ :=
  ((leads_of_follow h).alike halike).follow_eq

/-- A path resolves to an entry when it leads to one and its text is in order. -/
theorem resolve_eq_ok_iff : t.resolve cwd path = .ok (location, e) ↔
    textFault? path = none ∧ t.target false cwd path = .ok ⟨location, some e⟩ := by
  unfold resolve
  split <;> simp_all

/-- A path is found when it can be opened and resolves. -/
theorem find_eq_ok_iff : t.find cwd path = .ok (location, e) ↔
    openFault? path = none ∧ t.resolve cwd path = .ok (location, e) := by
  unfold find
  split <;> simp_all

/-- A path that can be opened finds what it leads to. -/
theorem find_of_target {creates : Bool} (hopen : openFault? path = none)
    (h : t.target creates cwd path = .ok ⟨location, some e⟩) :
    t.find cwd path = .ok (location, e) := by
  have htext : textFault? path = none := (Option.or_eq_none_iff.1 hopen).1
  have htarget : t.target false cwd path = .ok ⟨location, some e⟩ :=
    (leads_of_follow h).reads.follow_eq
  exact find_eq_ok_iff.2 ⟨hopen, resolve_eq_ok_iff.2 ⟨htext, htarget⟩⟩

/-- What a path resolves to is there. -/
theorem entry?_of_resolve (h : t.resolve cwd path = .ok (location, e)) :
    t.entry? location = some e :=
  (leads_of_follow (resolve_eq_ok_iff.1 h).2).entry_eq.symm

/-- What is found is there. -/
theorem entry?_of_find (h : t.find cwd path = .ok (location, e)) : t.entry? location = some e :=
  entry?_of_resolve (find_eq_ok_iff.1 h).2

/-- Paths resolve to the same locations in trees that differ in contents. -/
theorem resolve_alike (halike : Alike t t') (h : t.resolve cwd path = .ok (location, e)) :
    ∃ e', t'.resolve cwd path = .ok (location, e') := by
  obtain ⟨htext, htarget⟩ := resolve_eq_ok_iff.1 h
  have htarget' := target_alike halike htarget
  have hsome : ∃ e', t'.entry? location = some e' := by
    rcases halike location with heq | ⟨-, b, -, hb⟩
    · exact ⟨e, heq ▸ entry?_of_resolve h⟩
    · exact ⟨_, hb⟩
  obtain ⟨e', he'⟩ := hsome
  refine ⟨e', resolve_eq_ok_iff.2 ⟨htext, ?_⟩⟩
  rw [htarget', he']

/-- A path that is resolved in one of two such trees leads to the same location in the other. -/
theorem location_eq_of_resolve {creates : Bool} (halike : Alike t t')
    (h : t.resolve cwd path = .ok (location, e)) (hx : t'.target creates cwd path = .ok x) :
    x.location = location := by
  have hread := (leads_of_follow hx).reads.alike halike.symm
  exact congrArg Target.location (hread.unique (leads_of_follow (resolve_eq_ok_iff.1 h).2))

/-- A file is written through every path by which it is read, where it was read, unless the system
refuses to. -/
theorem write_of_find (halike : Alike t t') {old : Bytes}
    (h : t.find cwd path = .ok (location, .file old)) (content : Bytes) :
    t'.write cwd path content = .ok (t'.put location (.file content)) := by
  obtain ⟨hopen, hresolve⟩ := find_eq_ok_iff.1 h
  have hleads := leads_of_follow (resolve_eq_ok_iff.1 hresolve).2
  have htarget : t'.target true cwd path = .ok ⟨location, t'.entry? location⟩ :=
    ((hleads.writes (by simp)).alike halike).follow_eq
  obtain ⟨current, hcurrent⟩ := halike.exists_file (entry?_of_resolve hresolve)
  rw [write, hopen, htarget, hcurrent]

/-- What has been written was not refused, and the path can be opened and leads somewhere. -/
theorem exists_target_of_write {content : Bytes} {refusal : Option Fault}
    (h : t.write cwd path content refusal = .ok t') :
    refusal = none ∧ openFault? path = none ∧ ∃ x, t.target true cwd path = .ok x := by
  unfold write at h
  split at h
  · cases h
  · cases h
  · cases h
  · next hopen htarget =>
    split at h
    · cases h
    · exact ⟨rfl, hopen, _, htarget⟩

end

end Tree

end LogSweep.Files
