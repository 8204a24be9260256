import LogSweep.Command.Sweep
import LogSweep.Proofs.Files.Tree

/-!
# What a sweep touches

All files are read before the first one is written. So whatever is listed, and however often, a file
is written with the sweep of the text that it had in the beginning; nothing but listed files is
written, and no entry of the tree comes or goes (`sweep_frame`). A turn is reported as changed
exactly when its path led to a text that there was something to change in, and the file could be
written (`Changes`). One turn at a time is finished (`next_cases`); that the files still stand where
they stood when they were read is the invariant of the run (`Framed`). It holds for any sequence of
turns, whatever is cancelled or refused in each of them.
-/

namespace LogSweep.Command

open Files

/-! ## Reading and writing one source -/

section
variable {w now now' : Workspace} {path : String} {location : Location} {text old : Bytes}

/-- A source is read that is a file with a text, unless the system refuses to read it. -/
theorem readSource_eq_ok_iff {refusal : Option Fault} : w.readSource path refusal = .ok text ↔
    refusal = none ∧
      ∃ location, w.find path = .ok (location, .file text) ∧ text.decode?.isSome = true := by
  simp only [Workspace.readSource, Workspace.readText, Tree.readText, Tree.read, Workspace.find]
  constructor
  · intro h
    cases hfind : w.tree.find w.cwd path with
    | error fault => simp [hfind] at h
    | ok found =>
      obtain ⟨location, e⟩ := found
      cases e with
      | directory | link => simp [hfind] at h
      | file content =>
        cases refusal with
        | some fault => simp [hfind] at h
        | none =>
          cases htext : content.decode?.isSome with
          | false => simp [hfind, htext] at h
          | true =>
            simp only [hfind, htext, if_true, Except.ok.injEq] at h
            subst h
            exact ⟨rfl, location, rfl, htext⟩
  · rintro ⟨rfl, location, hfind, htext⟩
    simp [hfind, htext]

/-- A path lies within a root when what it resolves to is at or below what the root resolves to. -/
theorem within_eq_ok_iff {root : String} : w.within path root = .ok location ↔
    ∃ e top e', w.resolve path = .ok (location, e) ∧ w.resolve root = .ok (top, e') ∧
      top <+: location := by
  constructor
  · intro h
    unfold Workspace.within at h
    split at h
    · cases h
    · next hpath =>
      split at h
      · cases h
      · next hroot =>
        split at h
        · next hinside =>
          cases h
          exact ⟨_, _, _, hpath, hroot, List.isPrefixOf_iff_prefix.1 hinside⟩
        · cases h
  · rintro ⟨e, top, e', hpath, hroot, hinside⟩
    simp [Workspace.within, hpath, hroot, hinside]

/-- Without a root a source is written through its path. -/
theorem writeSource_none_iff {refusal : Option Fault} :
    now.writeSource path none text refusal = .ok now' ↔
      now.write path text refusal = .ok now' := by
  unfold Workspace.writeSource
  cases now.write path text refusal <;> simp

/-- Below a root a source is written by the absolute path of the place that it resolves to. -/
theorem writeSource_some_iff {refusal : Option Fault} {root : String} :
    now.writeSource path (some root) text refusal = .ok now' ↔
      ∃ place, now.within path root = .ok place ∧
        now.write (absolutePath place) text refusal = .ok now' := by
  unfold Workspace.writeSource
  cases hwithin : now.within path root with
  | error fault => simp [hwithin]
  | ok place =>
    cases hwrite : now.write (absolutePath place) text refusal <;> simp [hwithin, hwrite]

/-- The file at a location can be written: the system does not refuse to, and when a root is given,
the location lies inside it and can be opened by its absolute path. -/
structure Writable (w : Workspace) (root : Option String) (refusal : Option Fault)
    (location : Location) : Prop where
  granted : refusal = none
  inside : ∀ r ∈ root, (∃ top e, w.resolve r = .ok (top, e) ∧ top <+: location) ∧
    ∃ e, w.find (absolutePath location) = .ok (location, e)

section
variable (hcwd : now.cwd = w.cwd) (halike : w.tree.Alike now.tree) {refusal : Option Fault}
include hcwd halike

/-- What a path led to is written through the path, as long as the trees differ in the contents of
files at most and the system does not refuse to. -/
theorem write_eq_ok_iff (hfind : w.find path = .ok (location, .file old)) :
    now.write path text refusal = .ok now' ↔
      refusal = none ∧ now' = { now with tree := now.tree.put location (.file text) } := by
  have hgranted : now.write path text =
      .ok { now with tree := now.tree.put location (.file text) } := by
    rw [Workspace.write, hcwd, Tree.write_of_find halike hfind]
  constructor
  · intro h
    obtain rfl : refusal = none := by
      unfold Workspace.write at h
      split at h
      · cases h
      · next hwrite => exact (Tree.exists_target_of_write hwrite).1
    exact ⟨rfl, Except.ok.inj (h.symm.trans hgranted)⟩
  · rintro ⟨rfl, rfl⟩
    exact hgranted

/-- A file that is written by the absolute path of its location is found by it. -/
theorem find_absolutePath (hw : w.tree.WellFormed)
    (hfile : w.tree.entry? location = some (.file old))
    (h : now.write (absolutePath location) text refusal = .ok now') :
    w.find (absolutePath location) = .ok (location, .file old) := by
  unfold Workspace.write at h
  split at h
  · cases h
  · next hwrite =>
    obtain ⟨-, hopen, x, hx⟩ := Tree.exists_target_of_write hwrite
    have hplace := hw.location_absolutePath halike hfile hx
    have htarget := Tree.target_alike halike.symm hx
    rw [hplace, hfile, hcwd] at htarget
    exact Tree.find_of_target hopen htarget

/-- The place that is compared with a root is where the source was read. -/
theorem within_of_resolve (hresolve : w.resolve path = .ok (location, .file old)) {root : String}
    {place : Location} :
    now.within path root = .ok place ↔
      place = location ∧ ∃ top e, w.resolve root = .ok (top, e) ∧ top <+: location := by
  rw [within_eq_ok_iff, Workspace.resolve, Workspace.resolve, hcwd]
  constructor
  · rintro ⟨e, top, e', hplace, htop, hinside⟩
    obtain rfl : place = location :=
      Tree.location_eq_of_resolve halike hresolve (Tree.resolve_eq_ok_iff.1 hplace).2
    obtain ⟨e', htop⟩ := Tree.resolve_alike halike.symm htop
    exact ⟨rfl, top, e', htop, hinside⟩
  · rintro ⟨rfl, top, e, htop, hinside⟩
    obtain ⟨_, hplace⟩ := Tree.resolve_alike halike hresolve
    obtain ⟨_, htop⟩ := Tree.resolve_alike halike htop
    exact ⟨_, top, _, hplace, htop, hinside⟩

/-- A source that has been read is written where it was read, and it is written exactly when it
can be. -/
theorem writeSource_eq_ok_iff (hw : w.tree.WellFormed)
    (hfind : w.find path = .ok (location, .file old)) {root : Option String} :
    now.writeSource path root text refusal = .ok now' ↔
      now' = { now with tree := now.tree.put location (.file text) } ∧
        Writable w root refusal location := by
  have hresolve : w.resolve path = .ok (location, .file old) := (Tree.find_eq_ok_iff.1 hfind).2
  have hfile := Tree.entry?_of_resolve hresolve
  cases root with
  | none =>
    rw [writeSource_none_iff, write_eq_ok_iff hcwd halike hfind]
    constructor
    · rintro ⟨hgranted, hput⟩
      exact ⟨hput, hgranted, by simp⟩
    · rintro ⟨hput, hgranted, -⟩
      exact ⟨hgranted, hput⟩
  | some r =>
    rw [writeSource_some_iff]
    constructor
    · rintro ⟨place, hwithin, hwrite⟩
      obtain ⟨rfl, hinside⟩ := (within_of_resolve hcwd halike hresolve).1 hwithin
      have hopens := find_absolutePath hcwd halike hw hfile hwrite
      obtain ⟨hgranted, hput⟩ := (write_eq_ok_iff hcwd halike hopens).1 hwrite
      refine ⟨hput, hgranted, fun r' hr => ?_⟩
      cases hr
      exact ⟨hinside, _, hopens⟩
    · rintro ⟨hput, hgranted, hwritable⟩
      obtain ⟨hinside, e, hopens⟩ := hwritable r rfl
      obtain rfl : e = .file old := by
        have hentry := Tree.entry?_of_resolve (Tree.find_eq_ok_iff.1 hopens).2
        rw [hfile] at hentry
        exact (Option.some.inj hentry).symm
      exact ⟨location, (within_of_resolve hcwd halike hresolve).2 ⟨rfl, hinside⟩,
        (write_eq_ok_iff hcwd halike hopens).2 ⟨hgranted, hput⟩⟩

end

end

/-! ## Finishing one turn -/

/-- A text is swept that is read before a cancellation. -/
theorem examine_eq_swept_iff {w : Workspace} {rules : Rules} {turn : Turn} {outcome : Outcome} :
    examine w rules turn = .swept outcome ↔
      turn.isCancelled = false ∧ turn.readFault = none ∧
        ∃ location old, w.find turn.path = .ok (location, .file old) ∧
          old.decode?.isSome = true ∧ outcome = sweepText rules (.ofPath turn.path) old := by
  constructor
  · intro h
    unfold examine at h
    split at h
    · cases h
    · next hrunning =>
      split at h
      · cases h
      · next text hread =>
        cases h
        obtain ⟨hreadable, location, hfind, htext⟩ := readSource_eq_ok_iff.1 hread
        exact ⟨by simpa using hrunning, hreadable, location, text, hfind, htext, rfl⟩
  · rintro ⟨hrunning, hreadable, location, old, hfind, htext, rfl⟩
    have hread := readSource_eq_ok_iff.2 ⟨hreadable, location, hfind, htext⟩
    simp [examine, hrunning, hread]

/-- A file is reported as changed when its text is modified and, outside of a dry run, has been
written back. -/
theorem finish_cases {now : Workspace} {rules : Rules} {o : SweepOptions} {turn : Turn}
    {outcome : Outcome} {finished : Finished} (h : finish now rules o turn outcome = finished) :
    finished.entry.file = Path.display turn.path ∧
      (finished.entry.state = .changed ↔ outcome.isModified = true ∧ (o.isDryRun = false →
        ∃ now', now.writeSource turn.path o.root outcome.text turn.writeFault = .ok now')) ∧
      ((finished.workspace = now ∧ (o.isDryRun = false → finished.entry.state ≠ .changed)) ∨
        (o.isDryRun = false ∧ finished.entry.state = .changed ∧
          now.writeSource turn.path o.root outcome.text turn.writeFault =
            .ok finished.workspace)) := by
  subst h
  unfold finish
  simp only
  split
  · next hsame => exact ⟨rfl, by simp_all, .inl ⟨rfl, by simp⟩⟩
  · next hmodified =>
    have hmodified : outcome.isModified = true := by simpa using hmodified
    split
    · next hdry => exact ⟨rfl, by simp [hmodified, hdry], .inl ⟨rfl, by simp [hdry]⟩⟩
    · next hwet =>
      have hwet : o.isDryRun = false := by simpa using hwet
      split
      · next hwrite => exact ⟨rfl, by simp [hwet, hwrite], .inl ⟨rfl, by simp⟩⟩
      · next hwrite => exact ⟨rfl, by simp [hmodified, hwrite], .inr ⟨hwet, rfl, hwrite⟩⟩

/-- A sweep has something to change in a turn: the sweep goes on, and the path leads to a file that
can be read and has a text whose sweep is modified. Outside of a dry run the file can also be
written. -/
structure Changes (w : Workspace) (rules : Rules) (o : SweepOptions) (turn : Turn)
    (location : Location) (old : Bytes) : Prop where
  running : turn.isCancelled = false
  readable : turn.readFault = none
  leads : w.find turn.path = .ok (location, .file old)
  text : old.decode?.isSome = true
  modified : (sweepText rules (.ofPath turn.path) old).isModified = true
  writable : o.isDryRun = false → Writable w o.root turn.writeFault location

/-- A file with text `old` has been written, in a turn that is reported as changed. -/
structure Wrote (w : Workspace) (rules : Rules) (o : SweepOptions)
    (reported : List (Turn × FileReport)) (turn : Turn) (location : Location) (old : Bytes) :
    Prop extends Changes w rules o turn location old where
  wet : o.isDryRun = false
  changed : ∃ entry, (turn, entry) ∈ reported ∧ entry.state = .changed

section
variable {w : Workspace} {rules : Rules} {o : SweepOptions} {turn : Turn}

/-- The next turn leaves the files as they are, or writes one of them where it was read. -/
theorem next_cases (hw : w.tree.WellFormed) {p p' : Progress} (hcwd : p.workspace.cwd = w.cwd)
    (halike : w.tree.Alike p.workspace.tree)
    (h : p.next rules o turn (examine w rules turn) = p') :
    ∃ entry, p'.entries = p.entries ++ [entry] ∧ entry.file = Path.display turn.path ∧
      (entry.state = .changed ↔ ∃ location old, Changes w rules o turn location old) ∧
      ((p'.workspace = p.workspace ∧ (o.isDryRun = false → entry.state ≠ .changed)) ∨
        ∃ location old, Wrote w rules o [(turn, entry)] turn location old ∧
          p'.workspace = { p.workspace with
            tree := p.workspace.tree.put location
              (.file (sweepText rules (.ofPath turn.path) old).text) }) := by
  subst h
  have hswept : ∀ {location old}, Changes w rules o turn location old →
      examine w rules turn = .swept (sweepText rules (.ofPath turn.path) old) :=
    fun h => examine_eq_swept_iff.2 ⟨h.running, h.readable, _, _, h.leads, h.text, rfl⟩
  cases hexamined : examine w rules turn with
  | cancelled | failed =>
    refine ⟨_, rfl, rfl, iff_of_false (by simp) ?_, .inl ⟨rfl, by simp⟩⟩
    rintro ⟨location, old, hchanges⟩
    cases hexamined.symm.trans (hswept hchanges)
  | swept outcome =>
    obtain ⟨hrunning, hreadable, location, old, hfind, htext, rfl⟩ :=
      examine_eq_swept_iff.1 hexamined
    obtain ⟨hfile, hstate, hcases⟩ := finish_cases (rfl : finish p.workspace rules o turn _ = _)
    have hchanges : (finish p.workspace rules o turn
        (sweepText rules (.ofPath turn.path) old)).entry.state = .changed ↔
          ∃ location old, Changes w rules o turn location old := by
      rw [hstate]
      constructor
      · rintro ⟨hmodified, hwrite⟩
        refine ⟨location, old, hrunning, hreadable, hfind, htext, hmodified, fun hwet => ?_⟩
        obtain ⟨now', hwrite⟩ := hwrite hwet
        exact ((writeSource_eq_ok_iff hcwd halike hw hfind).1 hwrite).2
      · rintro ⟨location', old', h⟩
        cases hfind.symm.trans h.leads
        exact ⟨h.modified, fun hwet =>
          ⟨_, (writeSource_eq_ok_iff hcwd halike hw hfind).2 ⟨rfl, h.writable hwet⟩⟩⟩
    refine ⟨_, rfl, hfile, hchanges, ?_⟩
    rcases hcases with hsame | ⟨hwet, hchanged, hwrite⟩
    · exact .inl hsame
    · obtain ⟨hput, hwritable⟩ := (writeSource_eq_ok_iff hcwd halike hw hfind).1 hwrite
      have hmodified := (hstate.1 hchanged).1
      exact .inr ⟨location, old, ⟨⟨hrunning, hreadable, hfind, htext, hmodified,
        fun _ => hwritable⟩, hwet, _, List.mem_singleton_self _, hchanged⟩, hput⟩

end

/-! ## The run -/

section
variable {w : Workspace} {rules : Rules} {o : SweepOptions} {turn : Turn} {location : Location}
  {old : Bytes} {reported : List (Turn × FileReport)}

/-- Before the first turn nothing was written. -/
theorem not_wrote_nil : ¬ Wrote w rules o [] turn location old := by
  intro h
  obtain ⟨entry, hmem, -⟩ := h.changed
  exact List.not_mem_nil hmem

/-- What was written stays written as more is reported. -/
theorem Wrote.mono (h : Wrote w rules o reported turn location old)
    {reported' : List (Turn × FileReport)} (hsub : reported ⊆ reported') :
    Wrote w rules o reported' turn location old := by
  obtain ⟨entry, hmem, hstate⟩ := h.changed
  exact ⟨h.toChanges, h.wet, entry, hsub hmem, hstate⟩

/-- The last turn either is the one in which the file was written or does not matter. -/
theorem Wrote.of_concat {last : Turn} {entry : FileReport}
    (h : Wrote w rules o (reported ++ [(last, entry)]) turn location old) :
    Wrote w rules o reported turn location old ∨ turn = last ∧ entry.state = .changed := by
  obtain ⟨entry', hmem, hstate⟩ := h.changed
  rcases List.mem_append.1 hmem with hmem | hmem
  · exact .inl ⟨h.toChanges, h.wet, entry', hmem, hstate⟩
  · cases List.mem_singleton.1 hmem
    exact .inr ⟨rfl, hstate⟩

end

/-- A file is written with the sweep of its first text, in one of the turns that are reported as
changed and whose paths lead to it; any other entry is as it was. -/
def Held (w : Workspace) (rules : Rules) (o : SweepOptions)
    (reported : List (Turn × FileReport)) (now : Tree) (location : Location) : Prop :=
  (∃ turn old, Wrote w rules o reported turn location old ∧
      now.entry? location = some (.file (sweepText rules (.ofPath turn.path) old).text)) ∨
    (∀ turn old, ¬ Wrote w rules o reported turn location old) ∧
      now.entry? location = w.tree.entry? location

/-- What holds of a sweep under way, after some of its turns. -/
structure Framed (w : Workspace) (rules : Rules) (o : SweepOptions) (done : List Turn)
    (p : Progress) : Prop where
  files : p.entries.map (·.file) = done.map fun turn => Path.display turn.path
  changed : ∀ r ∈ done.zip p.entries, r.2.state = .changed ↔
    ∃ location old, Changes w rules o r.1 location old
  cwd : p.workspace.cwd = w.cwd
  alike : w.tree.Alike p.workspace.tree
  held : ∀ location, Held w rules o (done.zip p.entries) p.workspace.tree location

section
variable {w : Workspace} {rules : Rules} {o : SweepOptions} {turn : Turn}
  {reported : List (Turn × FileReport)} {now : Tree} {entry : FileReport} {location : Location}

/-- A turn in which nothing is written leaves every entry as it is. -/
theorem Held.skip (h : Held w rules o reported now location)
    (hentry : o.isDryRun = false → entry.state ≠ .changed) :
    Held w rules o (reported ++ [(turn, entry)]) now location := by
  rcases h with ⟨turn', old, hwrote, hnow⟩ | ⟨hnone, hnow⟩
  · exact .inl ⟨turn', old, hwrote.mono (List.subset_append_left _ _), hnow⟩
  · refine .inr ⟨fun turn' old hwrote => ?_, hnow⟩
    rcases hwrote.of_concat with hbefore | ⟨-, hchanged⟩
    · exact hnone turn' old hbefore
    · exact hentry hwrote.wet hchanged

/-- A turn in which a file is written changes the file that its path led to, whatever that holds by
now. -/
theorem Held.write {place : Location} {old current : Bytes}
    (h : Held w rules o reported now location)
    (hwrote : Wrote w rules o [(turn, entry)] turn place old)
    (hcurrent : now.entry? place = some (.file current)) :
    Held w rules o (reported ++ [(turn, entry)])
      (now.put place (.file (sweepText rules (.ofPath turn.path) old).text)) location := by
  unfold Held
  rw [Tree.entry?_put hcurrent]
  by_cases hplace : location = place
  · subst hplace
    exact .inl ⟨turn, old, hwrote.mono (List.subset_append_right _ _), if_pos rfl⟩
  · rw [if_neg hplace]
    rcases h with ⟨turn', old', hwrote', hnow⟩ | ⟨hnone, hnow⟩
    · exact .inl ⟨turn', old', hwrote'.mono (List.subset_append_left _ _), hnow⟩
    · refine .inr ⟨fun turn' old' hwrote' => ?_, hnow⟩
      rcases hwrote'.of_concat with hbefore | ⟨rfl, -⟩
      · exact hnone turn' old' hbefore
      · -- the path led to one place only
        cases hwrote.leads.symm.trans hwrote'.leads
        exact hplace rfl

end

section
variable {w : Workspace} (hw : w.tree.WellFormed) {rules : Rules} {o : SweepOptions}
  {done : List Turn} {p : Progress}
include hw

/-- The step: one turn keeps the frame. -/
theorem Framed.next (h : Framed w rules o done p) (turn : Turn) :
    Framed w rules o (done ++ [turn]) (p.next rules o turn (examine w rules turn)) := by
  have hlen : done.length = p.entries.length := by
    have hfiles := congrArg List.length h.files
    rw [List.length_map, List.length_map] at hfiles
    exact hfiles.symm
  generalize hp : p.next rules o turn (examine w rules turn) = p'
  obtain ⟨entry, hentries, hfile, hstate, hcases⟩ := next_cases hw h.cwd h.alike hp
  have hfiles : (p.entries ++ [entry]).map (·.file) =
      (done ++ [turn]).map fun turn => Path.display turn.path := by
    rw [List.map_append, List.map_append, h.files, List.map_singleton, hfile, List.map_singleton]
  have hzip : (done ++ [turn]).zip (p.entries ++ [entry]) = done.zip p.entries ++ [(turn, entry)] :=
    List.zip_append hlen
  have hchanged : ∀ r ∈ (done ++ [turn]).zip (p.entries ++ [entry]), r.2.state = .changed ↔
      ∃ location old, Changes w rules o r.1 location old := by
    rw [hzip]
    intro r hr
    rcases List.mem_append.1 hr with hr | hr
    · exact h.changed r hr
    · cases List.mem_singleton.1 hr
      exact hstate
  rcases hcases with ⟨hsame, hentry⟩ | ⟨location, old, hwrote, hput⟩
  · refine ⟨hentries ▸ hfiles, hentries ▸ hchanged, hsame ▸ h.cwd, hsame ▸ h.alike,
      fun location => ?_⟩
    rw [hentries, hzip, hsame]
    exact (h.held location).skip hentry
  · obtain ⟨current, hcurrent⟩ :=
      h.alike.exists_file (Tree.entry?_of_resolve (Tree.find_eq_ok_iff.1 hwrote.leads).2)
    refine ⟨hentries ▸ hfiles, hentries ▸ hchanged, ?_, ?_, fun location' => ?_⟩
    · rw [hput]
      exact h.cwd
    · rw [hput]
      exact h.alike.trans (Tree.alike_put hcurrent _)
    · rw [hentries, hzip, hput]
      exact (h.held location').write hwrote hcurrent

/-- The run: any sequence of turns does. -/
theorem Framed.foldl (h : Framed w rules o done p) (turns : List Turn) :
    Framed w rules o (done ++ turns)
      (turns.foldl (fun p turn => p.next rules o turn (examine w rules turn)) p) := by
  induction turns generalizing done p with
  | nil =>
    rw [List.append_nil]
    exact h
  | cons turn turns ih =>
    rw [List.append_cons]
    exact ih (h.next hw turn)

end

/-- A sweep creates and removes nothing, and what it writes are sweeps of the first texts of listed
files: of those that are reported as changed, inside the root when one is given, and none in a dry
run, in a turn that comes after the cancellation, or where the system refuses to read or to write
the file. -/
theorem sweep_frame (w : Workspace) (hw : w.tree.WellFormed) (rules : Rules) (o : SweepOptions)
    (turns : List Turn) :
    ∃ entries : List FileReport,
      (sweep w rules o turns).report = Report.ofFiles rules o.isDryRun entries ∧
      entries.map (·.file) = turns.map (fun turn => Path.display turn.path) ∧
      (∀ r ∈ turns.zip entries, r.2.state = .changed ↔
        ∃ location old, Changes w rules o r.1 location old) ∧
      w.tree.Alike (sweep w rules o turns).workspace.tree ∧
      ∀ location, Held w rules o (turns.zip entries) (sweep w rules o turns).workspace.tree
        location := by
  have hstart : Framed w rules o []
      { workspace := w
        output := opening o (turns.map fun turn => (turn, examine w rules turn)) } :=
    ⟨rfl, by simp, rfl, .refl _, fun _ => .inr ⟨fun _ _ => not_wrote_nil, rfl⟩⟩
  have hdone := hstart.foldl hw turns
  unfold sweep
  simp only [List.foldl_map]
  exact ⟨_, rfl, hdone.files, hdone.changed, hdone.alike, hdone.held⟩

/-- A file, and a link to it. -/
def linked : Workspace where
  tree := ⟨[(["a.js"], .file (Bytes.ofString "console.log(1);\n")), (["b.js"], .link "a.js")]⟩

/-- The link leads to the file. -/
theorem find_linked :
    linked.find "b.js" = .ok (["a.js"], .file (Bytes.ofString "console.log(1);\n")) := by
  have hfile : linked.tree.Leads false 39 [] ["a.js"]
      ⟨["a.js"], some (.file (Bytes.ofString "console.log(1);\n"))⟩ :=
    .enter rfl ⟨rfl, rfl, rfl, by decide⟩ rfl (by simp) .done
  have hlink : linked.tree.Leads false 40 [] ["b.js"]
      ⟨["a.js"], some (.file (Bytes.ofString "console.log(1);\n"))⟩ :=
    .link rfl ⟨rfl, rfl, rfl, by decide⟩ rfl hfile
  exact Tree.find_of_target (by decide) hlink.follow_eq

/-- What the system says about a file that may not be written. -/
def denied : Fault :=
  .refused "Permission denied (os error 13)"

/-- The file is written by way of the link, and only in the turn in which the system lets it be
written. -/
theorem sweep_frame_linked : linked.tree.WellFormed ∧
    Tree.entry? (sweep linked {} {}
      [{ path := "a.js", writeFault := some denied }, { path := "b.js" }]).workspace.tree
        ["a.js"] = some (.file []) := by
  have hw : linked.tree.WellFormed := by decide
  refine ⟨hw, ?_⟩
  obtain ⟨entries, -, hfiles, hchanged, -, hheld⟩ := sweep_frame linked hw {} {}
    [{ path := "a.js", writeFault := some denied }, { path := "b.js" }]
  obtain ⟨first, rest, rfl, -, hrest⟩ := List.map_eq_cons_iff.1 hfiles
  obtain ⟨entry, rfl, -⟩ := List.map_eq_singleton_iff.1 hrest
  have hchanges : Changes linked {} {} { path := "b.js" } ["a.js"]
      (.ofString "console.log(1);\n") :=
    ⟨rfl, rfl, find_linked, by decide +kernel, by decide +kernel, fun _ => ⟨rfl, by simp⟩⟩
  have hstate : entry.state = .changed :=
    (hchanged ({ path := "b.js" }, entry) (by simp)).2 ⟨_, _, hchanges⟩
  rcases hheld ["a.js"] with ⟨turn, old, hwrote, hnow⟩ | ⟨hnone, -⟩
  · obtain ⟨_, hmem, -⟩ := hwrote.changed
    obtain ⟨rfl, -⟩ | ⟨rfl, -⟩ := by simpa using hmem
    · cases (hwrote.writable rfl).granted
    · cases find_linked.symm.trans hwrote.leads
      rw [hnow]
      decide +kernel
  · exact absurd ⟨hchanges, rfl, entry, by simp, hstate⟩ (hnone _ _)

end LogSweep.Command
