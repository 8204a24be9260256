import LogSweep.CommandLine.Reader

/-!
# A flag in front of other arguments

Reading arguments goes from state to state, and the flags that have been given matter to a step only
when it takes one of them again. So a flag that stands in front of arguments which do not hold it is
carried along through every step (`Lifts`) and makes no other difference to what is read
(`read_check_cons`).
-/

namespace LogSweep.CommandLine

/-- The same things given, and in front of them the flag to check. -/
def Given.checked (g : Given) : Given :=
  { g with flags := g.flags ++ [.check] }

def State.checked (s : State) : State :=
  { s with given := s.given.checked }

/-- The flag to check is there in addition to those that were given. -/
theorem Given.has_checked (g : Given) (f : Flag) :
    g.checked.has f = (g.has f || f == .check) := by
  show (g.flags ++ [Flag.check]).contains f = _
  rw [List.contains_eq_mem, Given.has, List.contains_eq_mem]
  simp only [List.mem_append, List.mem_singleton, Bool.decide_or]
  rfl

/-- A step that goes the same way with the flag to check in front, unless it takes the flag
itself. -/
def Lifts (step : State → Except Stop State) : Prop :=
  ∀ s s', step s = .ok s' → s'.given.has .check = false →
    s.given.has .check = false ∧ step s.checked = .ok s'.checked

/-- Steps that leave the flags alone. -/
theorem lifts_of_flags {step : State → Except Stop State}
    (hflags : ∀ s s', step s = .ok s' → s'.given.flags = s.given.flags)
    (hchecked : ∀ s s', step s = .ok s' → step s.checked = .ok s'.checked) : Lifts step := by
  intro s s' h hcheck
  rw [Given.has, hflags s s' h] at hcheck
  exact ⟨hcheck, hchecked s s' h⟩

/-- Two steps that go the same way with the flag do so one after the other. -/
theorem Lifts.comp {first second : State → Except Stop State} (hfirst : Lifts first)
    (hsecond : Lifts second) : Lifts fun s =>
      match first s with
      | .error stop => .error stop
      | .ok s => second s := by
  intro s s' h hcheck
  cases hmid : first s with
  | error stop =>
    simp only [hmid] at h
    cases h
  | ok mid =>
    simp only [hmid] at h
    obtain ⟨hmidcheck, hnext⟩ := hsecond mid s' h hcheck
    obtain ⟨hstart, hlifted⟩ := hfirst s mid hmid hmidcheck
    refine ⟨hstart, ?_⟩
    simp only [hlifted]
    exact hnext

/-! ## Single steps -/

/-- A setting does not touch the flags. -/
theorem Given.set_checked {g g' : Given} {setting : Setting} {value : String}
    (h : g.set setting value = .ok g') :
    g'.flags = g.flags ∧ g.checked.set setting value = .ok g'.checked := by
  have hvalues : g.checked.values setting = g.values setting := rfl
  unfold Given.set at h ⊢
  rw [hvalues]
  split at h
  · cases h
  · next hfree =>
    split at h
    · cases h
    · next hroot =>
      cases h
      rw [if_neg hfree, if_neg hroot]
      exact ⟨rfl, rfl⟩

/-- Nor do paths. -/
theorem Given.addPaths_checked {g g' : Given} {paths : List String}
    (h : g.addPaths paths = .ok g') :
    g'.flags = g.flags ∧ g.checked.addPaths paths = .ok g'.checked := by
  unfold Given.addPaths at h ⊢
  split at h
  · cases h
  · next hempty =>
    cases h
    rw [if_neg hempty]
    exact ⟨rfl, rfl⟩

/-- A result that is mapped is one when it was one before. -/
theorem map_eq_ok_iff {ε α β : Type} {f : α → β} {x : Except ε α} {b : β} :
    x.map f = .ok b ↔ ∃ a, x = .ok a ∧ f a = b := by
  cases x <;> simp [Except.map]

/-- Settling what is pending does not depend on the flag. -/
theorem settle_checked {s s' : State} (h : s.settle = .ok s') :
    s'.given.flags = s.given.flags ∧ s.checked.settle = .ok s'.checked := by
  obtain ⟨given, pending, pathsOnly⟩ := s
  cases pending with
  | nothing =>
    cases h
    exact ⟨rfl, rfl⟩
  | setting setting name value =>
    cases value with
    | none => cases h
    | some value =>
      obtain ⟨g, hset, rfl⟩ := map_eq_ok_iff.1 h
      obtain ⟨hflags, hset⟩ := Given.set_checked hset
      exact ⟨hflags, map_eq_ok_iff.2 ⟨_, hset, rfl⟩⟩
  | paths paths =>
    obtain ⟨g, hadd, rfl⟩ := map_eq_ok_iff.1 h
    obtain ⟨hflags, hadd⟩ := Given.addPaths_checked hadd
    exact ⟨hflags, map_eq_ok_iff.2 ⟨_, hadd, rfl⟩⟩

/-- Settling goes the same way with the flag in front. -/
theorem lifts_settle : Lifts State.settle :=
  lifts_of_flags (fun _ _ h => (settle_checked h).1) fun _ _ h => (settle_checked h).2

/-- Settling, and then a change to what is pending. -/
theorem lifts_settle_map (pending : Pending) :
    Lifts fun s => s.settle.map fun s => { s with pending } := by
  refine lifts_of_flags (fun s s' h => ?_) fun s s' h => ?_
  · obtain ⟨t, hsettle, rfl⟩ := map_eq_ok_iff.1 h
    exact (settle_checked hsettle).1
  · obtain ⟨t, hsettle, rfl⟩ := map_eq_ok_iff.1 h
    exact map_eq_ok_iff.2 ⟨_, (settle_checked hsettle).2, rfl⟩

/-- The flag to check is taken once: behind it, its own step is the only one that fails. -/
theorem lifts_flag (f : Flag) (name : String) : Lifts (State.flag · f name) := by
  have htake : Lifts fun s => if s.given.has f then .error (.misuse (.conflict name name))
      else .ok { s with given := { s.given with flags := f :: s.given.flags } } := by
    intro s s' h hcheck
    dsimp only at h ⊢
    split at h
    · cases h
    · next hnew =>
      cases h
      rw [Given.has, List.contains_cons, Bool.or_eq_false_iff] at hcheck
      refine ⟨hcheck.2, ?_⟩
      have hother : (f == Flag.check) = false := by
        rw [beq_eq_false_iff_ne] at hcheck ⊢
        exact fun heq => hcheck.1 heq.symm
      have hfree : s.checked.given.has f = false := by
        show s.given.checked.has f = false
        rw [Given.has_checked, hother, Bool.or_false]
        simpa using hnew
      rw [hfree]
      rfl
  have hstop (stop : Stop) : Lifts fun _ => .error stop := by
    intro s s' h
    cases h
  unfold State.flag
  cases f with
  | help | version => exact lifts_settle.comp (hstop _)
  | select | json | verbose | quiet | dryRun | check => exact lifts_settle.comp htake

/-- So does taking a path. -/
theorem lifts_path (g : Grammar) (path : String) : Lifts (State.path g · path) := by
  intro s s' h hcheck
  unfold State.path at h ⊢
  dsimp only at h ⊢
  split at h
  · cases h
  · next htakes =>
    rw [if_neg htakes]
    obtain ⟨given, pending, pathsOnly⟩ := s
    cases pending with
    | paths paths =>
      cases h
      exact ⟨hcheck, rfl⟩
    | nothing | setting => exact lifts_settle_map (.paths [path]) _ s' h hcheck

/-! ## Arguments -/

/-- So does taking a long option. -/
theorem lifts_long (g : Grammar) (name : String) (value : Option String) :
    Lifts (State.long g · name value) := by
  unfold State.long
  dsimp only
  cases hlookup : g.long.lookup name with
  | none =>
    intro s s' h
    cases h
  | some parameter =>
    cases parameter with
    | flag f =>
      cases value with
      | none => exact lifts_flag f _
      | some value =>
        intro s s' h
        cases h
    | setting setting =>
      cases value with
      | none => exact lifts_settle_map (.setting setting ("--" ++ name) none)
      | some value =>
        refine lifts_settle.comp (lifts_of_flags (fun s s' h => ?_) fun s s' h => ?_)
        · obtain ⟨given, hset, rfl⟩ := map_eq_ok_iff.1 h
          exact (Given.set_checked hset).1
        · obtain ⟨given, hset, rfl⟩ := map_eq_ok_iff.1 h
          exact map_eq_ok_iff.2 ⟨_, (Given.set_checked hset).2, rfl⟩

/-- So does taking short options. -/
theorem lifts_short (g : Grammar) (letters : List Char) : Lifts (State.short g · letters) := by
  induction letters with
  | nil =>
    intro s s' h hcheck
    cases h
    exact ⟨hcheck, rfl⟩
  | cons letter letters ih =>
    simp only [State.short]
    cases hlookup : g.short.lookup letter with
    | none =>
      intro s s' h
      cases h
    | some f => exact (lifts_flag f _).comp ih

/-- So does taking an argument as it stands. -/
theorem lifts_plain (g : Grammar) (argument : String) : Lifts (State.plain g · argument) := by
  intro s s' h hcheck
  obtain ⟨given, pending, pathsOnly⟩ := s
  cases pending with
  | nothing | paths => exact lifts_path g argument _ s' h hcheck
  | setting setting name value =>
    cases value with
    | none =>
      cases h
      exact ⟨hcheck, rfl⟩
    | some value => exact lifts_path g argument _ s' h hcheck

/-- So does taking any argument. -/
theorem lifts_take (g : Grammar) (argument : String) : Lifts (State.take g · argument) := by
  intro s s' h hcheck
  unfold State.take at h ⊢
  dsimp only at h ⊢
  have hsame : s.checked.pathsOnly = s.pathsOnly := rfl
  rw [hsame]
  split at h
  · next hpaths =>
    rw [if_pos hpaths]
    exact lifts_path g argument s s' h hcheck
  · next hpaths =>
    rw [if_neg hpaths]
    split at h
    · cases h
      exact ⟨hcheck, rfl⟩
    · exact lifts_long g _ _ s s' h hcheck
    · exact lifts_short g _ s s' h hcheck
    · exact lifts_plain g argument s s' h hcheck

/-- All arguments are taken the same way behind the flag. -/
theorem takeAll_checked (g : Grammar) {s : State} {arguments : List String} {taken : Taken}
    (h : takeAll g s arguments = .ok taken) (hcheck : taken.state.given.has .check = false) :
    s.given.has .check = false ∧
      takeAll g s.checked arguments = .ok { taken with state := taken.state.checked } := by
  induction arguments generalizing s with
  | nil =>
    cases h
    exact ⟨hcheck, rfl⟩
  | cons argument arguments ih =>
    have hallows : s.checked.allowsCommand = s.allowsCommand := rfl
    unfold takeAll at h ⊢
    rw [hallows]
    split at h
    · next hcommand =>
      cases h
      exact ⟨hcheck, if_pos hcommand⟩
    · next hcommand =>
      rw [if_neg hcommand]
      cases hmid : s.take g argument with
      | error stop =>
        rw [hmid] at h
        cases h
      | ok mid =>
        rw [hmid] at h
        obtain ⟨hmidcheck, hrest⟩ := ih h
        obtain ⟨hstart, hlifted⟩ := lifts_take g argument s mid hmid hmidcheck
        refine ⟨hstart, ?_⟩
        simp only [hlifted]
        exact hrest

/-- A line that is complete is complete with the flag in front. -/
theorem finish_checked {s : State} {g : Given} (h : s.finish = .ok g) :
    g.flags = s.given.flags ∧ s.checked.finish = .ok g.checked := by
  unfold State.finish at h ⊢
  cases hsettle : s.settle with
  | error stop =>
    rw [hsettle] at h
    cases h
  | ok t =>
    obtain ⟨hflags, hlifted⟩ := settle_checked hsettle
    rw [hsettle] at h
    rw [hlifted]
    have hplaces : (!t.checked.given.paths.isEmpty && !(t.checked.given.values .root).isEmpty) =
        (!t.given.paths.isEmpty && !(t.given.values .root).isEmpty) := rfl
    have hselect : t.checked.given.has .select = t.given.has .select := by
      show t.given.checked.has .select = _
      rw [Given.has_checked]
      exact Bool.or_false _
    have hjson : t.checked.given.has .json = t.given.has .json := by
      show t.given.checked.has .json = _
      rw [Given.has_checked]
      exact Bool.or_false _
    simp only [hplaces, hselect, hjson] at h ⊢
    split at h
    · cases h
    · next hpaths =>
      split at h
      · cases h
      · next hconflict =>
        cases h
        rw [if_neg hpaths, if_neg hconflict]
        exact ⟨hflags, rfl⟩

/-- The flag in front sets the check and nothing else. -/
theorem arguments_checked (g : Given) (job : Job) :
    g.checked.arguments job = { g.arguments job with check := true } := by
  have hother (f : Flag) (hf : f ≠ .check) : g.checked.has f = g.has f := by
    rw [Given.has_checked, beq_eq_false_iff_ne.2 hf, Bool.or_false]
  have hcheck : g.checked.has .check = true := by
    rw [Given.has_checked]
    exact Bool.or_true _
  unfold Given.arguments
  rw [hother .select (by decide), hother .json (by decide), hother .verbose (by decide),
    hother .quiet (by decide), hother .dryRun (by decide), hcheck]
  rfl

/-- The flag to check can be put in front of arguments that do not hold it, and adds nothing but
itself to what they ask for. -/
theorem read_check_cons {line : List String} {a : Arguments} (h : read line = .ok a)
    (hcheck : a.check = false) : read ("--check" :: line) = .ok { a with check := true } := by
  have hfirst : takeAll mainGrammar {} ("--check" :: line) =
      takeAll mainGrammar ({} : State).checked line := rfl
  unfold read at h ⊢
  rw [hfirst]
  cases htaken : takeAll mainGrammar {} line with
  | error stop =>
    rw [htaken] at h
    cases h
  | ok taken =>
    rw [htaken] at h
    obtain ⟨state, command⟩ := taken
    have hread {job : Job} (hfinish : state.finish.map (·.arguments job) = .ok a) :
        takeAll mainGrammar ({} : State).checked line = .ok ⟨state.checked, command⟩ ∧
          state.checked.finish.map (·.arguments job) = .ok { a with check := true } := by
      obtain ⟨g, hg, rfl⟩ := map_eq_ok_iff.1 hfinish
      obtain ⟨hflags, hlifted⟩ := finish_checked hg
      have hstate : state.given.has .check = false := by
        rw [Given.has, ← hflags]
        exact hcheck
      exact ⟨(takeAll_checked mainGrammar htaken hstate).2,
        map_eq_ok_iff.2 ⟨_, hlifted, arguments_checked g job⟩⟩
    cases command with
    | none =>
      obtain ⟨hall, hfinish⟩ := hread h
      rw [hall]
      exact hfinish
    | some command =>
      obtain ⟨name, rest⟩ := command
      simp only at h
      cases hjob : readCommand name rest with
      | error stop =>
        rw [hjob] at h
        cases h
      | ok job =>
        rw [hjob] at h
        obtain ⟨hall, hfinish⟩ := hread h
        rw [hall]
        simp only [hjob]
        exact hfinish

end LogSweep.CommandLine
