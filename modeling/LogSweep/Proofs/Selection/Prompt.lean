import LogSweep.Prompt
import LogSweep.Proofs.Selection.Answers

/-!
# Asking until an answer is a selection

Whoever asks reads the first line of what is left of the input (`FirstLine`), and asks again as long
as lines are texts that are not selections (`Refused`). Then comes a selection, a line that is not
text, or the end of the input (`Ending`). One line is read off the front of the stream in every
round, so the rounds come to an end, and what is behind the last line that was read is left as it is
(`ask_lines`, `select_reads`).
-/

namespace LogSweep

/-! ## The first line of a stream -/

/-- A stream begins with a line: what goes up to the first newline and includes it or, when there is
no newline, everything. What is behind the line comes last. -/
inductive FirstLine : Bytes → Bytes → Bytes → Prop
  | ended {body rest : Bytes} (hbody : Byte.newline ∉ body) :
      FirstLine (body ++ Byte.newline :: rest) (body ++ [Byte.newline]) rest
  | unended {body : Bytes} (hbody : Byte.newline ∉ body) (hne : body ≠ []) : FirstLine body body []

section
variable {input line rest : Bytes}

/-- Where there is input there is a line. -/
theorem exists_firstLine (h : input ≠ []) : ∃ line rest, FirstLine input line rest := by
  by_cases hmem : Byte.newline ∈ input
  · obtain ⟨body, rest, rfl, hbody⟩ := List.eq_append_cons_of_mem hmem
    exact ⟨_, _, .ended hbody⟩
  · exact ⟨_, _, .unended hmem h⟩

/-- The line and the rest are the input. -/
theorem FirstLine.append_eq (h : FirstLine input line rest) : line ++ rest = input := by
  cases h with
  | ended => rw [List.append_assoc, List.singleton_append]
  | unended => exact List.append_nil _

/-- A line takes something away from the input. -/
theorem FirstLine.length_lt (h : FirstLine input line rest) : rest.length < input.length := by
  cases h with
  | ended => simp only [List.length_append, List.length_cons]; omega
  | unended _ hne => exact List.length_pos_iff.2 hne

/-- Bytes that are no newlines go to the line that is being read. -/
theorem linesFrom_append {body : Bytes} (hbody : Byte.newline ∉ body) (line : Bytes)
    (done : List Bytes) (text : Bytes) :
    linesFrom line done (body ++ text) = linesFrom (body.reverse ++ line) done text := by
  induction body generalizing line with
  | nil => rfl
  | cons b body ih =>
    rw [List.mem_cons, not_or] at hbody
    rw [List.cons_append, linesFrom, if_neg (by simpa using Ne.symm hbody.1), ih hbody.2,
      List.reverse_cons, List.append_assoc, List.singleton_append]

/-- Lines that are done come first. -/
theorem linesFrom_eq (line : Bytes) (done : List Bytes) (text : Bytes) :
    linesFrom line done text = done.reverse ++ linesFrom line [] text := by
  induction text generalizing line done with
  | nil =>
    simp only [linesFrom]
    split
    · simp
    · simp
  | cons b text ih =>
    simp only [linesFrom]
    split
    · rw [ih, ih [] [_]]
      simp
    · exact ih _ _

/-- The lines of the input are the first one and those of the rest. -/
theorem FirstLine.lines_eq (h : FirstLine input line rest) : lines input = line :: lines rest := by
  cases h with
  | ended hbody =>
    rw [lines, linesFrom_append hbody, linesFrom, if_pos (by simp), linesFrom_eq, List.append_nil,
      List.reverse_singleton, List.reverse_cons, List.reverse_reverse, List.singleton_append, lines]
  | unended hbody hne =>
    have hline := linesFrom_append hbody [] [] []
    rw [List.append_nil, List.append_nil] at hline
    have hne : input.reverse.isEmpty = false := by simpa using hne
    rw [lines, hline, linesFrom, hne, List.reverse_reverse]
    rfl

/-- The lines of a text are all of it. -/
theorem flatten_lines (input : Bytes) : (lines input).flatten = input := by
  induction hn : input.length using Nat.strongRecOn generalizing input with
  | ind n ih =>
    by_cases hempty : input = []
    · rw [hempty]
      rfl
    · obtain ⟨line, rest, hline⟩ := exists_firstLine hempty
      rw [hline.lines_eq, List.flatten_cons, ih _ (hn ▸ hline.length_lt) rest rfl]
      exact hline.append_eq

end

namespace Prompt

open Selection

/-! ## Rounds -/

/-- The lines at the front of a stream are texts but no selections from a list of `count` files. -/
inductive Refused (count : Nat) : Bytes → List Fault → Bytes → Prop
  | none {input : Bytes} : Refused count input [] input
  | next {input line rest behind : Bytes} {answer : String} {fault : Fault} {faults : List Fault}
      (hline : FirstLine input line rest) (htext : line.decode? = some answer)
      (hread : read count answer.toList = .error fault)
      (hrest : Refused count rest faults behind) : Refused count input (fault :: faults) behind

/-- How the questions end, on the stream that is left: the files picked, what is printed behind the
last question, and the bytes that stay unread. -/
inductive Ending (files : List String) : Bytes → Option (List String) → String → Bytes → Prop
  | answered {input line rest : Bytes} {answer : String} {s : Selection}
      (hline : FirstLine input line rest) (htext : line.decode? = some answer)
      (hread : read files.length answer.toList = .ok s) :
      Ending files input (some (s.apply files)) "" rest
  | garbled {input line rest : Bytes} (hline : FirstLine input line rest)
      (htext : line.decode? = none) : Ending files input none "" rest
  | silent : Ending files [] (some []) "\n" []

/-- What is said about an answer that is no selection. -/
def complaint (fault : Fault) : String :=
  s!"Invalid selection: {fault.message}\n"

/-- What is printed while answers are refused: a question and a complaint for each. -/
def rounds (faults : List Fault) : String :=
  String.join (faults.map fun fault => question ++ complaint fault)

/-- A round asks and complains. -/
theorem rounds_cons (fault : Fault) (faults : List Fault) :
    rounds (fault :: faults) = question ++ complaint fault ++ rounds faults := by
  rw [rounds, List.map_cons, String.join_cons, rounds]

section
variable {files : List String} {output answer : String} {line : Bytes} (more : List Bytes)

/-- A line that is a selection ends the questions. -/
theorem ask_answered (htext : line.decode? = some answer) {s : Selection}
    (hread : read files.length answer.toList = .ok s) :
    ask files output (line :: more) =
      ⟨some (s.apply files), output ++ question, more.flatten⟩ := by
  simp only [ask, htext, hread]

/-- A line that is not text ends them without a selection. -/
theorem ask_garbled (htext : line.decode? = none) :
    ask files output (line :: more) = ⟨none, output ++ question, more.flatten⟩ := by
  simp only [ask, htext]

/-- A line that is refused is complained about, and the question is asked again. -/
theorem ask_refused (htext : line.decode? = some answer) {fault : Fault}
    (hread : read files.length answer.toList = .error fault) :
    ask files output (line :: more) =
      ask files (output ++ question ++ complaint fault) more := by
  rw [ask, htext]
  simp only [hread]
  unfold complaint
  rfl

end

/-- The questions come to an end: the stream gets shorter with every line that is refused. -/
theorem ask_lines (files : List String) (output : String) (input : Bytes) :
    ∃ faults left picked last unread, Refused files.length input faults left ∧
      Ending files left picked last unread ∧
      ask files output (lines input) =
        ⟨picked, output ++ rounds faults ++ question ++ last, unread⟩ := by
  -- every round takes a line off the input, and only a refused one is followed by another round
  induction hn : input.length using Nat.strongRecOn generalizing input output with
  | ind n ih =>
    have hnone : output ++ rounds [] = output := String.append_empty
    by_cases hempty : input = []
    · subst hempty
      refine ⟨[], _, _, _, _, .none, .silent, ?_⟩
      rw [hnone]
      rfl
    obtain ⟨line, rest, hline⟩ := exists_firstLine hempty
    cases htext : line.decode? with
    | none =>
      refine ⟨[], _, _, _, _, .none, .garbled hline htext, ?_⟩
      rw [hline.lines_eq, ask_garbled _ htext, flatten_lines, hnone, String.append_empty]
    | some answer =>
      cases hread : read files.length answer.toList with
      | ok s =>
        refine ⟨[], _, _, _, _, .none, .answered hline htext hread, ?_⟩
        rw [hline.lines_eq, ask_answered _ htext hread, flatten_lines, hnone, String.append_empty]
      | error fault =>
        obtain ⟨faults, left, picked, last, unread, hrefused, hending, hask⟩ :=
          ih _ (hn ▸ hline.length_lt) (output ++ question ++ complaint fault) rest rfl
        refine ⟨fault :: faults, left, picked, last, unread, .next hline htext hread hrefused,
          hending, ?_⟩
        rw [hline.lines_eq, ask_refused _ htext hread, hask, rounds_cons]
        simp only [String.append_assoc]

/-! ## Complaints are single lines -/

section
variable {count : Nat} {text : List Char} {fault : Fault}

/-- There is no line break in a text without white space. -/
theorem newline_notMem_of_solid (h : Solid text) : '\n' ∉ (String.ofList text).toList := by
  rw [String.toList_ofList]
  intro hmem
  have hblank := h '\n' hmem
  revert hblank
  decide

/-- There is no line break in a number. -/
theorem newline_notMem_toString (n : Nat) : '\n' ∉ (toString n).toList := by
  intro hmem
  have hdigits : (toString n).toList = Nat.toDigits 10 n := Nat.toList_repr
  have hdigit := Nat.isDigit_of_mem_toDigits (by decide) (by decide) (hdigits ▸ hmem)
  revert hdigit
  decide

/-- What is wrong with a number is said without a line break. -/
theorem newline_notMem_of_badEntry (h : BadEntry count text fault) (hsolid : Solid text) :
    '\n' ∉ fault.message.toList := by
  cases h with
  | notNumber =>
    simp only [Fault.message, String.toList_append, List.mem_append, not_or]
    exact ⟨⟨by decide, newline_notMem_of_solid hsolid⟩, by decide⟩
  | outOfRange =>
    simp only [Fault.message, String.toList_append, List.mem_append, not_or]
    exact ⟨⟨⟨newline_notMem_toString _, by decide⟩, newline_notMem_toString _⟩, by decide⟩

/-- What is wrong with an answer is said without a line break: it quotes a part of the answer, and
parts end at line breaks. -/
theorem newline_notMem_message {answer : List Char} (h : read count answer = .error fault) :
    '\n' ∉ fault.message.toList := by
  obtain ⟨r, hr⟩ := exists_request answer
  obtain ⟨front, part, back, hparts, -, hbad⟩ := hr.read_eq_error_iff.1 h
  have hsolid : Solid part := hr.solid part (by rw [hparts]; simp)
  cases hbad with
  | number _ hentry => exact newline_notMem_of_badEntry hentry hsolid
  | first hpart _ hentry =>
    exact newline_notMem_of_badEntry hentry fun c hc => hsolid c (by rw [hpart]; simp [hc])
  | last hpart _ _ hentry =>
    exact newline_notMem_of_badEntry hentry fun c hc => hsolid c (by rw [hpart]; simp [hc])
  | reversed =>
    simp only [Fault.message, String.toList_append, List.mem_append, not_or]
    exact ⟨⟨by decide, newline_notMem_of_solid hsolid⟩, by decide⟩

end

/-- No complaint has a line break inside. -/
theorem Refused.newline_notMem {count : Nat} {input left : Bytes} {faults : List Fault}
    (h : Refused count input faults left) : ∀ fault ∈ faults, '\n' ∉ fault.message.toList := by
  induction h with
  | none => exact List.forall_mem_nil _
  | next _ _ hread _ ih => exact List.forall_mem_cons.2 ⟨newline_notMem_message hread, ih⟩

/-- Each complaint takes a line off the input, and a line has a byte at least. -/
theorem Refused.length_le {count : Nat} {input left : Bytes} {faults : List Fault}
    (h : Refused count input faults left) : faults.length + left.length ≤ input.length := by
  induction h with
  | none => exact Nat.le_of_eq (Nat.zero_add _)
  | next hline _ _ _ ih =>
    have := hline.length_lt
    rw [List.length_cons]
    omega

/-- Whatever the input is, the questions about some files come to an end: with the first line that
is a selection, which is applied to the files; with the first line that is not text, which fails; or
with the end of the input, which picks nothing. Each line before is complained about in a line, in
order, and the bytes behind the last line that was read stay unread. -/
theorem select_reads (files : List String) (hfiles : files ≠ []) (input : Bytes) :
    ∃ faults left picked last unread, Refused files.length input faults left ∧
      faults.length + left.length ≤ input.length ∧
      (∀ fault ∈ faults, '\n' ∉ fault.message.toList) ∧
      Ending files left picked last unread ∧
      select files input =
        ⟨picked, listing files ++ rounds faults ++ question ++ last, unread⟩ := by
  obtain ⟨faults, left, picked, last, unread, hrefused, hending, hask⟩ :=
    ask_lines files (listing files) input
  refine ⟨faults, left, picked, last, unread, hrefused, hrefused.length_le,
    hrefused.newline_notMem, hending, ?_⟩
  rw [select, if_neg (by simpa using hfiles), hask]

/-- A number that is not in the list, then one that is. -/
theorem select_reads_retry : ["a.js", "b.js"] ≠ [] ∧
    ∃ faults left last, Refused 2 (.ofString "9\n2\nx") faults left ∧
      Ending ["a.js", "b.js"] left (some ["b.js"]) last (.ofString "x") ∧
      (select ["a.js", "b.js"] (.ofString "9\n2\nx")).output =
        listing ["a.js", "b.js"] ++ rounds faults ++ question ++ last := by
  have hfiles : ["a.js", "b.js"] ≠ [] := List.cons_ne_nil _ _
  refine ⟨hfiles, ?_⟩
  obtain ⟨faults, left, picked, last, unread, hrefused, -, -, hending, hselect⟩ :=
    select_reads ["a.js", "b.js"] hfiles (.ofString "9\n2\nx")
  have hpicked : (select ["a.js", "b.js"] (.ofString "9\n2\nx")).picked = some ["b.js"] := by
    decide +kernel
  have hunread : (select ["a.js", "b.js"] (.ofString "9\n2\nx")).unread = .ofString "x" := by
    decide +kernel
  rw [hselect] at hpicked hunread
  subst hpicked hunread
  exact ⟨faults, left, last, hrefused, hending, congrArg Result.output hselect⟩

end Prompt

end LogSweep
