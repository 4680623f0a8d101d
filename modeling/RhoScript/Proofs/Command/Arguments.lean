import RhoScript.Command.Invocation

/-!
# The command line of an invocation

An invocation is asked for by a command line that spells its switches out, then the output file and the
file to read. Main statement: the command line is read as that invocation (`Invocation.read_arguments`), if
the names of its files cannot be taken for options (`Invocation.IsPlain`).
-/

namespace RhoScript.Command

/-- An argument that is not taken for an option: it does not start with a dash, or is one. -/
def IsOperand (argument : String) : Prop := argument = "-" ∨ argument.toList.head? ≠ some '-'

instance (argument : String) : Decidable (IsOperand argument) := inferInstanceAs (Decidable (_ ∨ _))

theorem IsOperand.ne_mark {argument : String} (h : IsOperand argument) : argument ≠ "--" := by
  rintro rfl
  revert h
  decide

theorem IsOperand.classify {argument : String} (h : IsOperand argument) (known : Spellings) :
    classify known argument = .ok .plain := by
  obtain rfl | hhead := h
  · rfl
  · unfold Command.classify
    split
    · rename_i hdash
      rw [hdash] at hhead
      exact absurd rfl hhead
    · rfl

/-! ### Words -/

/-- The arguments are taken for these words, none of them behind a `--`. -/
def Reads (known : Spellings) (arguments : List String) (words : List (String × Word)) : Prop :=
  readWords known arguments = .ok ⟨words, none⟩

/-- A switch, if it is on. -/
def switch (on : Bool) (spelling : String) : List String := if on then [spelling] else []

section Reads

variable {known : Spellings} {argument : String} {arguments : List String} {words : List (String × Word)}

theorem Reads.nil : Reads known [] [] := rfl

theorem Reads.cons {word : Word} (hmark : argument ≠ "--") (hword : classify known argument = .ok word)
    (h : Reads known arguments words) : Reads known (argument :: arguments) ((argument, word) :: words) := by
  unfold Reads at h ⊢
  rw [readWords, hword, h]
  · rfl
  · intro hdashes
    exact hmark hdashes

theorem Reads.operand (hargument : IsOperand argument) (h : Reads known arguments words) :
    Reads known (argument :: arguments) ((argument, .plain) :: words) :=
  h.cons hargument.ne_mark (hargument.classify known)

theorem Reads.append_switch {word : Word} {on : Bool} (hmark : argument ≠ "--")
    (hword : classify known argument = .ok word) (h : Reads known arguments words) :
    Reads known (switch on argument ++ arguments) ((switch on argument).map (·, word) ++ words) := by
  cases on with
  | false => exact h
  | true => exact h.cons hmark hword

end Reads

namespace Invocation

/-- The arguments of a task. -/
def taskArguments (i : Invocation) : List String :=
  switch i.json "--json" ++ (switch i.strict "--strict" ++
    (i.output.elim [] (fun path => ["-o", path]) ++ [i.file]))

/-- The command line that asks for an invocation. -/
def arguments (i : Invocation) : List String :=
  switch i.verbose "--verbose" ++ i.task.word :: i.taskArguments

/-- The names of the files cannot be taken for options, and only a compilation has an output file. -/
structure IsPlain (i : Invocation) : Prop where
  file : IsOperand i.file
  output : ∀ path ∈ i.output, IsOperand path ∧ i.task = .compile

/-- The words of a task's arguments, if its options are taken for the given ones. -/
def taskWords (i : Invocation) (json strict output : Word) : List (String × Word) :=
  (switch i.json "--json").map (·, json) ++ ((switch i.strict "--strict").map (·, strict) ++
    (i.output.elim [] (fun path => [("-o", output), (path, .plain)]) ++ [(i.file, .plain)]))

theorem reads_taskArguments {i : Invocation} {known : Spellings} {json strict output : Word} (h : i.IsPlain)
    (hjson : classify known "--json" = .ok json) (hstrict : classify known "--strict" = .ok strict)
    (houtput : i.task = .compile → classify known "-o" = .ok output) :
    Reads known i.taskArguments (i.taskWords json strict output) := by
  have hfile : Reads known [i.file] [(i.file, .plain)] := Reads.nil.operand h.file
  apply Reads.append_switch (by decide) hjson
  apply Reads.append_switch (by decide) hstrict
  cases hpath : i.output with
  | none => exact hfile
  | some path =>
    obtain ⟨hoperand, htask⟩ := h.output path hpath
    exact (hfile.operand hoperand).cons (by decide) (houtput htask)

/-! ### Options of a task -/

section Words

variable {p : Progress} {argument : String} {short : Bool} {verbatim : Option (List String)}
  {words : List (String × Word)}

theorem words_json : p.words verbatim ((argument, .option .json short none) :: words) =
    Progress.words { p with invocation := { p.invocation with json := true } } verbatim words := by
  rw [Progress.words]
  rfl

theorem words_strict : p.words verbatim ((argument, .option .strict short none) :: words) =
    Progress.words { p with invocation := { p.invocation with strict := true } } verbatim words := by
  rw [Progress.words]
  rfl

theorem words_output {path : String} :
    p.words verbatim ((argument, .option .output short none) :: (path, .plain) :: words) =
      Progress.words { p with invocation := { p.invocation with output := some path } } verbatim words := by
  rw [Progress.words]
  rfl

theorem words_file {file : String} : p.words none [(file, .plain)] = .ok (p.plain file) := by
  rw [Progress.words]

end Words

/-- The options of a task are applied one after the other. -/
theorem words_taskWords (i : Invocation) :
    Progress.words { invocation := { task := i.task, verbose := i.verbose } } none
      (i.taskWords (.option .json false none) (.option .strict false none) (.option .output true none)) =
    .ok { invocation := i, named := true } := by
  obtain ⟨task, verbose, json, strict, file, output⟩ := i
  simp only [taskWords]
  cases json <;> cases strict <;> cases output <;>
    simp [switch, words_json, words_strict, words_output, words_file, Progress.plain]

theorem readTask_taskArguments {i : Invocation} (h : i.IsPlain) :
    readTask i.task i.verbose i.taskArguments = .ok (i, []) := by
  have hreads : Reads (Page.task i.task).spellings i.taskArguments (i.taskWords (.option .json false none)
      (.option .strict false none) (.option .output true none)) := by
    apply reads_taskArguments h
    · cases i.task <;> rfl
    · cases i.task <;> rfl
    · intro htask
      rw [htask]
      rfl
  simp only [Reads] at hreads
  simp only [readTask, hreads, Page.check]
  show (do
    let progress ← Progress.words _ none _
    return (progress.invocation, progress.excess)) = Except.ok (i, [])
  rw [words_taskWords]
  rfl

/-- **An invocation is read from its command line.** -/
theorem read_arguments {i : Invocation} (h : i.IsPlain) : Invocation.read i.arguments = .ok i := by
  have htask : Reads (Page.spellings .overview) i.taskArguments (i.taskWords .unknown .unknown .unknown) :=
    reads_taskArguments h rfl rfl fun _ => rfl
  have hword : Task.ofWord? i.task.word = some i.task := by cases i.task <;> rfl
  have hread : readFrom i.verbose [] (i.task.word :: i.taskArguments) = .ok i := by
    simp only [readFrom, hword, readTask_taskArguments h]
    rfl
  have hoperand : IsOperand i.task.word := by cases i.task <;> decide
  have hreads : Reads (Page.spellings .overview) i.arguments
      ((switch i.verbose "--verbose").map (·, .option .verbose false none) ++
        (i.task.word, .plain) :: i.taskWords .unknown .unknown .unknown) :=
    (htask.operand hoperand).append_switch (by decide) rfl
  simp only [Reads] at hreads
  simp only [Invocation.read, hreads, Page.check]
  show readOverview false [] _ _ = .ok i
  unfold arguments
  cases hverbose : i.verbose with
  | false =>
    rw [hverbose] at hread
    exact hread
  | true =>
    rw [hverbose] at hread
    exact hread

end Invocation

end RhoScript.Command
