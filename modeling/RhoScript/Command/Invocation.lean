import RhoScript.Command.Options
import RhoScript.Command.Usage

/-!
# Invocations

Arguments are read from left to right: first options of the program, then the task, then the options
of the task and a file name. What is in excess is collected and refused at the end, so help that is
asked for is shown all the same.
-/

namespace RhoScript.Command

/-- What the program is asked to do. -/
structure Invocation where
  task : Task
  verbose : Bool := false
  json : Bool := false
  strict : Bool := false
  /-- The file to read; a dash stands for standard input. -/
  file : String := "-"
  /-- The file to write. -/
  output : Option String := none
deriving DecidableEq, Repr, Inhabited

/-- Arguments that do not lead to a run: help is asked for, or they are refused. -/
inductive Stop where
  | help (page : Page)
  | refused (page : Page) (error : UsageError)
deriving DecidableEq, Repr, Inhabited

/-- The spellings of the options that a page lists: those of the program as a whole, or those of a task. -/
def Page.spellings : Page → Spellings
  | .overview => [("-h", .help), ("--help", .help), ("--verbose", .verbose)]
  | .task .check =>
    [("-h", .help), ("--help", .help), ("--json", .json), ("--strict", .strict)]
  | .task .compile =>
    [("-h", .help), ("--help", .help), ("--json", .json), ("--strict", .strict),
      ("-o", .output), ("--output", .output)]

/-- Refuses what is wrong in the arguments for a page. -/
def Page.check {α : Type} (page : Page) : Except UsageError α → Except Stop α
  | .ok a => .ok a
  | .error e => .error (.refused page e)

/-- Applies an option. -/
def Invocation.set (i : Invocation) (flag : Flag) (value : Option String) :
    Except Stop Invocation :=
  match flag with
  | .help => .error (.help (.task i.task))
  | .verbose => .ok { i with verbose := true }
  | .json => .ok { i with json := true }
  | .strict => .ok { i with strict := true }
  | .output => .ok { i with output := value }

/-- Applies options in order. -/
def Invocation.setAll (i : Invocation) : List (Flag × Option String) → Except Stop Invocation
  | [] => .ok i
  | (flag, value) :: rest => do (← i.set flag value).setAll rest

/-- How far the arguments of a task have been read: whether the file was named, and what is in
excess. -/
structure Progress where
  invocation : Invocation
  named : Bool := false
  excess : List String := []
deriving DecidableEq, Repr, Inhabited

namespace Progress

/-- Takes a plain argument: the first is the file name. -/
def plain (p : Progress) (argument : String) : Progress :=
  if p.named then { p with excess := p.excess ++ [argument] }
  else { p with invocation := { p.invocation with file := argument }, named := true }

/-- Takes the arguments after `--`. The first may be the file name. -/
def verbatim (p : Progress) (arguments : List String) : Progress :=
  if p.named then { p with excess := p.excess ++ "--" :: arguments }
  else match arguments with
    | [] => p
    | file :: rest => { p.plain file with excess := p.excess ++ rest }

/-- Takes the words of a task's arguments in order. -/
def words (p : Progress) (verbatim : Option (List String)) :
    List (String × Word) → Except Stop Progress
  | [] => .ok (match verbatim with
    | none => p
    | some arguments => p.verbatim arguments)
  | [(argument, .plain)] =>
    -- `--` right behind the file name goes with it
    .ok (match verbatim with
      | none => p.plain argument
      | some arguments =>
        if p.named then (p.plain argument).verbatim arguments
        else { p.plain argument with excess := p.excess ++ arguments })
  | (argument, .plain) :: rest => (p.plain argument).words verbatim rest
  | (argument, .unknown) :: rest =>
    { p with excess := p.excess ++ [argument] }.words verbatim rest
  | (_, .option flag short attached) :: rest => do
    let page := Page.task p.invocation.task
    let options ← page.check (bundle page.spellings flag short attached)
    match options.pending with
    | none =>
      let invocation ← p.invocation.setAll options.flags
      { p with invocation }.words verbatim rest
    | some flag => match rest with
      | (value, .plain) :: rest =>
        let invocation ← p.invocation.setAll (options.flags ++ [(flag, some value)])
        { p with invocation }.words verbatim rest
      | _ => throw (.refused page (.missingValue flag))

end Progress

/-- Reads the arguments of a task. The outcome has what is in excess. -/
def readTask (task : Task) (verbose : Bool) (arguments : List String) :
    Except Stop (Invocation × List String) := do
  let page := Page.task task
  let read ← page.check (readWords page.spellings arguments)
  let start : Progress := { invocation := { task, verbose } }
  let progress ← start.words read.verbatim read.words
  return (progress.invocation, progress.excess)

/-- Reads the arguments from the task's word on. -/
def readFrom (verbose : Bool) (excess : List String) : List String → Except Stop Invocation
  | [] => throw (match excess with
    | [] => .help .overview
    | excess => .refused .overview (.unrecognized excess))
  | word :: arguments => match Task.ofWord? word with
    | none => throw (.refused .overview (.invalidChoice word))
    | some task => do
      let (invocation, more) ← readTask task verbose arguments
      match excess ++ more with
      | [] => return invocation
      | excess => throw (.refused .overview (.unrecognized excess))

/-- Reads the options in front of the task's word. -/
def readOverview (verbose : Bool) (excess : List String) :
    List (String × Word) → List String → Except Stop Invocation
  | [], rest => match rest with
    | ["--"] => readFrom verbose (excess ++ ["--"]) []
    | rest => readFrom verbose excess rest
  | (_, .plain) :: _, rest => readFrom verbose excess rest
  | (argument, .unknown) :: words, rest =>
    readOverview verbose (excess ++ [argument]) words rest.tail
  | (_, .option flag short attached) :: words, rest => do
    let options ← Page.check .overview (bundle (Page.spellings .overview) flag short attached)
    if options.flags.any (·.1 == .help) then throw (.help .overview)
    readOverview true excess words rest.tail

/-- Reads the arguments of the program. -/
def Invocation.read (arguments : List String) : Except Stop Invocation := do
  let read ← Page.check .overview (readWords (Page.spellings .overview) arguments)
  readOverview false [] read.words arguments

end RhoScript.Command
