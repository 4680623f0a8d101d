import RhoScript.Command.Files
import RhoScript.Command.Invocation
import RhoScript.Compile

/-!
# Running the command line

A run is a function of the arguments, the files and standard input. Its outcome is what the program
prints, the file that it writes, its exit status, and what ended it if that was no report: a fault,
or a string that could not be written. A process is written piece by piece, and what was written
before stays.
-/

namespace RhoScript.Command

open Compile (Format)

/-- What ends a run without a report. -/
inductive Fault where
  | misfit (misfit : Misfit)
  | render (error : RenderError)
  | file (error : FileError)
deriving DecidableEq, Repr, Inhabited

/-- The wording of a fault. -/
def Fault.message : Fault → String
  | .misfit m => m.message
  | .render error => error.message
  | .file error => error.message

/-- What a run leaves behind. -/
structure Outcome where
  status : Nat := 0
  stdout : String := ""
  stderr : String := ""
  /-- The path and the text of the file that was written. -/
  written : Option (String × String) := none
  fault : Option Fault := none
  /-- What could not be written. -/
  refused : Option EncodingError := none
deriving DecidableEq, Repr, Inhabited

namespace Outcome

/-- Adds notices. -/
def tell (o : Outcome) (verbose : Bool) (notices : List Notice) : Outcome :=
  { o with stderr := o.stderr ++ Notice.lines verbose notices }

/-- Adds what came of the run. -/
def inform (o : Outcome) (text : String) : Outcome := o.tell false [.info text]

/-- Adds an error and ends with status 1. -/
def fail (o : Outcome) (text : String) : Outcome :=
  { o with status := 1, stderr := o.stderr ++ s!"Error: {text}\n" }

/-- Ends with a fault. -/
def stop (o : Outcome) (fault : Fault) : Outcome := { o with fault := some fault }

/-- Ends as writing a process ended: with a string that could not be written, with a part that has no
text, or well. -/
def conclude (o : Outcome) (refused : Option EncodingError) (error : Option RenderError) : Outcome :=
  match refused, error with
  | some refused, _ => { o with refused := some refused }
  | none, some error => o.stop (.render error)
  | none, none => o

/-- Whether the run has ended before its task was done. -/
def isStopped (o : Outcome) : Bool := o.fault.isSome || o.refused.isSome

/-- What the run tells the caller: a run that was stopped has failed, whatever its status. -/
def exitCode (o : Outcome) : Nat := if o.isStopped then 1 else o.status

end Outcome

/-- Every line break of a text becomes a line feed. -/
def unifyBreaks : List Char → List Char
  | [] => []
  | '\r' :: '\n' :: rest => '\n' :: unifyBreaks rest
  | '\r' :: rest => '\n' :: unifyBreaks rest
  | c :: rest => c :: unifyBreaks rest

/-- A text as it is read from a file. -/
def asRead (text : String) : String := String.ofList (unifyBreaks text.toList)

/-- What a file or standard output takes of some pieces: the text of those before the first that it
refuses. -/
def accept : List WideString → String × Option EncodingError
  | [] => ("", none)
  | piece :: rest => match piece.encode with
    | .error error => ("", some error)
    | .ok text =>
      let (more, error) := accept rest
      (text ++ more, error)

namespace Invocation

/-- What a text from the given path holds. -/
def format (i : Invocation) (path : String) : Format :=
  if i.json || path.endsWith ".json" then .document else .source

/-- Counts the placeholders, if there are any. A strict run fails then. -/
def summarize (i : Invocation) (o : Outcome) (diagnostics : List Diagnostic) : Outcome :=
  if diagnostics.isEmpty then
    match i.task with
    | .compile => o
    | .check => o.inform "✅ No issues found."
  else
    let o := o.inform s!"{diagnostics.length} unsupported construct(s) replaced by placeholders."
    if i.strict then { o with status := 1 } else o

/-- Writes a process to the output file or to standard output. -/
def emit (i : Invocation) (files : Files) (o : Outcome) (process : Process) : Outcome :=
  let (pieces, error) := Printer.pieces 0 process.layout
  let (text, refused) := accept pieces
  match i.output.filter (· ≠ "") with
  | none => { o with stdout := o.stdout ++ text }.conclude refused error
  | some path => match files.obstacle path with
    | some obstacle => o.stop (.file ⟨obstacle, path⟩)
    | none =>
      let o := { o with written := some (path, text) }.conclude refused error
      if o.isStopped then o else o.inform s!"Wrote {path}"

/-- Does the task with a compilation. -/
def finish (i : Invocation) (files : Files) (o : Outcome) (c : Lowering.Lowered) : Outcome :=
  match i.task with
  | .check => i.summarize o c.diagnostics
  | .compile =>
    let o := i.emit files o c.process
    if o.isStopped then o else i.summarize o c.diagnostics

/-- Does the task with a text that comes from the given path. -/
def process (i : Invocation) (files : Files) (path text : String) : Outcome :=
  let (notices, result) := Compile.toProcess (i.format path) path text
  let o : Outcome := Outcome.tell {} i.verbose notices
  match result with
  | .ok c => i.finish files o c
  | .error e => match e with
    | .misfit misfit => o.stop (.misfit misfit)
    | .unprintable error => o.stop (.render error)
    | .rejected report => o.fail s!"Compilation Failed:\n{report.text.shown}"
    | .invalid issues =>
      o.fail s!"Compilation Failed:\n{(Compile.invalidDocument issues).text.shown}"

/-- Does what is asked for. -/
def run (i : Invocation) (files : Files) (stdin : String) : Outcome :=
  if i.file = "-" then i.process files "<stdin>" stdin
  else match files.find i.file with
    | .missing => Outcome.fail {} s!"File '{i.file}' not found."
    | .directory => Outcome.stop {} (.file ⟨.isDirectory, i.file⟩)
    | .text content => i.process files i.file (asRead content)

end Invocation

/-- The outcome of arguments that do not lead to a run. -/
def Stop.outcome : Stop → Outcome
  | .help page => { stdout := page.help }
  | .refused page error => { status := 2, stderr := page.refusal error.message }

/-- Runs the program. -/
def run (arguments : List String) (files : Files) (stdin : String) : Outcome :=
  match Invocation.read arguments with
  | .error stop => stop.outcome
  | .ok invocation => invocation.run files stdin

end RhoScript.Command
