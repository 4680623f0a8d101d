import RhoScript.Document.Load
import RhoScript.Lowering.Program
import RhoScript.Diagnostic
import RhoScript.Source.Program
import RhoScript.Term.Layout

/-!
# Compiling texts

A text is a program in source form or a document that holds a syntax tree. It is read, its tree is
lowered, and the process is written as text. On the way notices are given; they are kept also when
one of these steps fails.
-/

namespace RhoScript.Compile

/-- What a text holds. -/
inductive Format where
  | source
  | document
deriving DecidableEq, Repr, Inhabited

/-- Why a text was not compiled. -/
inductive Failure where
  /-- The program is at fault. -/
  | rejected (report : CompileError)
  /-- The document does not hold a tree. -/
  | invalid (issues : List Issue)
  /-- The tree lacks a part that was taken for granted. -/
  | misfit (misfit : Misfit)
  /-- The process has no text. -/
  | unprintable (error : RenderError)
deriving DecidableEq, Repr, Inhabited

/-- The report on a document that does not hold a tree. It counts the issues and does not list them: what
the validator says of each, which would follow the count, is left out. -/
def invalidDocument (issues : List Issue) : CompileError where
  message := s!"Invalid ESTree input ({issues.length} error(s)):"
  suggestion :=
    some "Every node needs a string `type`; known node kinds need their required fields"

/-- The report on a failure that the program or the document is to blame for. -/
def Failure.report? : Failure → Option CompileError
  | .rejected report => some report
  | .invalid issues => some (invalidDocument issues)
  | .misfit _ | .unprintable _ => none

/-- Reads the tree of a text. -/
def readTree (format : Format) (text : String) : Except Failure Node :=
  match format with
  | .source => match Source.readProgram text with
    | .ok n => .ok n
    | .error e => .error (.rejected e)
  | .document => match Document.loadText text with
    | .valid n => .ok n
    | .invalid issues => .error (.invalid issues)

/-- The number of statements of a program or a block. Another node counts as having none, but a
function's body is no list that could be counted. -/
def statementCount : Node → Except Misfit Nat
  | .program _ body | .blockStatement _ body => .ok body.length
  | .functionDeclaration _ _ _ body _ | .functionExpression _ _ _ body _ =>
    .error (.notCounted body.tag)
  | _ => .ok 0

/-- The failure of lowering a tree. The report on a program in source form cites its line. -/
def loweringFailure (format : Format) (text : String) : Lowering.Failure → Failure
  | .rejected report => match format with
    | .source => .rejected (report.withContext text)
    | .document => .rejected report
  | .misfit misfit => .misfit misfit

/-- Compiles a text that comes from the given path to a process. -/
def toProcess (format : Format) (path text : String) :
    List Notice × Except Failure Lowering.Lowered :=
  let start := Notice.debug s!"Compiling source: {path}"
  match readTree format text with
  | .error e => ([start], .error e)
  | .ok tree => match statementCount tree with
    | .error misfit => ([start], .error (.misfit misfit))
    | .ok count =>
      let counted := Notice.debug s!"{tree.type}: {count} top-level statements"
      let (result, ledger) := ExceptT.run (Lowering.lowerTree tree) {}
      let notices := start :: counted :: ledger.warnings.map .warning
      match result with
      | .error e => (notices, .error (loweringFailure format text e))
      | .ok lowered =>
        (notices ++ [.debug s!"{lowered.diagnostics.length} placeholder(s) emitted"],
          .ok lowered)

/-- Compiles a text that comes from the given path to the text of a process. -/
def toText (format : Format) (path text : String) : List Notice × Except Failure WideString :=
  match toProcess format path text with
  | (notices, .error e) => (notices, .error e)
  | (notices, .ok lowered) => match lowered.process.text with
    | .error e => (notices, .error (.unprintable e))
    | .ok text => (notices, .ok text)

end RhoScript.Compile
