/-!
# Usage and help texts
-/

namespace RhoScript.Command

/-- The two things that the program does. -/
inductive Task where
  | compile
  | check
deriving DecidableEq, Repr, Inhabited

namespace Task

/-- The word for a task. -/
def word : Task → String
  | .compile => "compile"
  | .check => "check"

/-- The task of a word. -/
def ofWord? : String → Option Task
  | "compile" => some .compile
  | "check" => some .check
  | _ => none

end Task

/-- What a page of help is about: the program as a whole, or a task. -/
inductive Page where
  | overview
  | task (task : Task)
deriving DecidableEq, Repr, Inhabited

namespace Page

/-- How error lines start. -/
def program : Page → String
  | .overview => "js2rho"
  | .task t => "js2rho " ++ t.word

/-- The usage line. -/
def usage : Page → String
  | .overview => "usage: js2rho [-h] [--verbose] \x7bcompile,check\x7d ...\n"
  | .task .compile => "usage: js2rho compile [-h] [--json] [--strict] [-o OUTPUT] [filename]\n"
  | .task .check => "usage: js2rho check [-h] [--json] [--strict] [filename]\n"

/-- What comes after the usage line. -/
def details : Page → String
  | .overview =>
    "js2rho: compile an ECMAScript subset to Rholang\n\n" ++
    "positional arguments:\n" ++
    "  \x7bcompile,check\x7d\n" ++
    "    compile        Compile a file to Rholang\n" ++
    "    check          Compile without writing output; report diagnostics\n\n" ++
    "options:\n" ++
    "  -h, --help       show this help message and exit\n" ++
    "  --verbose        Enable verbose output (sent to stderr)\n"
  | .task .compile =>
    "positional arguments:\n" ++
    "  filename              Source file (default: read from stdin)\n\n" ++
    "options:\n" ++
    "  -h, --help            show this help message and exit\n" ++
    "  --json                Input is ESTree JSON (implied by a .json file name)\n" ++
    "  --strict              Exit with status 1 if any placeholder was emitted\n" ++
    "  -o OUTPUT, --output OUTPUT\n" ++
    "                        Output file (default: stdout)\n"
  | .task .check =>
    "positional arguments:\n" ++
    "  filename    Source file (default: read from stdin)\n\n" ++
    "options:\n" ++
    "  -h, --help  show this help message and exit\n" ++
    "  --json      Input is ESTree JSON (implied by a .json file name)\n" ++
    "  --strict    Exit with status 1 if any placeholder was emitted\n"

/-- A page of help. -/
def help (p : Page) : String := p.usage ++ "\n" ++ p.details

/-- The lines about a refusal. -/
def refusal (p : Page) (message : String) : String :=
  p.usage ++ s!"{p.program}: error: {message}\n"

end Page

end RhoScript.Command
