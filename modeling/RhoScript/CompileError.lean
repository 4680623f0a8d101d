import RhoScript.Diagnostic
import RhoScript.Text.Line
import RhoScript.Text.Wide

/-!
# Compile errors

What a compilation that was given up reports: a message and, as far as they are known, the position,
what was expected and found there, the line of the source and a suggestion.
-/

namespace RhoScript

open Text

/-- The report of a compilation that was given up. -/
structure CompileError where
  message : WideString
  line : Option Int := none
  column : Option Int := none
  expected : Option String := none
  found : Option String := none
  /-- The line of the source. -/
  context : Option String := none
  /-- How to mend the source. -/
  suggestion : Option String := none
deriving DecidableEq, Repr, Inhabited

namespace CompileError

/-- The report of a shape that differs from the expected one. -/
def unexpected (expected : String) (position : Position) (found : String) : CompileError where
  message := s!"{position.label}: expected {expected}; found {found}"
  line := some position.line
  column := some position.column
  expected := some expected
  found := some found

/-- A report about a position. -/
def located (message : WideString) (position : Position) : CompileError where
  message := (s!"{position.label}: " : WideString) ++ message
  line := some position.line
  column := some position.column

/-- Adds the line of the source, unless one is there already. -/
def withContext (e : CompileError) (source : String) : CompileError :=
  match e.context with
  | some _ => e
  | none => { e with context := e.line.bind (line? source) }

/-- The position in the heading. A report without a line, or with line zero, has none. -/
def place (e : CompileError) : String :=
  match e.line with
  | none => ""
  | some line =>
    if line = 0 then ""
    else s!" at line {line}" ++
      match e.column with
      | none => ""
      | some column => s!", column {column}"

/-- A line of the report for a text that is there and not empty. -/
def entry (mark : String) : Option String → String
  | none => ""
  | some text => if text = "" then "" else s!"   {mark} {text}\n"

/-- The whole report: a heading, the message, the line of the source and the suggestion. -/
def text (e : CompileError) : WideString :=
  (s!"\n❌ Compilation Error{e.place}:\n   " : WideString) ++ e.message ++
    ("\n" ++ entry ">" e.context ++ entry "💡" e.suggestion : String)

end CompileError

end RhoScript
