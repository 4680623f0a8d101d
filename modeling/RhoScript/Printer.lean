import RhoScript.Text.Wide

/-!
# An indenting printer

Text is written by four commands: plain text, the opening of a nested level, a new line, and the
closing of a level. The depth of indentation is the only state beside the text. A fifth command
stands for a part that has no text: there printing stops, and what was written before stays.
-/

namespace RhoScript

/-- Why a term has no text. -/
inductive RenderError where
  /-- An integer beyond the largest double. -/
  | overflow
  /-- A term of the given sort that was left unspecified. -/
  | unspecified (sort : String)
deriving DecidableEq, Repr, Inhabited

/-- The wording of an error. -/
def RenderError.message : RenderError → String
  | .overflow => "int too large to convert to float"
  | .unspecified sort => sort

/-- A depth of indentation and the text so far. -/
structure Printer where
  indent : Int := 0
  text : WideString := []
deriving DecidableEq, Repr, Inhabited

namespace Printer

/-- What a printer can be told. -/
inductive Command where
  /-- Writes a text. -/
  | print (text : WideString)
  /-- Writes a text, opens a nested level and starts its first line. -/
  | enter (text : WideString)
  /-- Starts a line at the current depth. -/
  | newline
  /-- Writes a text on a line of its own and goes on at the outer level. -/
  | leave (text : WideString)
  /-- Nothing can be written here. -/
  | stuck (error : RenderError)
deriving DecidableEq, Repr, Inhabited

/-- Appends a text. -/
def print (p : Printer) (text : WideString) : Printer := { p with text := p.text ++ text }

/-- The blanks at the start of a line: two for each level, and none at a negative depth. -/
def margin (indent : Int) : String := String.ofList (List.replicate (2 * indent).toNat ' ')

/-- What starts a line. -/
def line (indent : Int) : WideString := "\n" ++ margin indent

/-- Starts a line. -/
def newline (p : Printer) : Printer := p.print (line p.indent)

/-- Opens a level. -/
def enter (p : Printer) (text : WideString) : Printer :=
  { p.print text with indent := p.indent + 1 }.newline

/-- Closes a level. -/
def leave (p : Printer) (text : WideString) : Printer :=
  { p.newline.print text with indent := p.indent - 1 }.newline

/-- The pieces that a command writes at a depth, one at a time. -/
def Command.pieces (indent : Int) : Command → List WideString
  | .print text => [text]
  | .enter text => [text, line (indent + 1)]
  | .newline => [line indent]
  | .leave text => [line indent, text, line (indent - 1)]
  | .stuck _ => []

/-- The depth after a command. -/
def Command.after (indent : Int) : Command → Int
  | .enter _ => indent + 1
  | .leave _ => indent - 1
  | _ => indent

/-- The pieces that commands write from a depth on, up to the first that is stuck. -/
def pieces (indent : Int) : List Command → List WideString × Option RenderError
  | [] => ([], none)
  | .stuck error :: _ => ([], some error)
  | c :: rest =>
    let (more, error) := pieces (c.after indent) rest
    (c.pieces indent ++ more, error)

/-- Runs commands in order up to the first that is stuck. -/
def run (p : Printer) : List Command → Printer × Option RenderError
  | [] => (p, none)
  | .print text :: rest => (p.print text).run rest
  | .enter text :: rest => (p.enter text).run rest
  | .newline :: rest => p.newline.run rest
  | .leave text :: rest => (p.leave text).run rest
  | .stuck error :: _ => (p, some error)

/-- A printer writes the pieces of its commands. -/
theorem run_eq_pieces (p : Printer) (cs : List Command) :
    (p.run cs).1.text = p.text ++ (pieces p.indent cs).1.flatten ∧
      (p.run cs).2 = (pieces p.indent cs).2 := by
  induction cs generalizing p with
  | nil => simp [run, pieces]
  | cons c rest ih =>
    cases c with
    | stuck e => simp [run, pieces]
    | print text | enter text | newline | leave text =>
      rw [run, (ih _).1, (ih _).2]
      simp [pieces, Command.pieces, Command.after, print, newline, enter, leave]

/-- Commands run one after another. -/
theorem run_append (p : Printer) (xs ys : List Command) :
    p.run (xs ++ ys) =
      match p.run xs with
      | (q, none) => q.run ys
      | (q, some e) => (q, some e) := by
  induction xs generalizing p with
  | nil => rfl
  | cons c rest ih => cases c <;> simp [run, ih]

end Printer

end RhoScript
