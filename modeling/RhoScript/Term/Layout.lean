import RhoScript.Printer
import RhoScript.Term.Basic

/-!
# The text of a term

A term is written by commands to a printer. `Process.layout` and `Name.layout` list them in order,
so that the text of a term does not depend on how the printer keeps it.
-/

namespace RhoScript

open Printer

/-- The text of a binding. -/
def Binding.text : Binding → WideString
  | .plain name => name
  | .resource name uri => (name : WideString) ++ ("(`" : String) ++ uri ++ ("`)" : String)

/-- A binding after another one: a resource starts a line. -/
def Binding.layoutNext (b : Binding) : List Command :=
  match b with
  | .plain _ => [.print ", ", .print b.text]
  | .resource _ _ => [.print ",", .newline, .print b.text]

/-- The bindings of `new`. -/
def Binding.layoutAll : List Binding → List Command
  | [] => []
  | b :: rest => .print b.text :: rest.flatMap Binding.layoutNext

/-- A ground value. -/
def Ground.layout (v : Ground) : Command :=
  match v.text? with
  | some text => .print text
  | none => .stuck .overflow

mutual

/-- The commands that write a process. -/
def Process.layout : Process → List Command
  | .nil => [.print "Nil"]
  | .ground value => [value.layout]
  | .list items => .print "[" :: Process.layoutAll items ++ [.print "]"]
  | .tuple items => .print "(" :: Process.layoutAll items ++ [.print ")"]
  | .map entries => .print "\x7b" :: Process.layoutEntries entries ++ [.print "\x7d"]
  | .select specimen cases =>
    .newline :: .print "match (" :: specimen.layout ++
      .enter ") \x7b" :: Process.layoutCases cases ++ [.leave "\x7d"]
  | .send destination arguments =>
    destination.layout ++ .print "!(" :: Process.layoutAll arguments ++ [.print ")"]
  | .binary operator left right =>
    left.layout ++ .print (" " ++ operator ++ " ") :: right.layout
  | .unary operator operand =>
    .print operator :: .print "\x7b" :: operand.layout ++ [.print "\x7d"]
  | .receive clauses continuation =>
    .print "for(" :: Name.layoutClauses clauses ++
      .enter ") \x7b" :: continuation.layout ++ [.leave "\x7d"]
  | .contract name formals body =>
    .print "contract " :: name.layout ++ .print "(" :: Name.layoutAll formals ++
      .enter ") = \x7b" :: body.layout ++ [.leave "\x7d"]
  | .drop name => .print "*" :: name.layout
  | .par left right => left.layout ++ .newline :: .print "|" :: .newline :: right.layout
  | .new bindings body =>
    .newline :: .print "new " :: Binding.layoutAll bindings ++
      .newline :: .enter "in \x7b" :: body.layout ++ [.leave "\x7d"]
  | .unspecified => [.stuck (.unspecified "Process")]

/-- The commands that write a name. -/
def Name.layout : Name → List Command
  | .var identifier => [.print identifier]
  | .quote process => .print "@\x7b " :: process.layout ++ [.print " \x7d"]
  | .unspecified => [.stuck (.unspecified "Name")]

/-- Processes with commas between them. -/
def Process.layoutAll : List Process → List Command
  | [] => []
  | [p] => p.layout
  | p :: q :: rest => p.layout ++ .print ", " :: Process.layoutAll (q :: rest)

/-- Entries of a map with commas between them. -/
def Process.layoutEntries : List (WideString × Process) → List Command
  | [] => []
  | [(key, p)] => .print (Ground.quotedText key) :: .print ": " :: p.layout
  | (key, p) :: e :: rest =>
    .print (Ground.quotedText key) :: .print ": " :: p.layout ++
      .print ", " :: Process.layoutEntries (e :: rest)

/-- Cases, each a level of its own. -/
def Process.layoutCases : List (Process × Process) → List Command
  | [] => []
  | (pattern, body) :: rest =>
    pattern.layout ++ .enter " => \x7b" :: body.layout ++
      .leave "\x7d" :: Process.layoutCases rest

/-- Names with commas between them. -/
def Name.layoutAll : List Name → List Command
  | [] => []
  | [n] => n.layout
  | n :: m :: rest => n.layout ++ .print ", " :: Name.layoutAll (m :: rest)

/-- Clauses of a receiver with semicolons between them. -/
def Name.layoutClauses : List (List Name × Name) → List Command
  | [] => []
  | [(patterns, channel)] => Name.layoutAll patterns ++ .print " <- " :: channel.layout
  | (patterns, channel) :: c :: rest =>
    Name.layoutAll patterns ++ .print " <- " :: channel.layout ++
      .print "; " :: Name.layoutClauses (c :: rest)

end

/-- Writes a process with a printer, as far as it has a text. -/
def Process.render (p : Process) (out : Printer) : Printer × Option RenderError :=
  out.run p.layout

/-- The text of a process. -/
def Process.text (p : Process) : Except RenderError WideString :=
  match p.render {} with
  | (out, none) => .ok out.text
  | (_, some error) => .error error

end RhoScript
