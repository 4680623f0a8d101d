import RhoScript.Lowering.Import
import RhoScript.Lowering.Statement

/-!
# Lowering of programs

A program binds what its leading imports ask for, and the console. What comes after them is the
body: either a single default export, whose function's body it is, or the statements themselves.
-/

namespace RhoScript.Lowering

/-- The binding of the console. -/
def consoleBinding : Binding := .resource "console" "rho:io:stdout"

/-- Whether a node is an import. -/
def isImport : Node → Bool
  | .importDeclaration .. => true
  | _ => false

/-- What several imports bind, from left to right. -/
def importsBindings : List Node → Except Failure (List Binding)
  | [] => .ok []
  | n :: rest => return (← importBindings n) ++ (← importsBindings rest)

/-- The process of what follows the imports. -/
def lowerItems : List Node → LowerM Process
  | .exportDefaultDeclaration _ declaration :: after => match declaration with
    | .functionDeclaration _ _ _ body _ => match after with
      | [] => lowerBody body
      | n :: _ => throw (.unexpected "end of module" n ""
          (some "the default export must be the only top-level statement"))
    | n => throw (.unexpected "FunctionDeclaration" n)
  | items => lowerBlock items

/-- The process of a program. -/
def lowerProgram (items : List Node) : LowerM Process := do
  if items.isEmpty then return .nil
  let bindings ← importsBindings (items.takeWhile isImport)
  return .new (bindings ++ [consoleBinding]) (← lowerItems (items.dropWhile isImport))

/-- The process of a program, or of a single block or expression statement. -/
def lower : Node → LowerM Process
  | .program _ body => lowerProgram body
  | .blockStatement _ body => lowerBlock body
  | .expressionStatement _ expression => toProcess expression
  | n => replace "Program | BlockStatement | ExpressionStatement" n

/-- The process of a tree, and a diagnostic for each placeholder in it. -/
structure Lowered where
  process : Process
  diagnostics : List Diagnostic

/-- Lowers a tree in a run of its own. -/
def lowerTree (n : Node) : LowerM Lowered := do
  modify Ledger.restart
  let process ← lower n
  return ⟨process, (← get).diagnostics⟩

end RhoScript.Lowering
