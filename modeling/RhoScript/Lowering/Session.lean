import RhoScript.Lowering.Program

/-!
# Sessions

Several runs of lowering, or of parts of it, can share one ledger. A session keeps it, and says
which warnings a listener has heard. The parts that need more than a node's kind to be right are
here in a form that any node may be given to.
-/

namespace RhoScript.Lowering

/-- A ledger in use, and whether anyone listens to warnings. -/
structure Session where
  listening : Bool := true
  ledger : Ledger := {}
deriving DecidableEq, Repr, Inhabited

namespace Session

/-- Runs a part of lowering. What it noted is kept even if it fails. -/
def run {α : Type} (s : Session) (part : LowerM α) : Except Failure α × Session :=
  let (result, ledger) := ExceptT.run part s.ledger
  (result, { s with ledger })

/-- The warnings that were heard. -/
def heard (s : Session) : List Diagnostic := if s.listening then s.ledger.warnings else []

end Session

/-- What an expression or a statement is applied to. -/
def operand : Node → Except Failure (Option Node)
  | .awaitExpression _ argument | .unaryExpression _ _ argument _ | .throwStatement _ argument =>
    .ok (some argument)
  | .returnStatement _ argument => .ok argument
  | n => .error (.noField n "argument")

/-- How a declarator awaits its initial value. -/
def awaited : Node → LowerM Awaited
  | .variableDeclarator _ id (some init) => do
    let argument ← operand init
    awaitInto id init argument
  | .variableDeclarator _ _ none => throw (.noNode "argument")
  | n => throw (.noField n "init")

/-- The target and the contracts of a declarator for an object of methods. -/
def methodSuite : Node → LowerM (String × List Process)
  | .variableDeclarator _ id init => match init with
    | some (.callExpression loc callee arguments) =>
      lowerSuite id (.callExpression loc callee arguments) arguments
    | some n => do
      let _ ← identifierName id
      throw (.noField n "arguments")
    | none => do
      let _ ← identifierName id
      throw (.noNode "arguments")
  | .functionDeclaration loc id params body isAsync => do
    noSuite (.functionDeclaration loc id params body isAsync) id
  | .functionExpression loc id params body isAsync => do
    noSuite (.functionExpression loc id params body isAsync) id
  | n => throw (.noField n "id")
where
  /-- A function may have a name, but it has no initial value. -/
  noSuite (n : Node) (id : Option Node) : LowerM (String × List Process) := do
    match id with
    | none => throw (.noNode "line")
    | some id =>
      let _ ← identifierName id
      throw (.noField n "init")

end RhoScript.Lowering
