import RhoScript.Lowering.Eventual

/-!
# Lowering of statements

Each statement of a block scopes over the statements after it, so a statement is lowered together
with what the rest of the block becomes: a declaration puts the rest under the names that it binds,
and what only acts stands beside the rest. A statement of a kind that is not supported, or whose
expression is not, is replaced by a placeholder; within a supported statement everything has to fit.
-/

namespace RhoScript.Lowering

/-- The channel that a function returns over. -/
def returnChannel : String := "__return"

/-- The argument of `console.log`, for a call with just one. -/
def loggedArgument? : Node → Option Node
  | .callExpression _ (.memberExpression _ object property false) [argument] =>
    if name? object = some "console" ∧ name? property = some "log" then some argument else none
  | _ => none

/-- A statement that has to be the last of its block is. -/
def lastOfBlock (s : Node) : List Node → Except Failure Unit
  | [] => .ok ()
  | n :: _ => .error (.unexpected "end of block" n ""
      (some s!"nothing may follow this {s.type} in its block"))

/-- The only declarator of a `const` declaration. -/
def declarator : Node → Except Failure Node
  | .variableDeclaration loc declarations kind =>
    let n := .variableDeclaration loc declarations kind
    if kind ≠ "const" then .error (.unexpected "const" n kind)
    else match declarations with
      | [.variableDeclarator loc id init] => .ok (.variableDeclarator loc id init)
      | [d] => .error (.unexpected "VariableDeclarator" d)
      | ds => .error (.unexpected "1 declaration" n s!"{ds.length} declarations")
  | .property loc key value kind method shorthand computed =>
    let n := .property loc key value kind method shorthand computed
    if kind ≠ "const" then .error (.unexpected "const" n kind)
    else .error (.noField n "declarations")
  | n => .error (.noField n "kind")

/-- The formal parameters of the contract for a method: its name, its parameters and, unless there
is one of that name, the return channel. -/
def formals (method : WideString) (params : List String) : List Name :=
  .quote (.ground (.string method)) :: params.map .var ++
    (if returnChannel ∈ params then [] else [.var returnChannel])

/-- What is expected of the initial value of a declaration. -/
def initialShapes : String := "\x7b\x7d | AwaitExpression | harden(\x7b...\x7d) | Literal"

/-- What is expected of an expression that is a statement. -/
def expressionShapes : String := "console.log(...) | E(...)...(...)"

/-- What is expected of a statement. -/
def statementShapes : String :=
  "VariableDeclaration | ExpressionStatement | SwitchStatement | ReturnStatement"

mutual

/-- The process of the statements of a block. -/
def lowerBlock : List Node → LowerM Process
  | [] => return .nil
  | s :: rest => lowerStatement s rest (lowerBlock rest)
termination_by structural body => body

/-- The process of a statement, given the statements after it and how to lower those. -/
def lowerStatement (s : Node) (after : List Node) (rest : LowerM Process) : LowerM Process :=
  match s with
  | .variableDeclaration loc declarations kind => do
    let _ ← declarator (.variableDeclaration loc declarations kind)
    lowerDeclarators declarations rest
  | .expressionStatement loc expression =>
    match loggedArgument? expression with
    | some argument => do
      let value ← toProcess argument
      return .beside (.send (.var "console") [value]) (← rest)
    | none => match expression with
      | .callExpression cloc callee arguments => do
        let call ← eventualCall (some (.callExpression cloc callee arguments))
        lastOfBlock (.expressionStatement loc expression) after
        let arguments ← toProcesses call.arguments
        return sendTo call.target call.method arguments
      | n => return .beside (← replace expressionShapes n) (← rest)
  | .switchStatement _ discriminant cases => do
    let specimen ← toProcess discriminant
    let cases ← lowerCases cases
    return .beside (.select specimen cases) (← rest)
  | .returnStatement loc argument => do
    lastOfBlock (.returnStatement loc argument) after
    let value ← match argument with
      | some n => toProcess n
      | none => pure .nil
    return .send (.var returnChannel) [value]
  | n => return .beside (← replace statementShapes n) (← rest)
termination_by structural s

/-- The process of a declaration with one declarator, given how to lower what it scopes over. Where
nothing is declared, that is all. -/
def lowerDeclarators (declarators : List Node) (rest : LowerM Process) : LowerM Process :=
  match declarators with
  | .variableDeclarator loc id init :: _ =>
    lowerInitial (.variableDeclarator loc id init) id init rest
  | _ => rest
termination_by structural declarators

/-- The process of a declarator with the given pattern and initial value. -/
def lowerInitial (d id : Node) (init : Option Node) (rest : LowerM Process) : LowerM Process :=
  match init with
  | some (.awaitExpression loc argument) => do
    let awaited ← awaitInto id (.awaitExpression loc argument) (some argument)
    let rest ← rest
    return .new (awaited.channels.map .plain)
      (.beside awaited.sends (.receive awaited.clauses rest))
  | some (.objectExpression loc properties) => do
    if !properties.isEmpty then
      throw (.unexpected "\x7b\x7d" (.objectExpression loc properties) "non-empty ObjectExpression")
    let name ← identifierName id
    return .new [.plain name] (← rest)
  | some (.callExpression loc callee arguments) => do
    let name ← identifierName callee
    if name ≠ "harden" then throw (.unexpected "harden" callee name)
    let (target, methods) ← lowerSuite id (.callExpression loc callee arguments) arguments
    let rest ← rest
    return .new [.plain target] (.besideAll (methods ++ [rest]))
  | some (.literal loc value raw) => do
    let name ← identifierName id
    let specimen ← toProcess (.literal loc value raw)
    return .select specimen [(.drop (.var name), ← rest)]
  | some n => return .beside (← replace initialShapes n) (← rest)
  | none => return .beside (← replace initialShapes d) (← rest)
termination_by structural init

/-- The target and the contracts of `harden` applied to an object of methods. -/
def lowerSuite (id call : Node) (arguments : List Node) : LowerM (String × List Process) := do
  let target ← identifierName id
  match arguments with
  | [argument] => return (target, ← lowerObject target argument)
  | arguments => throw (.unexpected "harden(1 arg)" call (argumentCount arguments))
termination_by structural arguments

/-- The contracts for the methods of an object. -/
def lowerObject (target : String) (n : Node) : LowerM (List Process) :=
  match n with
  | .objectExpression _ properties => lowerMethods target properties
  | n => throw (.unexpected "ObjectExpression" n)
termination_by structural n

/-- The contracts for methods, from left to right. -/
def lowerMethods (target : String) (properties : List Node) : LowerM (List Process) :=
  match properties with
  | [] => return []
  | p :: rest => return (← lowerMethod target p) :: (← lowerMethods target rest)
termination_by structural properties

/-- The contract for a method. -/
def lowerMethod (target : String) (p : Node) : LowerM Process :=
  match p with
  | .property loc key value kind method shorthand computed =>
    match propertyKey? (.property loc key value kind method shorthand computed) with
    | some name => lowerFunction target name value
    | none => throw (.unexpected "method name" key)
  | n => throw (.unexpected "method name" n)
termination_by structural p

/-- The contract for a method's function. -/
def lowerFunction (target : String) (method : WideString) (f : Node) : LowerM Process :=
  match f with
  | .functionExpression _ _ params body _ => do
    let params ← identifierNames params
    return .contract (.var target) (formals method params) (← lowerBody body)
  | n => throw (.unexpected "FunctionExpression" n)
termination_by structural f

/-- The process of a function's body. -/
def lowerBody (n : Node) : LowerM Process :=
  match n with
  | .program _ body | .blockStatement _ body => lowerBlock body
  | .functionDeclaration _ _ _ body _ | .functionExpression _ _ _ body _ =>
    throw (.misfit (.notList body.tag))
  | n => throw (.noField n "body")
termination_by structural n

/-- The pattern and the process of the cases of a switch, from left to right. -/
def lowerCases (cases : List Node) : LowerM (List (Process × Process)) :=
  match cases with
  | [] => return []
  | c :: rest => return (← lowerCase c) :: (← lowerCases rest)
termination_by structural cases

/-- The pattern and the process of a case. -/
def lowerCase (c : Node) : LowerM (Process × Process) :=
  match c with
  | .switchCase loc test consequent => match test with
    | none =>
      throw (.located "expected case <test>; found default" (.switchCase loc test consequent))
    | some test => return (← toProcess test, ← lowerBlock consequent)
  | .ifStatement _ test consequent _ => do
    let _ ← toProcess test
    throw (.misfit (.notList consequent.tag))
  | n => throw (.noField n "test")
termination_by structural c

end

end RhoScript.Lowering
