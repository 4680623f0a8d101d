import RhoScript.Lowering.Ledger
import RhoScript.Lowering.Pattern

/-!
# Lowering of eventual sends

`E(x)(a)` and `E(x).m(a)` send a message to `x`. Such a call becomes a send over the channel of that
name, with the method's name as first argument. Where the reply is awaited, a reply channel is the
last argument, and the reply is received from it. `Promise.all` sends several messages at once and
awaits all replies.
-/

namespace RhoScript.Lowering

/-- A message: to whom, for which method, and with which arguments. -/
structure EventualCall where
  target : String
  method : Option String
  arguments : List Node

/-- The identifier `x` in `E(x)`. -/
def recipient : Node → Except Failure String
  | .callExpression loc callee arguments =>
    if name? callee = some "E" then
      match arguments with
      | [argument] => identifierName argument
      | arguments => .error (.unexpected "E(_1 arg_)" (.callExpression loc callee arguments)
          (argumentCount arguments))
    else .error (.unexpected "E(...)" (.callExpression loc callee arguments))
  | n => .error (.unexpected "E(...)" n)

/-- The recipient, and the method if one is named, of `E(x)` or `E(x).m`. -/
def eventualTarget : Node → Except Failure (String × Option String)
  | .callExpression loc callee arguments =>
    return (← recipient (.callExpression loc callee arguments), none)
  | .memberExpression _ object (.identifier _ method) false =>
    return (← recipient object, some method)
  | .memberExpression _ _ property _ => .error (.unexpected "method name" property)
  | n => .error (.unexpected "CallExpression | MemberExpression" n)

/-- The message that an expression, if there is one, sends. -/
def eventualCall : Option Node → Except Failure EventualCall
  | some (.callExpression _ callee arguments) => do
    let (target, method) ← eventualTarget callee
    return ⟨target, method, arguments⟩
  | some n => .error (.unexpected "CallExpression" n)
  | none => .error (.noNode "line")

/-- The send of a message. -/
def sendTo (target : String) (method : Option String) (arguments : List Process) : Process :=
  .send (.var target) (match method with
    | none => arguments
    | some method => .ground (.string method) :: arguments)

/-- The send of a message whose reply goes to the given channel. -/
def eventualSend (n : Option Node) (reply : String) : Except Failure Process := do
  let call ← eventualCall n
  let arguments ← toProcesses call.arguments
  return sendTo call.target call.method (arguments ++ [.drop (.var reply)])

/-- The sends of several messages, each with its reply channel. -/
def eventualSends : List (Node × String) → Except Failure (List Process)
  | [] => .ok []
  | (n, reply) :: rest => return (← eventualSend (some n) reply) :: (← eventualSends rest)

/-- A reply channel for each node. -/
def freshChannels : List Node → LowerM (List String)
  | [] => return []
  | n :: rest => return (← freshChannel n) :: (← freshChannels rest)

/-- The expressions that `Promise.all` is applied to. -/
def promises : Node → Except Failure (List Node)
  | .callExpression loc callee arguments =>
    match callee with
    | .memberExpression _ object property _ =>
      if name? object = some "Promise" ∧ name? property = some "all" then
        match arguments with
        | [.arrayExpression aloc elements] => match members? elements with
          | some (n :: rest) => .ok (n :: rest)
          | _ => .error (.unexpected "[call, ...]" (.arrayExpression aloc elements)
              "empty or sparse array")
        | arguments =>
          .error (.unexpected "ArrayExpression[1]" (.callExpression loc callee arguments)
            (argumentCount arguments))
      else .error (.unexpected "Promise.all" callee)
    | callee => .error (.unexpected "Promise.all" callee)
  | n => .error (.noField n "callee")

/-- The reply channels and the sends of `Promise.all`. -/
def promiseAll (n : Node) : LowerM (List String × Process) := do
  let calls ← promises n
  let channels ← freshChannels calls
  let sends ← eventualSends (calls.zip channels)
  return (channels, Process.besideAll sends)

/-- The sends of an awaited expression, the reply channels, and how the replies are received. -/
structure Awaited where
  channels : List String
  clauses : List (List Name × Name)
  sends : Process

/-- Whether a node calls a member of `Promise`. -/
def isPromiseCall : Node → Bool
  | .callExpression _ (.memberExpression _ object _ _) _ => name? object == some "Promise"
  | _ => false

/-- A declaration that binds a pattern to what is awaited. The node that awaits gives a single reply
channel its name. -/
def awaitInto (pattern awaiting : Node) (argument : Option Node) : LowerM Awaited := do
  if argument.any isPromiseCall then
    let (channels, sends) ← match argument with
      | some n => promiseAll n
      | none => throw (.noNode "callee")
    let patterns ← toArrayPattern pattern
    if channels.length = patterns.length then
      return ⟨channels, (patterns.zip channels).map fun (p, c) => ([p], .var c), sends⟩
    else
      throw (.located (s!"Promise.all mismatch: {channels.length} expressions to " ++
        s!"{patterns.length} patterns") pattern)
  else
    let channel ← freshChannel awaiting
    let send ← eventualSend argument channel
    let name ← toPattern pattern
    return ⟨[channel], [([name], .var channel)], send⟩

end RhoScript.Lowering
