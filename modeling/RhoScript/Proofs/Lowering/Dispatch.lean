import RhoScript.Proofs.Lowering.Values

/-!
# What a program prescribes

The statements of a program prescribe what is sent and in which order: a line for the console, the
value of a function, a message, or a message whose reply is awaited. `Dispatch` names these, and
`treeDispatches` lists them as they stand in the source, at any depth. The reply channels are
numbered in that order.
-/

namespace RhoScript

/-- A channel and what is sent over it. -/
abbrev Send := Name × List Process

namespace Lowering

/-- Something that a statement sends. -/
inductive Dispatch where
  /-- A line for the console. -/
  | log (argument : Node)
  /-- The value of a function. -/
  | answer (argument : Option Node)
  /-- A message without a reply. -/
  | message (call : Node)
  /-- A message whose reply is awaited. -/
  | request (r : Request)

mutual

/-- What the statements of a block send. -/
def blockDispatches : List Node → List Dispatch
  | [] => []
  | s :: rest => statementDispatches s ++ blockDispatches rest
termination_by structural body => body

/-- What a statement sends. A statement that is replaced sends nothing. -/
def statementDispatches : Node → List Dispatch
  | .expressionStatement _ e => match loggedArgument? e with
    | some argument => [.log argument]
    | none => if isCall e then [.message e] else []
  | .returnStatement _ argument => [.answer argument]
  | .switchStatement _ _ cases => partsDispatches cases
  | .variableDeclaration _ declarations _ => partsDispatches declarations
  | _ => []
termination_by structural s => s

/-- What the parts of a statement send. -/
def partsDispatches : List Node → List Dispatch
  | [] => []
  | n :: rest => partDispatches n ++ partsDispatches rest
termination_by structural parts => parts

/-- What a part of a statement sends: a case, a declared variable, an object of methods, a method and
its function, or the body of that. -/
def partDispatches : Node → List Dispatch
  | .switchCase _ _ body | .program _ body | .blockStatement _ body => blockDispatches body
  | .variableDeclarator _ id init => initialDispatches id init
  | .objectExpression _ properties => partsDispatches properties
  | .property _ _ value _ _ _ _ => partDispatches value
  | .functionExpression _ _ _ body _ => partDispatches body
  | _ => []
termination_by structural n => n

/-- What the initial value of a variable sends. -/
def initialDispatches (id : Node) (init : Option Node) : List Dispatch :=
  match init with
  | some (.awaitExpression loc argument) =>
    (requests id (.awaitExpression loc argument) argument).map .request
  | some (.callExpression _ callee arguments) =>
    if name? callee = some "harden" then partsDispatches arguments else []
  | _ => []
termination_by structural init

end

/-- What a whole tree sends. -/
def treeDispatches : Node → List Dispatch
  | .program _ items => blockDispatches (programStatements items)
  | .blockStatement _ body => blockDispatches body
  | _ => []

/-- The message of `E(x)(a)` or `E(x).m(a)`. -/
def message? : Node → Option EventualCall
  | .callExpression _ (.callExpression _ (.identifier _ "E") [.identifier _ target]) arguments =>
    some ⟨target, none, arguments⟩
  | .callExpression _ (.memberExpression _ (.callExpression _ (.identifier _ "E")
      [.identifier _ target]) (.identifier _ method) false) arguments =>
    some ⟨target, some method, arguments⟩
  | _ => none

/-- The send of a message: the name of the method comes before the arguments, and a reply channel
after them. -/
def messageSend? (call : Node) (reply : Option String) : Option Send := do
  let m ← message? call
  let arguments ← (toProcesses m.arguments).toOption
  return (.var m.target, m.method.toList.map (fun s => .ground (.string s)) ++ arguments ++
    reply.toList.map fun c => .drop (.var c))

/-- The send of a dispatch, if `k` is the number of the next reply channel. -/
def Dispatch.send? (k : Nat) : Dispatch → Option Send
  | .log argument => do return (.var "console", [← (toProcess argument).toOption])
  | .answer none => some (.var "__return", [.nil])
  | .answer (some argument) => do return (.var "__return", [← (toProcess argument).toOption])
  | .message call => messageSend? call none
  | .request r => messageSend? r.call (replyChannel r.label k)

/-- The awaited calls among dispatches. -/
def requestsOf : List Dispatch → List Request
  | [] => []
  | .request r :: rest => r :: requestsOf rest
  | _ :: rest => requestsOf rest

theorem requestsOf_append (ds es : List Dispatch) :
    requestsOf (ds ++ es) = requestsOf ds ++ requestsOf es := by
  induction ds with
  | nil => rfl
  | cons d rest ih => cases d <;> simp [requestsOf, ih]

/-- The numbers that a dispatch and those after it take. -/
theorem length_requestsOf_cons (d : Dispatch) (ds : List Dispatch) :
    (requestsOf (d :: ds)).length = (requestsOf [d]).length + (requestsOf ds).length := by
  rw [← List.length_append, ← requestsOf_append, List.singleton_append]

/-! ### Messages -/

theorem eq_call_of_recipient {n : Node} {target : String} (h : recipient n = .ok target) :
    ∃ loc cloc iloc, n = .callExpression loc (.identifier cloc "E") [.identifier iloc target] := by
  unfold recipient at h
  split at h
  · split at h
    · rename_i loc callee arguments hE
      cases callee <;> simp only [name?, reduceCtorEq, Option.some.injEq] at hE
      subst hE
      split at h
      · obtain ⟨iloc, rfl⟩ := eq_identifier_of_identifierName h
        exact ⟨_, _, _, rfl⟩
      · cases h
    · cases h
  · cases h

/-- The call that lowering finds is the message that is written. -/
theorem message?_of_eventualCall {n : Node} {call : EventualCall}
    (h : eventualCall (some n) = .ok call) : message? n = some call := by
  cases n
  case callExpression loc callee arguments =>
    simp only [eventualCall, except_bind_eq_ok, except_pure_eq_ok] at h
    obtain ⟨⟨target, method⟩, htarget, rfl⟩ := h
    unfold eventualTarget at htarget
    split at htarget
    · simp only [except_bind_eq_ok, except_pure_eq_ok] at htarget
      obtain ⟨_, hrecipient, heq⟩ := htarget
      cases heq
      obtain ⟨_, _, _, heq⟩ := eq_call_of_recipient hrecipient
      cases heq
      rfl
    · simp only [except_bind_eq_ok, except_pure_eq_ok] at htarget
      obtain ⟨_, hrecipient, heq⟩ := htarget
      cases heq
      obtain ⟨_, _, _, rfl⟩ := eq_call_of_recipient hrecipient
      rfl
    · cases htarget
    · cases htarget
  all_goals cases h

theorem messageSend?_of_eventualCall {n : Node} {call : EventualCall} {arguments : List Process}
    (hcall : eventualCall (some n) = .ok call) (harguments : toProcesses call.arguments = .ok arguments)
    (reply : Option String) :
    messageSend? n reply = some (.var call.target,
      call.method.toList.map (fun s => .ground (.string s)) ++ arguments ++
        reply.toList.map fun c => .drop (.var c)) := by
  simp [messageSend?, message?_of_eventualCall hcall, harguments, Except.toOption]

theorem isCall_of_eventualCall {n : Node} {call : EventualCall}
    (h : eventualCall (some n) = .ok call) : isCall n = true := by
  cases n
  case callExpression => rfl
  all_goals cases h

theorem loggedArgument?_of_not_isCall {n : Node} (h : isCall n = false) :
    loggedArgument? n = none := by
  cases n
  case callExpression => cases h
  all_goals rfl

/-! ### Statements -/

/-- A statement that is replaced sends nothing. -/
theorem Soft.dispatches_eq {s n : Node} {expected : String} (h : Soft s expected n) :
    statementDispatches s = [] := by
  cases h with
  | statement hs =>
    cases s
    case variableDeclaration | expressionStatement | switchStatement | returnStatement => cases hs
    all_goals rfl
  | expression he => simp [statementDispatches, loggedArgument?_of_not_isCall he, he]
  | initial hn =>
    cases n
    case awaitExpression | objectExpression | callExpression | literal => cases hn
    all_goals rfl
  | missing => rfl

theorem statementDispatches_await (loc dloc aloc : Loc) (id argument : Node) :
    statementDispatches (constant loc dloc id (some (.awaitExpression aloc argument))) =
      (requests id (.awaitExpression aloc argument) argument).map .request := by
  simp [statementDispatches, partsDispatches, partDispatches, initialDispatches]

theorem statementDispatches_suite (loc dloc cloc hloc oloc : Loc) (id : Node)
    (properties : List Node) :
    statementDispatches (constant loc dloc id (some (.callExpression cloc
      (.identifier hloc "harden") [.objectExpression oloc properties]))) =
      partsDispatches properties := by
  simp [statementDispatches, partsDispatches, partDispatches, initialDispatches, name?]

theorem partDispatches_method {loc floc : Loc} {key body : Node} {id : Option Node}
    {params statements : List Node} {isAsync method shorthand computed : Bool} {kind : String}
    (h : bodyStatements? body = some statements) :
    partDispatches (.property loc key (.functionExpression floc id params body isAsync) kind method
      shorthand computed) = blockDispatches statements := by
  rw [partDispatches, partDispatches]
  unfold bodyStatements? at h
  split at h <;> cases h <;> rw [partDispatches]

end Lowering

end RhoScript
