import RhoScript.Lowering.Failure
import RhoScript.Term.Basic

/-!
# Lowering of expressions

An expression becomes a process that stands for its value: a literal is a ground value, an
identifier is what the name of that spelling quotes, and objects are maps. The supported operators
and the two functions `bundlePlus` and `tuple` have counterparts in the calculus; everything else is
rejected.
-/

namespace RhoScript.Lowering

/-- The value of a literal. -/
def literalValue : Node → Except Failure (Option Ground)
  | .literal _ value _ => .ok value
  | n => .error (.unexpected "Literal" n)

/-- The name of an identifier. -/
def identifierName : Node → Except Failure String
  | .identifier _ name => .ok name
  | n => .error (.unexpected "Identifier" n)

/-- The names of identifiers, from left to right. -/
def identifierNames : List Node → Except Failure (List String)
  | [] => .ok []
  | n :: rest => return (← identifierName n) :: (← identifierNames rest)

/-- The name of a node that is an identifier. -/
def name? : Node → Option String
  | .identifier _ name => some name
  | _ => none

/-- The key of a property whose name is written plainly or as a string, and not computed. -/
def propertyKey? : Node → Option WideString
  | .property _ key _ _ _ _ false => match key with
    | .identifier _ name => some (name : WideString)
    | .literal _ (some (.string s)) _ => some s
    | _ => none
  | _ => none

/-- The operator of the calculus for an operator of the source. -/
def operator? : String → Option String
  | "&&" => some "and"
  | "||" => some "or"
  | "===" => some "=="
  | _ => none

/-- The members of a list without holes. -/
def members? : List (Option Node) → Option (List Node)
  | [] => some []
  | some n :: rest => (members? rest).map (n :: ·)
  | none :: _ => none

/-- How messages count arguments. -/
def argumentCount (arguments : List Node) : String := s!"{arguments.length} arguments"

mutual

/-- The process of an expression. -/
def toProcess : Node → Except Failure Process
  | .literal _ none _ => .ok .nil
  | .literal _ (some value) _ => .ok (.ground value)
  | .identifier _ name => .ok (.drop (.var name))
  | .binaryExpression loc operator left right => match operator? operator with
    | none => .error (.unexpected "&& || ===" (.binaryExpression loc operator left right) operator)
    | some operator => return .binary operator (← toProcess left) (← toProcess right)
  | .logicalExpression loc operator left right => match operator? operator with
    | none => .error (.unexpected "&& || ===" (.logicalExpression loc operator left right) operator)
    | some operator => return .binary operator (← toProcess left) (← toProcess right)
  | .callExpression loc callee arguments => match name? callee with
    | none => .error (.unexpected "Identifier" callee)
    | some name =>
      if name = "bundlePlus" then
        match arguments with
        | [argument] => return .unary "bundle+" (← toProcess argument)
        | arguments =>
          .error (.unexpected "bundlePlus(1 arg)" (.callExpression loc callee arguments)
            (argumentCount arguments))
      else if name = "tuple" then return .tuple (← toProcesses arguments)
      else .error (.unexpected "bundlePlus | tuple" callee name)
  | .objectExpression _ properties => return .map (← toEntries properties)
  | n => .error (.unexpected
      "Literal | Identifier | && || === | bundlePlus(...) | tuple(...) | \x7b...\x7d" n)

/-- The processes of expressions, from left to right. -/
def toProcesses : List Node → Except Failure (List Process)
  | [] => .ok []
  | n :: rest => return (← toProcess n) :: (← toProcesses rest)

/-- The map entry of a property: its key is a string, and it is no method. -/
def toEntry : Node → Except Failure (WideString × Process)
  | .property loc key value kind method shorthand computed =>
    if method then
      .error (.unexpected "Property" (.property loc key value kind method shorthand computed))
    else match key with
      | .literal _ (some (.string s)) _ => return (s, ← toProcess value)
      | key => .error (.unexpected "string literal key" key)
  | n => .error (.unexpected "Property" n)

/-- The map entries of properties, from left to right. -/
def toEntries : List Node → Except Failure (List (WideString × Process))
  | [] => .ok []
  | n :: rest => return (← toEntry n) :: (← toEntries rest)

end

end RhoScript.Lowering
