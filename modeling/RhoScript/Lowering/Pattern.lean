import RhoScript.Lowering.Expression

/-!
# Lowering of patterns

A pattern becomes a name that a message can be received into: an identifier is a variable, and an
object pattern with the keys `_0`, `_1` and so on, in order, is a quoted tuple.
-/

namespace RhoScript.Lowering

/-- Whether the properties have the keys `_i`, `_(i+1)` and so on. -/
def tupleKeys : Nat → List Node → Bool
  | _, [] => true
  | i, p :: rest => propertyKey? p == some (s!"_{i}" : WideString) && tupleKeys (i + 1) rest

/-- The values of properties. -/
def propertyValues : List Node → List Node
  | [] => []
  | .property _ _ value _ _ _ _ :: rest => value :: propertyValues rest
  | _ :: rest => propertyValues rest

/-- The name that a pattern receives into. -/
def toPattern : Node → Except Failure Name
  | .identifier _ name => .ok (.var name)
  | .objectPattern loc properties =>
    if tupleKeys 0 properties then
      return .quote (.tuple (← toProcesses (propertyValues properties)))
    else
      .error (.unexpected "tuple pattern \x7b _0: ..., _1: ..., _2: ..., ... \x7d"
        (.objectPattern loc properties))
  | n => .error (.unexpected "Identifier | ObjectPattern" n)

/-- The names of patterns, from left to right. -/
def toPatterns : List Node → Except Failure (List Name)
  | [] => .ok []
  | n :: rest => return (← toPattern n) :: (← toPatterns rest)

/-- The names that an array pattern without holes receives into. -/
def toArrayPattern : Node → Except Failure (List Name)
  | .arrayPattern loc elements => match members? elements with
    | none => .error (.unexpected "pattern" (.arrayPattern loc elements) "array hole")
    | some elements => toPatterns elements
  | n => .error (.unexpected "ArrayPattern" n)

end RhoScript.Lowering
