/-!
# Issues of data that does not fit

Data from outside is checked against the shape that it should have. Every part that does not fit
gives an issue: what is wrong, and the path of fields and list positions that leads to it. Checks of
several parts are put together so that all issues are kept, in the order of the parts.
-/

namespace RhoScript

/-- What is wrong with a part. -/
inductive Issue.Kind where
  | missing
  | modelType
  | listType
  | tupleType
  | stringType
  | boolType
  | boolParsing
  | intType
  | intParsing
  | intParsingSize
  | intFromFloat
  | finiteNumber
  | floatType
  | unionTagNotFound
  | jsonInvalid
  | tooLong
deriving DecidableEq, Repr, Inhabited

/-- The code by which reports name a kind. -/
def Issue.Kind.code : Issue.Kind → String
  | .missing => "missing"
  | .modelType => "model_type"
  | .listType => "list_type"
  | .tupleType => "tuple_type"
  | .stringType => "string_type"
  | .boolType => "bool_type"
  | .boolParsing => "bool_parsing"
  | .intType => "int_type"
  | .intParsing => "int_parsing"
  | .intParsingSize => "int_parsing_size"
  | .intFromFloat => "int_from_float"
  | .finiteNumber => "finite_number"
  | .floatType => "float_type"
  | .unionTagNotFound => "union_tag_not_found"
  | .jsonInvalid => "json_invalid"
  | .tooLong => "too_long"

/-- One step of a path. -/
inductive Issue.Step where
  | field (name : String)
  | index (i : Nat)
deriving DecidableEq, Repr, Inhabited

/-- A part that does not fit. -/
structure Issue where
  kind : Issue.Kind
  path : List Issue.Step
deriving DecidableEq, Repr, Inhabited

/-- A checked value, or the issues that were found. -/
inductive Validated (α : Type) where
  | valid (a : α)
  | invalid (issues : List Issue)
deriving Repr

namespace Validated

variable {α β : Type}

/-- One issue at the place itself. -/
def fail (kind : Issue.Kind) : Validated α := .invalid [⟨kind, []⟩]

/-- The issues lie one step further in. -/
def under (step : Issue.Step) : Validated α → Validated α
  | .valid a => .valid a
  | .invalid issues => .invalid (issues.map fun i => { i with path := step :: i.path })

/-- The issues lie in a field. -/
def inField (name : String) (v : Validated α) : Validated α := v.under (.field name)

/-- Applies a function to a checked value. -/
def map (f : α → β) : Validated α → Validated β
  | .valid a => .valid (f a)
  | .invalid issues => .invalid issues

/-- Checks two parts and keeps the issues of both. -/
def ap (f : Validated (α → β)) (v : Validated α) : Validated β :=
  match f, v with
  | .valid f, .valid a => .valid (f a)
  | .valid _, .invalid issues => .invalid issues
  | .invalid issues, .valid _ => .invalid issues
  | .invalid issues, .invalid more => .invalid (issues ++ more)

instance : Applicative Validated where
  pure := .valid
  seq f v := ap f (v ())
  map := map

/-- Checks the members of a list, each under its position, counted from the given one. -/
def list (check : α → Validated β) : Nat → List α → Validated (List β)
  | _, [] => .valid []
  | i, a :: rest => .ap (.map List.cons (under (.index i) (check a))) (list check (i + 1) rest)

end Validated

end RhoScript
