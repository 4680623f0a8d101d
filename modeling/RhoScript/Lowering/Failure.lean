import RhoScript.CompileError
import RhoScript.Node

/-!
# Why lowering is given up

Lowering rejects a shape that it does not support with a report. A tree that was not made from a
source text may also have a node of a wrong kind at a place where a part of the right kind is taken
for granted; then that part is missing, and there is no report to give.
-/

namespace RhoScript

/-- A part that was taken for granted and is not there. -/
inductive Misfit where
  /-- What stands there is of a kind without that field. -/
  | noField (kind field : String)
  /-- What should be a list is of the kind given. -/
  | notList (kind : String)
  /-- What should be counted is of the kind given. -/
  | notCounted (kind : String)
deriving DecidableEq, Repr, Inhabited

/-- The wording of a misfit. -/
def Misfit.message : Misfit → String
  | .noField kind field => s!"'{kind}' object has no attribute '{field}'"
  | .notList kind => s!"'{kind}' object is not subscriptable"
  | .notCounted kind => s!"object of type '{kind}' has no len()"

namespace Lowering

/-- Why lowering was given up. -/
inductive Failure where
  | rejected (report : CompileError)
  | misfit (misfit : Misfit)
deriving DecidableEq, Repr, Inhabited

/-- The kind that a missing node counts as. -/
def absent : String := "NoneType"

namespace Failure

/-- A node differs from what was expected. Where nothing else is said to be found, that is the
node's type. -/
def unexpected (expected : String) (n : Node) (found : String := "")
    (suggestion : Option String := none) : Failure :=
  let found := if found = "" then n.type else found
  .rejected { CompileError.unexpected expected n.position found with suggestion }

/-- A remark about a node. -/
def located (message : WideString) (n : Node) : Failure :=
  .rejected (CompileError.located message n.position)

/-- A node has no such field. -/
def noField (n : Node) (field : String) : Failure := .misfit (.noField n.tag field)

/-- There is no node that could have such a field. -/
def noNode (field : String) : Failure := .misfit (.noField absent field)

end Failure

end Lowering

end RhoScript
