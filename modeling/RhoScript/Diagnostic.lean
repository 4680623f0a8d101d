/-!
# Positions, diagnostics and notices

Lines are counted from one and columns from zero, in characters. A node of a tree that was not made
from a source text may have any integers here, or no location at all.

A shape outside the supported subset does not always end a compilation: at some places it is
replaced by a placeholder, and a diagnostic tells so. It is one of the notices of a run, which are what
the run tells beside its result, one line each: how it proceeds, which shapes it replaced, and what
came of it. Each sort of notice has a coloured label.
-/

namespace RhoScript

/-! ### Positions in a source -/

/-- A line and a column. -/
structure Position where
  line : Int
  column : Int
deriving DecidableEq, Repr, Inhabited

/-- How messages cite a position. -/
def Position.label (p : Position) : String := s!"{p.line}c{p.column}"

/-- Where a node begins and, if that is known, where it ends. -/
structure SourceLocation where
  start : Position
  stop : Option Position
deriving DecidableEq, Repr, Inhabited

/-! ### Diagnostics -/

/-- The note of a shape that was replaced by a placeholder. -/
structure Diagnostic where
  position : Position
  expected : String
  found : String
deriving DecidableEq, Repr, Inhabited

/-- The wording of a diagnostic. -/
def Diagnostic.text (d : Diagnostic) : String :=
  s!"{d.position.label}: expected {d.expected}; found {d.found}"

/-! ### Notices -/

/-- A line about a run. -/
inductive Notice where
  /-- How the run proceeds. -/
  | debug (text : String)
  /-- A shape was replaced. -/
  | warning (diagnostic : Diagnostic)
  /-- What came of the run. -/
  | info (text : String)
deriving DecidableEq, Repr, Inhabited

namespace Notice

/-- Whether a notice only tells how the run proceeds. -/
def isDebug : Notice → Bool
  | .debug _ => true
  | _ => false

/-- The line of a notice. -/
def line : Notice → String
  | .debug text => s!"\x1b[94mDEBUG:\x1b[0m {text}\n"
  | .warning diagnostic => s!"\x1b[93mWARNING:\x1b[0m {diagnostic.text}\n"
  | .info text => s!"\x1b[92m\x1b[1mINFO:\x1b[0m {text}\n"

/-- The lines of the notices that are shown: those on how a run proceeds only if asked for. -/
def lines (verbose : Bool) (notices : List Notice) : String :=
  String.join ((notices.filter fun n => verbose || !n.isDebug).map line)

end Notice

end RhoScript
