import RhoScript.Diagnostic
import RhoScript.Lowering.Failure
import RhoScript.Term.Basic

/-!
# What lowering keeps track of

While statements are lowered, reply channels are numbered, and each shape that is replaced by a
placeholder is noted and warned of. A ledger keeps these; it survives a failure, so that the
warnings given before it can still be seen.
-/

namespace RhoScript.Lowering

/-- The next number of a reply channel, the diagnostics of the current run, and the warnings given
in all runs. -/
structure Ledger where
  counter : Nat := 0
  diagnostics : List Diagnostic := []
  warnings : List Diagnostic := []
deriving DecidableEq, Repr, Inhabited

/-- A ledger for a new run: only the warnings are kept. -/
def Ledger.restart (l : Ledger) : Ledger := { warnings := l.warnings }

/-- Notes a shape that was replaced, and warns of it. -/
def Ledger.note (l : Ledger) (d : Diagnostic) : Ledger :=
  { l with diagnostics := l.diagnostics ++ [d], warnings := l.warnings ++ [d] }

/-- Lowering with a ledger. -/
abbrev LowerM := ExceptT Failure (StateM Ledger)

/-- The name of the reply channel of that number for a node. -/
def replyChannel (n : Node) (number : Nat) : String := s!"{n.type}_{n.position.label}_{number}"

/-- A reply channel that no other node gets. -/
def freshChannel (n : Node) : LowerM String := do
  let ledger ← get
  set { ledger with counter := ledger.counter + 1 }
  return replyChannel n ledger.counter

@[simp] theorem run_freshChannel (n : Node) (l : Ledger) :
    (freshChannel n).run l =
      (.ok (replyChannel n l.counter), { l with counter := l.counter + 1 }) := rfl

/-- The mark in front of the type of what a placeholder replaces. -/
def placeholderMark : String := "TODO@@ "

/-- What stands for a node that is not supported. -/
def placeholder (n : Node) : Process := .ground (.string (placeholderMark ++ n.type))

/-- Replaces a node by a placeholder and says what was expected. -/
def replace (expected : String) (n : Node) : LowerM Process := do
  modify fun ledger => ledger.note ⟨n.position, expected, n.type⟩
  return placeholder n

@[simp] theorem run_replace (expected : String) (n : Node) (l : Ledger) :
    (replace expected n).run l =
      (.ok (placeholder n), l.note ⟨n.position, expected, n.type⟩) := rfl

end RhoScript.Lowering
