import RhoScript.Proofs.Compile

/-!
# Documents are compiled, rejected, or lack a part

A document may hold a tree that no source text has. Main statement: if a document holds a tree, then
it is compiled to a process, or rejected with a report, or it lacks something that is taken for
granted, and then that is a misfit of a node in the tree, or its top is a function, whose statements
cannot be counted (`document_outcome`). So the documents whose top is no function, and whose nodes
have no misfits, are compiled or rejected. A function that stands alone is neither
(`lone_function_misfit`).
-/

namespace RhoScript.Compile

open Lowering

/-- **Documents are compiled or rejected, unless a part that is taken for granted is missing.** -/
theorem document_outcome (path : String) {text : String} {n : Node}
    (hload : Document.loadText text = .valid n) :
    (∃ lowered ledger, Yields (lowerTree n) {} lowered ledger ∧
      (toProcess .document path text).2 = .ok lowered) ∨
    (∃ report ledger, ExceptT.run (lowerTree n) {} = (.error (.rejected report), ledger) ∧
      (toProcess .document path text).2 = .error (.rejected report)) ∨
    ∃ misfit, (statementCount n = .error misfit ∨ ∃ m ∈ n.nodes, misfit ∈ m.misfits) ∧
      (toProcess .document path text).2 = .error (.misfit misfit) := by
  have hsafe : SafeBut (fun misfit => ∃ m ∈ n.nodes, misfit ∈ m.misfits) (lowerTree n) :=
    safeBut_lowerTree fun m hm misfit hmisfit => ⟨m, hm, hmisfit⟩
  unfold toProcess readTree
  rw [hload]
  dsimp only
  cases hcount : statementCount n with
  | error misfit => exact .inr (.inr ⟨misfit, .inl rfl, rfl⟩)
  | ok count =>
    rcases hrun : ExceptT.run (lowerTree n) {} with ⟨e | lowered, ledger⟩
    · cases e with
      | rejected report => exact .inr (.inl ⟨report, ledger, rfl, rfl⟩)
      | misfit misfit => exact .inr (.inr ⟨misfit, .inr (hsafe {} misfit (by rw [hrun])), rfl⟩)
    · exact .inl ⟨lowered, ledger, hrun, rfl⟩

/-- What a compilation missed. -/
def missed? : Except Failure Lowered → Option Misfit
  | .error (.misfit misfit) => some misfit
  | _ => none

theorem eq_misfit_of_missed? {result : Except Failure Lowered} {misfit : Misfit}
    (h : missed? result = some misfit) : result = .error (.misfit misfit) := by
  unfold missed? at h
  split at h
  · cases h
    rfl
  · cases h

/-- A document that misses something holds a tree. -/
theorem exists_tree_of_missed? {path text : String} {misfit : Misfit}
    (h : missed? (toProcess .document path text).2 = some misfit) :
    ∃ n, Document.loadText text = .valid n := by
  unfold toProcess readTree at h
  cases hload : Document.loadText text with
  | valid n => exact ⟨n, rfl⟩
  | invalid issues =>
    rw [hload] at h
    cases h

/-- A document with the default export of a function whose body is of an unknown type. -/
def bodilessExport : String :=
  "\x7b\"type\":\"Program\",\"body\":[\x7b\"type\":\"ExportDefaultDeclaration\"," ++
  "\"declaration\":\x7b\"type\":\"FunctionDeclaration\",\"body\":\x7b\"type\":\"Foreign\"\x7d\x7d\x7d]\x7d"

theorem bodilessExport_misfit : ∃ n, Document.loadText bodilessExport = .valid n ∧
    ∃ misfit, (statementCount n = .error misfit ∨ ∃ m ∈ n.nodes, misfit ∈ m.misfits) ∧
      (toProcess .document "" bodilessExport).2 = .error (.misfit misfit) := by
  have hmissed : missed? (toProcess .document "" bodilessExport).2 =
      some (.noField "UnsupportedNode" "body") := by decide +kernel
  obtain ⟨n, hload⟩ := exists_tree_of_missed? hmissed
  refine ⟨n, hload, ?_⟩
  rcases document_outcome "" hload with ⟨_, _, _, h⟩ | ⟨_, _, _, h⟩ | h
  · rw [h] at hmissed
    cases hmissed
  · rw [h] at hmissed
    cases hmissed
  · exact h

/-- A document that holds a function and nothing else. -/
def loneFunction : String :=
  "\x7b\"type\":\"FunctionDeclaration\",\"body\":\x7b\"type\":\"BlockStatement\",\"body\":[]\x7d\x7d"

/-- A function that stands alone is neither compiled nor rejected with a report. -/
theorem lone_function_misfit : ∃ n, Document.loadText loneFunction = .valid n ∧
    (toProcess .document "" loneFunction).2 = .error (.misfit (.notCounted "BlockStatement")) := by
  have hmissed : missed? (toProcess .document "" loneFunction).2 =
      some (.notCounted "BlockStatement") := by decide +kernel
  obtain ⟨n, hload⟩ := exists_tree_of_missed? hmissed
  exact ⟨n, hload, eq_misfit_of_missed? hmissed⟩

end RhoScript.Compile
