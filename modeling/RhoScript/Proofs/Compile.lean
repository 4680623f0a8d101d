import RhoScript.Compile
import RhoScript.Proofs.Lowering.Safety

/-!
# Source texts are compiled or rejected

Main statement: a source text is compiled to a process or rejected with a report, and nothing else can
happen (`compiled_or_rejected`). The front end makes well-shaped trees only, and those can be lowered
safely.
-/

namespace RhoScript.Compile

open Lowering

/-- A source text that the front end rejects is rejected with its report. -/
theorem toProcess_of_error {path text : String} {report : CompileError}
    (hread : Source.readProgram text = .error report) :
    (toProcess .source path text).2 = .error (.rejected report) := by
  unfold toProcess readTree
  rw [hread]

/-- A source text that has a tree is compiled or rejected as that is lowered. -/
theorem toProcess_of_ok {path text : String} {tree : Node} (hread : Source.readProgram text = .ok tree) :
    (toProcess .source path text).2 =
      (ExceptT.run (lowerTree tree) {}).1.mapError (loweringFailure .source text) := by
  obtain ⟨⟨loc, body, rfl⟩, -⟩ := Source.wellShaped_of_readProgram hread
  unfold toProcess readTree
  rw [hread]
  dsimp only [statementCount]
  rcases ExceptT.run (lowerTree (.program loc body)) {} with ⟨e | lowered, ledger⟩ <;> rfl

/-- A source text that is compiled has a tree, which is lowered. -/
theorem yields_of_toProcess {path text : String} {lowered : Lowered}
    (h : (toProcess .source path text).2 = .ok lowered) :
    ∃ tree ledger, Source.readProgram text = .ok tree ∧
      Yields (lowerTree tree) {} lowered ledger := by
  cases hread : Source.readProgram text with
  | error e =>
    rw [toProcess_of_error hread] at h
    cases h
  | ok tree =>
    rw [toProcess_of_ok hread] at h
    rcases hrun : ExceptT.run (lowerTree tree) {} with ⟨e | result, ledger⟩
    · rw [hrun] at h
      cases h
    · rw [hrun] at h
      cases h
      exact ⟨tree, ledger, rfl, hrun⟩

/-- A source text is rejected with the report of the front end, or with that of lowering its tree, which
then quotes the source. -/
theorem reason_of_toProcess {path text : String} {report : CompileError}
    (h : (toProcess .source path text).2 = .error (.rejected report)) :
    Source.readProgram text = .error report ∨
      ∃ tree reason ledger, Source.readProgram text = .ok tree ∧
        ExceptT.run (lowerTree tree) {} = (.error (.rejected reason), ledger) ∧
        report = reason.withContext text := by
  cases hread : Source.readProgram text with
  | error e =>
    rw [toProcess_of_error hread] at h
    cases h
    exact .inl rfl
  | ok tree =>
    rw [toProcess_of_ok hread] at h
    rcases hrun : ExceptT.run (lowerTree tree) {} with ⟨(reason | misfit) | result, ledger⟩
    · rw [hrun] at h
      cases h
      exact .inr ⟨tree, reason, ledger, rfl, hrun, rfl⟩
    · rw [hrun] at h
      cases h
    · rw [hrun] at h
      cases h

/-- A source text whose tree is lowered is compiled. -/
theorem toProcess_of_yields {path text : String} {tree : Node} {lowered : Lowered} {ledger : Ledger}
    (hread : Source.readProgram text = .ok tree) (h : Yields (lowerTree tree) {} lowered ledger) :
    (toProcess .source path text).2 = .ok lowered := by
  rw [toProcess_of_ok hread, show ExceptT.run (lowerTree tree) {} = (.ok lowered, ledger) from h]
  rfl

/-- What is compiled has the text of its process. -/
theorem toText_eq_ok_iff {format : Format} {path text : String} {out : WideString} {lowered : Lowered}
    (h : (toProcess format path text).2 = .ok lowered) :
    (toText format path text).2 = .ok out ↔ lowered.process.text = .ok out := by
  rcases hprocess : toProcess format path text with ⟨notices, result⟩
  rw [hprocess] at h
  cases h
  unfold toText
  rw [hprocess]
  dsimp only
  cases lowered.process.text <;> simp

/-- **Source texts are compiled or rejected**: a text whose tree can be read and lowered is compiled,
and any other is rejected with a report, of the front end or of lowering. -/
theorem compiled_or_rejected (path text : String) :
    (∃ tree lowered ledger, Source.readProgram text = .ok tree ∧
      Yields (lowerTree tree) {} lowered ledger ∧
      (toProcess .source path text).2 = .ok lowered) ∨
    ∃ report, (Source.readProgram text = .error report ∨
        ∃ tree reason ledger, Source.readProgram text = .ok tree ∧
          ExceptT.run (lowerTree tree) {} = (.error (.rejected reason), ledger) ∧
          report = reason.withContext text) ∧
      (toProcess .source path text).2 = .error (.rejected report) := by
  unfold toProcess readTree
  cases hread : Source.readProgram text with
  | error e => exact .inr ⟨e, .inl rfl, rfl⟩
  | ok n =>
    obtain ⟨⟨loc, body, rfl⟩, hshape⟩ := Source.wellShaped_of_readProgram hread
    have hsafe := safe_lowerTree hshape {}
    dsimp only [statementCount]
    rcases hrun : ExceptT.run (lowerTree (.program loc body)) {} with ⟨e | lowered, ledger⟩
    · rw [hrun] at hsafe
      cases e with
      | rejected reason => exact .inr ⟨_, .inr ⟨_, reason, ledger, rfl, hrun, rfl⟩, rfl⟩
      | misfit misfit => exact absurd rfl (hsafe misfit)
    · exact .inl ⟨_, lowered, ledger, rfl, hrun, rfl⟩

end RhoScript.Compile
