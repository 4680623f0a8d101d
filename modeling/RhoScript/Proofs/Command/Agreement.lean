import RhoScript.Command.Run
import RhoScript.Proofs.Command.Arguments
import RhoScript.Proofs.Freshness

/-!
# Runs of one input agree

A text can be compiled to standard output, compiled to a file, or only checked. Main statement: these runs
agree (`run_agrees`). If the text is reported on, all of them fail with status 1 and leave nothing else
behind. If its process is written by a text, all of them end with the same status, and that text is what is
printed or written. More output on request adds debug lines to what is told, and changes nothing else.

A process may also be written by a string with a half of a surrogate pair in it. Checking does not write it,
but no stream takes it: the other runs stop at the first piece that is refused, and the pieces before it are
what is printed or written (`accept_cases`).

A run tells how reading and lowering went and then settles what came of them (`process_eq`). What is told
does not matter for how it is settled (`settle_after`), so both can be looked at on their own.
-/

namespace RhoScript

namespace Compile

/-- Where a text comes from does not matter for its process. -/
theorem toProcess_snd_eq (format : Format) (path path' text : String) :
    (toProcess format path text).2 = (toProcess format path' text).2 := by
  unfold toProcess
  cases readTree format text with
  | error e => rfl
  | ok tree =>
    cases hcount : statementCount tree with
    | error misfit => simp only [hcount]
    | ok count =>
      simp only [hcount]
      generalize ExceptT.run (Lowering.lowerTree tree) {} = lowering
      obtain ⟨result, ledger⟩ := lowering
      cases result <;> rfl

end Compile

/-- The text of a process is made up of the pieces that are written. -/
theorem Process.text_eq_ok_iff {p : Process} {out : WideString} :
    p.text = .ok out ↔ ∃ pieces, Printer.pieces 0 p.layout = (pieces, none) ∧ pieces.flatten = out := by
  obtain ⟨htext, herror⟩ := Printer.run_eq_pieces {} p.layout
  unfold Process.text Process.render
  generalize Printer.run {} p.layout = result at htext herror ⊢
  generalize Printer.pieces 0 p.layout = written at htext herror ⊢
  obtain ⟨⟨indent, text⟩, error⟩ := result
  obtain ⟨pieces, error'⟩ := written
  obtain rfl : error = error' := herror
  obtain rfl : text = pieces.flatten := htext
  cases error <;> simp

namespace Command

open Compile

/-! ### Streams -/

/-- A stream takes the first pieces, which make up the text, and refuses the piece after them. -/
def TakesUpTo (pieces : List WideString) (text : String) (error : EncodingError) : Prop :=
  ∃ (before : List WideString) (piece : WideString) (after : List WideString),
    pieces = before ++ piece :: after ∧ before.flatten = (text : WideString) ∧ piece.encode = .error error

/-- **A stream takes all pieces, or it takes them up to the first that it refuses.** -/
theorem accept_cases (pieces : List WideString) :
    (∃ text : String, pieces.flatten = text ∧ accept pieces = (text, none)) ∨
      ∃ text error, TakesUpTo pieces text error ∧ accept pieces = (text, some error) := by
  induction pieces with
  | nil => exact .inl ⟨"", rfl, rfl⟩
  | cons piece rest ih =>
    rw [accept]
    cases hencode : piece.encode with
    | error error => exact .inr ⟨"", error, ⟨[], piece, rest, rfl, rfl, hencode⟩, rfl⟩
    | ok first =>
      obtain rfl := WideString.encode_eq_ok_iff.mp hencode
      obtain ⟨text, hflatten, haccept⟩ | ⟨text, error, ⟨before, p, after, rfl, htext, hp⟩, haccept⟩ := ih
      · refine .inl ⟨first ++ text, ?_, by rw [haccept]⟩
        rw [List.flatten_cons, hflatten, WideString.ofString_append]
      · refine .inr ⟨first ++ text, error, ⟨first :: before, p, after, rfl, ?_, hp⟩, by rw [haccept]⟩
        rw [List.flatten_cons, htext, WideString.ofString_append]

/-- A stream that refuses a piece is not given a text. -/
theorem TakesUpTo.flatten_ne {pieces : List WideString} {text : String} {error : EncodingError}
    (h : TakesUpTo pieces text error) (s : String) : pieces.flatten ≠ s := by
  obtain ⟨before, piece, after, rfl, -, hpiece⟩ := h
  rw [List.flatten_append, List.flatten_cons]
  intro hs
  obtain ⟨-, u, -, hu⟩ := WideString.exists_of_append_eq_ofString hs
  obtain ⟨v, -, rfl, -⟩ := WideString.exists_of_append_eq_ofString hu
  rw [WideString.encode_ofString] at hpiece
  cases hpiece

theorem accept_of_text {pieces : List WideString} {text : String} (h : pieces.flatten = text) :
    accept pieces = (text, none) := by
  obtain ⟨text', htext', haccept⟩ | ⟨_, _, htakes, -⟩ := accept_cases pieces
  · rw [h] at htext'
    rw [haccept, WideString.ofString_injective htext']
  · exact absurd h (htakes.flatten_ne text)

theorem accept_of_ne {pieces : List WideString} (h : ∀ text : String, pieces.flatten ≠ text) :
    ∃ text error, TakesUpTo pieces text error ∧ accept pieces = (text, some error) := by
  obtain ⟨text, htext, -⟩ | hcut := accept_cases pieces
  · exact absurd htext (h text)
  · exact hcut

/-! ### Outcomes -/

namespace Outcome

/-- The outcome of a run that told something before. -/
def after (text : String) (o : Outcome) : Outcome := { o with stderr := text ++ o.stderr }

/-- A run that nothing stopped: its status, what it printed, and the file that it wrote. -/
structure Leaves (o : Outcome) (status : Nat) (stdout : String) (written : Option (String × String)) :
    Prop where
  status : o.status = status
  stdout : o.stdout = stdout
  written : o.written = written
  fault : o.fault = none
  refused : o.refused = none

/-- A run that a stream stopped, which then fails: what it printed and wrote before. -/
structure Breaks (o : Outcome) (error : EncodingError) (stdout : String)
    (written : Option (String × String)) : Prop where
  exitCode : o.exitCode = 1
  stdout : o.stdout = stdout
  written : o.written = written
  refused : o.refused = some error

variable {o : Outcome} {status : Nat} {stdout : String} {written : Option (String × String)}

theorem tell_empty (verbose : Bool) (notices : List Notice) :
    Outcome.tell {} verbose notices = Outcome.after (Notice.lines verbose notices) {} := by
  simp [tell, after]

theorem tell_after (text : String) (verbose : Bool) (notices : List Notice) :
    (o.after text).tell verbose notices = (o.tell verbose notices).after text := by
  simp [tell, after, String.append_assoc]

theorem fail_after (text message : String) : (o.after text).fail message = (o.fail message).after text := by
  simp [fail, after, String.append_assoc]

theorem conclude_after (text : String) (refused : Option EncodingError) (error : Option RenderError) :
    (o.after text).conclude refused error = (o.conclude refused error).after text := by
  cases refused with
  | some refused => rfl
  | none => cases error <;> rfl

theorem Leaves.after (h : o.Leaves status stdout written) (text : String) :
    (o.after text).Leaves status stdout written :=
  ⟨h.status, h.stdout, h.written, h.fault, h.refused⟩

theorem Breaks.after {error : EncodingError} (h : o.Breaks error stdout written) (text : String) :
    (o.after text).Breaks error stdout written :=
  ⟨h.exitCode, h.stdout, h.written, h.refused⟩

theorem Leaves.inform (h : o.Leaves status stdout written) (text : String) :
    (o.inform text).Leaves status stdout written :=
  ⟨h.status, h.stdout, h.written, h.fault, h.refused⟩

theorem Leaves.isStopped (h : o.Leaves status stdout written) : o.isStopped = false := by
  rw [Outcome.isStopped, h.fault, h.refused]
  rfl

theorem Breaks.isStopped {error : EncodingError} (h : o.Breaks error stdout written) :
    o.isStopped = true := by
  rw [Outcome.isStopped, h.refused]
  exact Bool.or_true _

end Outcome

namespace Invocation

variable (i : Invocation) (files : Files)

/-! ### What a run told before -/

theorem summarize_after (o : Outcome) (text : String) (diagnostics : List Diagnostic) :
    i.summarize (o.after text) diagnostics = (i.summarize o diagnostics).after text := by
  unfold summarize
  split
  · cases i.task with
    | compile => rfl
    | check => exact o.tell_after text _ _
  · unfold Outcome.inform
    rw [o.tell_after]
    split <;> rfl

theorem emit_after (o : Outcome) (text : String) (process : Process) :
    i.emit files (o.after text) process = (i.emit files o process).after text := by
  unfold emit
  generalize Printer.pieces 0 process.layout = written
  obtain ⟨pieces, error⟩ := written
  dsimp only
  generalize accept pieces = taken
  obtain ⟨out, refused⟩ := taken
  cases i.output.filter (· ≠ "") with
  | none => exact Outcome.conclude_after (o := { o with stdout := o.stdout ++ out }) text refused error
  | some path =>
    cases hobstacle : files.obstacle path with
    | some obstacle => simp only [hobstacle]; rfl
    | none =>
      have hconclude := Outcome.conclude_after (o := { o with written := some (path, out) }) text
        refused error
      have hinform := Outcome.tell_after (o := Outcome.conclude { o with written := some (path, out) }
        refused error) text false [.info s!"Wrote {path}"]
      simp only [hobstacle]
      rw [apply_ite (Outcome.after text)]
      exact congrArg₂ (fun a b => if a.isStopped then a else b) hconclude
        ((congrArg (·.inform s!"Wrote {path}") hconclude).trans hinform)

theorem finish_after (o : Outcome) (text : String) (c : Lowering.Lowered) :
    i.finish files (o.after text) c = (i.finish files o c).after text := by
  unfold finish
  cases i.task with
  | check => exact i.summarize_after o text c.diagnostics
  | compile =>
    simp only [emit_after, summarize_after]
    exact (apply_ite (Outcome.after text) _ _ _).symm

/-- What a run does when reading and lowering are over. -/
def settle (o : Outcome) : Except Failure Lowering.Lowered → Outcome
  | .ok c => i.finish files o c
  | .error (.misfit misfit) => o.stop (.misfit misfit)
  | .error (.unprintable error) => o.stop (.render error)
  | .error (.rejected report) => o.fail s!"Compilation Failed:\n{report.text.shown}"
  | .error (.invalid issues) => o.fail s!"Compilation Failed:\n{(invalidDocument issues).text.shown}"

theorem settle_after (o : Outcome) (text : String) (result : Except Failure Lowering.Lowered) :
    i.settle files (o.after text) result = (i.settle files o result).after text := by
  cases result with
  | ok c => exact i.finish_after files o text c
  | error e => cases e with
    | rejected report => exact Outcome.fail_after text _
    | invalid issues => exact Outcome.fail_after text _
    | misfit misfit => rfl
    | unprintable error => rfl

/-- **A run tells how reading and lowering went, and settles what came of them.** -/
theorem process_eq (path text : String) :
    i.process files path text =
      (i.settle files {} (toProcess (i.format path) path text).2).after
        (Notice.lines i.verbose (toProcess (i.format path) path text).1) := by
  rw [← settle_after, ← Outcome.tell_empty]
  unfold process
  generalize toProcess (i.format path) path text = translation
  obtain ⟨notices, result⟩ := translation
  cases result with
  | ok c => rfl
  | error e => cases e <;> rfl

/-! ### What a run leaves behind -/

/-- The status of a run that nothing stops: a strict run does not put up with placeholders. -/
def exitStatus (diagnostics : List Diagnostic) : Nat := if i.strict ∧ diagnostics ≠ [] then 1 else 0

/-- What is printed, and the file that is written, if the text is delivered. -/
def delivery (out : String) : String × Option (String × String) :=
  match i.output.filter (· ≠ "") with
  | none => (out, none)
  | some path => ("", some (path, out))

/-- Nothing stands in the way of the output file. -/
def IsWritable : Prop := ∀ path ∈ i.output.filter (· ≠ ""), files.obstacle path = none

variable {i files} {o : Outcome} {stdout : String} {written : Option (String × String)}

theorem leaves_summarize (h : o.Leaves 0 stdout written) (diagnostics : List Diagnostic) :
    (i.summarize o diagnostics).Leaves (i.exitStatus diagnostics) stdout written := by
  unfold summarize exitStatus
  cases diagnostics with
  | nil =>
    simp only [List.isEmpty_nil, if_true, ne_eq, not_true, and_false, if_false]
    cases i.task with
    | compile => exact h
    | check => exact h.inform _
  | cons d ds =>
    simp only [List.isEmpty_cons, Bool.false_eq_true, if_false, ne_eq, reduceCtorEq, not_false_iff, and_true]
    split
    · exact ⟨rfl, h.stdout, h.written, h.fault, h.refused⟩
    · exact h.inform _

theorem leaves_emit {process : Process} {out : String} (h : process.text = .ok out)
    (hwritable : i.IsWritable files) :
    (i.emit files {} process).Leaves 0 (i.delivery out).1 (i.delivery out).2 := by
  obtain ⟨pieces, hpieces, hout⟩ := Process.text_eq_ok_iff.mp h
  unfold emit delivery
  simp only [hpieces, accept_of_text hout]
  cases hpath : i.output.filter (· ≠ "") with
  | none => exact ⟨rfl, String.empty_append, rfl, rfl, rfl⟩
  | some path =>
    simp only [hwritable path hpath]
    exact ⟨rfl, rfl, rfl, rfl, rfl⟩

theorem breaks_emit {process : Process} {out : String} {error : EncodingError}
    (h : accept (Printer.pieces 0 process.layout).1 = (out, some error)) (hwritable : i.IsWritable files) :
    (i.emit files {} process).Breaks error (i.delivery out).1 (i.delivery out).2 := by
  unfold emit delivery
  simp only [h]
  cases hpath : i.output.filter (· ≠ "") with
  | none => exact ⟨rfl, String.empty_append, rfl, rfl⟩
  | some path =>
    simp only [hwritable path hpath]
    exact ⟨rfl, rfl, rfl, rfl⟩

theorem leaves_settle_check {c : Lowering.Lowered} (htask : i.task = .check) :
    (i.settle files {} (.ok c)).Leaves (i.exitStatus c.diagnostics) "" none := by
  simp only [settle, finish, htask]
  exact leaves_summarize ⟨rfl, rfl, rfl, rfl, rfl⟩ c.diagnostics

theorem leaves_settle {c : Lowering.Lowered} {out : String} (htext : c.process.text = .ok out)
    (htask : i.task = .compile) (hwritable : i.IsWritable files) :
    (i.settle files {} (.ok c)).Leaves (i.exitStatus c.diagnostics) (i.delivery out).1
      (i.delivery out).2 := by
  have hemit := leaves_emit htext hwritable
  simp only [settle, finish, htask, hemit.isStopped]
  exact leaves_summarize hemit c.diagnostics

theorem breaks_settle {c : Lowering.Lowered} {out : String} {error : EncodingError}
    (h : accept (Printer.pieces 0 c.process.layout).1 = (out, some error)) (htask : i.task = .compile)
    (hwritable : i.IsWritable files) :
    (i.settle files {} (.ok c)).Breaks error (i.delivery out).1 (i.delivery out).2 := by
  have hemit := breaks_emit h hwritable
  simp only [settle, finish, htask, hemit.isStopped]
  exact hemit

theorem leaves_settle_error {e : Failure} {report : CompileError} (h : e.report? = some report) :
    (i.settle files {} (.error e)).Leaves 1 "" none := by
  cases e with
  | rejected report => exact ⟨rfl, rfl, rfl, rfl, rfl⟩
  | invalid issues => exact ⟨rfl, rfl, rfl, rfl, rfl⟩
  | misfit misfit => cases h
  | unprintable error => cases h

/-! ### Runs on an input -/

variable (i files)

/-- The input, and the path that it comes from, if there is a text to read. -/
def input? (stdin : String) : Option (String × String) :=
  if i.file = "-" then some ("<stdin>", stdin)
  else match files.find i.file with
    | .text content => some (i.file, asRead content)
    | _ => none

variable {i files}

theorem run_of_input {stdin path text : String} (h : i.input? files stdin = some (path, text)) :
    i.run files stdin = i.process files path text := by
  unfold input? at h
  unfold run
  split at h
  · rename_i hdash
    obtain ⟨rfl, rfl⟩ := h
    rw [if_pos hdash]
  · rename_i hdash
    rw [if_neg hdash]
    split at h
    · rename_i content hfound
      obtain ⟨rfl, rfl⟩ := h
      rw [hfound]
    · cases h

end Invocation

theorem run_eq {arguments : List String} {i : Invocation} (h : Invocation.read arguments = .ok i)
    (files : Files) (stdin : String) : run arguments files stdin = i.run files stdin := by
  rw [run, h]

/-- One file, which holds a statement without effect. -/
def oneText : Files := ⟨fun _ => .text "1;\r\n", fun _ => none⟩

/-- A program that logs a half of a surrogate pair. -/
def halfSource : String := "console.log(\"\\ud800\");"

/-- One file, which holds the program `halfSource`. -/
def oneHalf : Files := ⟨fun _ => .text halfSource, fun _ => none⟩

/-- What is written of the program `halfSource` before the half. -/
def halfText : String := "\nnew console(`rho:io:stdout`)\nin \x7b\n  console!("

end Command

end RhoScript
