import Mathlib.Data.List.Flatten
import RhoScript.Proofs.Lowering.Reading
import RhoScript.Proofs.Term.TextOrder

/-!
# Placeholders and diagnostics

A placeholder is a string that starts with a mark. If no string and no identifier of a tree starts with
it, then the strings of the process that do are the placeholders.

Main statement: from left to right, the placeholders of the process are those of the diagnostics, and
just these diagnostics were given as warnings (`placeholders_eq_diagnostics`).
-/

namespace RhoScript

namespace Lowering

/-- Whether a text starts with the mark of placeholders. -/
def isMarked (s : WideString) : Bool := List.isPrefixOf (placeholderMark : WideString) s

/-- The placeholder that a process is, if it is one. -/
def placeholderAt : Process → List WideString
  | .ground (.string s) => if isMarked s then [s] else []
  | _ => []

/-- Neither an identifier nor a string that starts with the mark of placeholders. -/
def isUnmarked : Node → Bool
  | .identifier _ name => !isMarked name
  | .literal _ (some (.string s)) _ => !isMarked s
  | _ => true

end Lowering

/-- The placeholders in a process, from left to right. -/
def Process.placeholders (p : Process) : List WideString := p.collect Lowering.placeholderAt

namespace Lowering

theorem isMarked_placeholder (n : Node) : isMarked (placeholderMark ++ n.type) = true := by
  rw [isMarked, List.isPrefixOf_iff_prefix]
  exact List.prefix_append _ _

theorem placeholderAt_placeholder (n : Node) :
    placeholderAt (placeholder n) = [(placeholderMark ++ n.type : WideString)] := by
  rw [placeholder, placeholderAt, if_pos (isMarked_placeholder n)]

theorem placeholderAt_string {s : WideString} (h : isMarked s = false) :
    placeholderAt (.ground (.string s)) = [] := by
  rw [placeholderAt, h]
  rfl

theorem ValuePart.placeholderAt_eq {p : Process} (h : ValuePart (isUnmarked · = true) p) :
    placeholderAt p = [] := by
  cases h with
  | @ground loc value raw hvalue =>
    cases value with
    | string s => exact placeholderAt_string (by simpa [isUnmarked] using hvalue)
    | bool | int | double => rfl
  | method hname => exact placeholderAt_string (by simpa [isUnmarked] using hname)
  | nil | drop | binary | unary | tuple | map => rfl

/-- The placeholders are read off a process as the replaced shapes have them. -/
theorem reading_placeholders :
    Reading (isUnmarked · = true) placeholderAt fun _ _ es marks _ =>
      marks = es.map (fun d => (placeholderMark ++ d.found : WideString)) where
  seesThrough := ⟨rfl, fun _ _ => rfl⟩
  nil _ := rfl
  append := by
    rintro _ _ _ _ _ es es' _ _ rfl rfl
    rw [List.map_append]
  value _ := ValuePart.placeholderAt_eq
  select _ _ := rfl
  contract _ _ _ := rfl
  new _ _ := rfl
  send _ _ _ _ := rfl
  soft _ n _ := placeholderAt_placeholder n
  await rest h hrs := by
    rw [h.flatMap_collect_eq_nil (fun _ => ValuePart.placeholderAt_eq) (fun _ _ => rfl)
      (fun _ => rfl) hrs]
    rfl

/-- Placeholders are written in their order. -/
theorem placeholders_sublist_layout (p : Process) :
    (p.placeholders.map fun s => (Ground.string s).layout).Sublist p.layout := by
  refine List.Sublist.trans ?_ p.writes_sublist_layout
  rw [Process.placeholders, Process.collect, List.map_flatMap]
  refine List.Sublist.flatMap_right _ fun q _ => ?_
  unfold placeholderAt
  split
  · split
    · exact .refl _
    · exact List.nil_sublist _
  · exact List.nil_sublist _

/-- **Placeholders and diagnostics correspond**: if no identifier and no string of a tree starts with
the mark of placeholders, then the placeholders in the process of the tree, from left to right, are
for the types that the diagnostics found, in order, and so they are written; and the warnings of the
run are the diagnostics. -/
theorem placeholders_eq_diagnostics {n : Node} {l l' : Ledger} {c : Lowered}
    (h : Yields (lowerTree n) l c l') (hn : n.Everywhere (isUnmarked · = true)) :
    c.process.placeholders = c.diagnostics.map (fun d => (placeholderMark ++ d.found : WideString)) ∧
      (c.process.placeholders.map fun s => (Ground.string s).layout).Sublist c.process.layout ∧
      l'.warnings = l.warnings ++ c.diagnostics := by
  obtain ⟨k, hlowers, rfl⟩ := lowers_of_yields h
  exact ⟨hlowers.reads reading_placeholders hn, placeholders_sublist_layout c.process, rfl⟩

/-- The program `service` is lowered with two placeholders. -/
theorem service_placeholders : ∃ c l', Yields (lowerTree service) {} c l' ∧
    service.Everywhere (isUnmarked · = true) ∧
    c.process.placeholders = [↑"TODO@@ ThrowStatement", ↑"TODO@@ BreakStatement"] ∧
    l'.warnings = c.diagnostics ∧ c.diagnostics.length = 2 := by
  have h : Yields (lowerTree service) {} _ _ := rfl
  have hunmarked : service.Everywhere (isUnmarked · = true) := by
    unfold Node.Everywhere
    decide +kernel
  obtain ⟨hplaceholders, -, hwarnings⟩ := placeholders_eq_diagnostics h hunmarked
  exact ⟨_, _, h, hunmarked, hplaceholders.trans (by decide +kernel), hwarnings, rfl⟩

end Lowering

end RhoScript
