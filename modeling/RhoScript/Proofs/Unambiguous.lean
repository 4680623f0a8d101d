import RhoScript.Proofs.Lowering.Actions
import RhoScript.Proofs.Source.Faithful
import RhoScript.Proofs.Term.Readability

/-!
# What a compiled text says

The text of a process has no parentheses around operators and processes side by side, and it shows
numbers by their text alone. Nothing else is lost in it.

Main statement: source texts are compiled to the same text if and only if their processes are alike
(`text_determines_process`). A source of a system resource stands in the text as it is, between
backticks, so it must not contain one.
-/

namespace RhoScript

open Lowering

/-- What is read as a name in a source can be read back from a text. -/
theorem isName_of_isNameText {x : String} (h : Source.IsNameText x.toList) : IsName x := by
  have hstart : ∀ {c}, Source.isNameStart c = true → Lexeme.isLetter c = true :=
    fun hc => Lexeme.isLetter_of hc (by decide +kernel)
  have hpart : ∀ {c}, Source.isNamePart c = true → Lexeme.isLetter c = true :=
    fun hc => Lexeme.isLetter_of hc (by decide +kernel)
  obtain ⟨c, rest, htext, hc, hrest⟩ := h
  rw [IsName, Lexeme.IsWord, htext]
  refine ⟨⟨List.cons_ne_nil c rest, ?_⟩, c, rfl, hc⟩
  exact List.forall_mem_cons.mpr ⟨hstart hc, fun d hd => hpart (hrest d hd)⟩

namespace Compile

theorem isNamed_of_readProgram {source : String} {tree : Node}
    (h : Source.readProgram source = .ok tree) : tree.Everywhere IsNamed := by
  intro m hm x hx
  cases m <;> cases hx
  exact isName_of_isNameText (Source.isNameText_of_readProgram h _ hm _ _ rfl)

/-- A source text without backticks in the sources of its system resources is compiled to an action. -/
theorem isAction_of_toProcess {path text : String} {lowered : Lowered}
    (h : (toProcess .source path text).2 = .ok lowered)
    (hresources : ∀ tree, Source.readProgram text = .ok tree →
      ∀ uri ∈ resourceSources tree, .char '\x60' ∉ uri) : IsAction lowered.process := by
  obtain ⟨tree, ledger, hread, hyields⟩ := yields_of_toProcess h
  obtain ⟨k, hlowers, -⟩ := lowers_of_yields hyields
  obtain ⟨⟨loc, items, rfl⟩, -⟩ := Source.wellShaped_of_readProgram hread
  exact hlowers.isAction (isNamed_of_readProgram hread) (hresources _ hread)

theorem eq_ok_of_toOption {ε α : Type} {x : Except ε α} {a : α} (h : x.toOption = some a) :
    x = .ok a := by
  cases x <;> cases h
  rfl

/-- **The text determines the process up to grouping**: two source texts are compiled to the same text if
and only if their processes differ at most in how processes side by side and operators next to each
other are grouped, and in numbers of the same text. -/
theorem text_determines_process {path path' a b : String} {out : WideString} {p q : Lowered}
    (ha : (toProcess .source path a).2 = .ok p) (hb : (toProcess .source path' b).2 = .ok q)
    (hresources : ∀ text ∈ [a, b], ∀ tree, Source.readProgram text = .ok tree →
      ∀ uri ∈ resourceSources tree, .char '\x60' ∉ uri)
    (hout : (toText .source path a).2 = .ok out) :
    (toText .source path' b).2 = .ok out ↔ Alike p.process q.process := by
  have hp := isAction_of_toProcess ha (hresources a List.mem_cons_self)
  have hq := isAction_of_toProcess hb (hresources b (List.mem_cons_of_mem a List.mem_cons_self))
  rw [toText_eq_ok_iff ha] at hout
  rw [toText_eq_ok_iff hb]
  constructor
  · exact hp.alike_of_text hq hout
  · intro halike
    rw [← hout, Process.text, Process.text, Process.render, Process.render, halike.layout_eq]

/-- A program that logs a condition. -/
def groupedRight : String := "console.log(x && (y || 1));"

/-- The program `groupedRight`, with the operators grouped differently and the number written with a
point. -/
def groupedLeft : String := "console.log((x && y) || 1.0);"

/-- What both programs are compiled to. -/
def groupedText : String :=
  "\nnew console(`rho:io:stdout`)\nin \x7b\n  console!(*x and *y or 1)\n  \x7d\n"

/-- The programs `groupedRight` and `groupedLeft` are compiled to the same text, so their processes are
alike. -/
theorem grouped_alike : ∃ p q, (toProcess .source "" groupedRight).2 = .ok p ∧
    (toProcess .source "" groupedLeft).2 = .ok q ∧
    (toText .source "" groupedRight).2 = .ok groupedText ∧
    (toText .source "" groupedLeft).2 = .ok groupedText ∧ Alike p.process q.process := by
  obtain ⟨tree, p, hread, hp, htext, hresources⟩ := compiled_of_readWithin 400 groupedRight
    (fun tree lowered => lowered.process.text.toOption = some ↑groupedText ∧ resourceSources tree = [])
    (by decide +kernel)
  obtain ⟨tree', q, hread', hq, htext', hresources'⟩ := compiled_of_readWithin 400 groupedLeft
    (fun tree lowered => lowered.process.text.toOption = some ↑groupedText ∧ resourceSources tree = [])
    (by decide +kernel)
  have hout := (toText_eq_ok_iff hp).mpr (eq_ok_of_toOption htext)
  have hout' := (toText_eq_ok_iff hq).mpr (eq_ok_of_toOption htext')
  have hnone : ∀ text ∈ [groupedRight, groupedLeft], ∀ tree, Source.readProgram text = .ok tree →
      ∀ uri ∈ resourceSources tree, .char '\x60' ∉ uri := by
    intro text hmem tree'' hread'' uri huri
    obtain rfl | rfl := by simpa using hmem
    · cases hread.symm.trans hread''
      simp [hresources] at huri
    · cases hread'.symm.trans hread''
      simp [hresources'] at huri
  exact ⟨p, q, hp, hq, hout, hout', (text_determines_process hp hq hnone hout).mp hout'⟩

end Compile

end RhoScript
