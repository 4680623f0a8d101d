import Mathlib.Data.List.Basic
import RhoScript.Proofs.Lowering.Actions
import RhoScript.Proofs.Source.Scanning

/-!
# The bindings that a header declares

A program starts with the bindings of the resources that it imports. The text of a resource stands in it as
it is, so a resource can have the end of its own binding in it and the start of another one (`Embeds`).

Main statement: the header determines the bindings as long as no resource does so, and it never does if one
does (`header_determines_bindings`). Two headers are read side by side, a binding at a time: the names agree
up to their brackets, and if one resource were longer than the other it would embed the next binding
(`embeds_of_longer`).
-/

namespace RhoScript.Lowering

open Printer Source

/-! ### The text of a header -/

/-- The commands that write `new` up to its body. -/
def headerLayout (bs : List Binding) : List Command :=
  .newline :: .print "new " :: Binding.layoutAll bs ++ [.newline, .enter "in \x7b"]

/-- The header of a program with the given imports. The console is bound last. -/
def programHeader (bs : List Binding) : WideString :=
  (Printer.run {} (headerLayout (bs ++ [consoleBinding]))).1.text

theorem run_snd_of_not_stuck {cs : List Command} (h : ∀ e, .stuck e ∉ cs) (p : Printer) :
    (p.run cs).2 = none := by
  induction cs generalizing p with
  | nil => rfl
  | cons c cs ih =>
    have hcs : ∀ e, .stuck e ∉ cs := fun e he => h e (List.mem_cons_of_mem c he)
    cases c with
    | stuck e => exact absurd List.mem_cons_self (h e)
    | print text | enter text | newline | leave text => exact ih hcs _

/-- Bindings are written on one level. -/
theorem flat_layoutAll (bs : List Binding) :
    ∀ c ∈ Binding.layoutAll bs, c = .newline ∨ ∃ text, c = .print text := by
  have hnext : ∀ b : Binding, ∀ c ∈ b.layoutNext, c = .newline ∨ ∃ text, c = .print text := by
    intro b
    cases b <;> simp [Binding.layoutNext]
  cases bs with
  | nil => simp [Binding.layoutAll]
  | cons b rest =>
    refine List.forall_mem_cons.mpr ⟨.inr ⟨_, rfl⟩, fun c hc => ?_⟩
    obtain ⟨b', -, hb'⟩ := List.mem_flatMap.mp hc
    exact hnext b' c hb'

theorem run_snd_headerLayout (bs : List Binding) (p : Printer) : (p.run (headerLayout bs)).2 = none := by
  apply run_snd_of_not_stuck
  intro e he
  simp only [headerLayout, List.cons_append, List.mem_cons, reduceCtorEq, false_or, List.mem_append,
    List.not_mem_nil, or_false] at he
  obtain h | ⟨text, h⟩ := flat_layoutAll bs _ he <;> cases h

theorem after_layoutAll (bs : List Binding) (indent : Int) :
    (Binding.layoutAll bs).foldl Command.after indent = indent := by
  have hflat : ∀ cs : List Command, (∀ c ∈ cs, c = .newline ∨ ∃ text, c = .print text) →
      cs.foldl Command.after indent = indent := by
    intro cs hcs
    induction cs with
    | nil => rfl
    | cons c cs ih =>
      obtain ⟨hc, hrest⟩ := List.forall_mem_cons.mp hcs
      obtain rfl | ⟨text, rfl⟩ := hc <;> exact ih hrest
  exact hflat _ (flat_layoutAll bs)

/-- The text of a program begins with its header. -/
theorem exists_text_new (bs : List Binding) (p : Process) :
    ∃ rest, ((Process.new (bs ++ [consoleBinding]) p).render {}).1.text = programHeader bs ++ rest := by
  have hlayout : (Process.new (bs ++ [consoleBinding]) p).layout =
      headerLayout (bs ++ [consoleBinding]) ++ (p.layout ++ [.leave "\x7d"]) := by
    simp [Process.layout, headerLayout]
  have hnone := run_snd_headerLayout (bs ++ [consoleBinding]) {}
  rw [Process.render, hlayout, run_append, programHeader]
  generalize Printer.run {} (headerLayout (bs ++ [consoleBinding])) = result at hnone
  obtain ⟨q, error⟩ := result
  obtain rfl : error = none := hnone
  exact ⟨_, (run_eq_pieces q _).1⟩

/-- The text of a binding with what comes before the next one. -/
def declaration (b : Binding) : WideString := b.text ++ [.char ',', .char '\n']

/-- The text of the console's binding and of what comes before the body. -/
def closing : WideString := consoleBinding.text ++ "\nin \x7b\n  "

theorem written_layoutAll {bs : List Binding} (h : ∀ b ∈ bs, ∃ x uri, b = .resource x uri) (x : String)
    (uri : WideString) : written 0 (Binding.layoutAll (bs ++ [.resource x uri])) =
      bs.flatMap declaration ++ (Binding.resource x uri).text := by
  induction bs with
  | nil => simp [Binding.layoutAll, written]
  | cons b rest ih =>
    obtain ⟨-, hrest⟩ := List.forall_mem_cons.mp h
    have ih := ih hrest
    have hstep : Binding.layoutAll (b :: (rest ++ [.resource x uri])) =
        .print b.text :: .print "," :: .newline :: Binding.layoutAll (rest ++ [.resource x uri]) := by
      cases rest with
      | nil => rfl
      | cons c cs =>
        obtain ⟨y, uri', rfl⟩ := hrest c List.mem_cons_self
        rfl
    have hcomma : (("," : String) : WideString) ++ line 0 = [.char ',', .char '\n'] := rfl
    rw [List.cons_append, hstep]
    simp only [written, Command.chars_print, Command.chars_newline, Command.after, ih]
    rw [List.flatMap_cons, declaration, ← hcomma]
    simp only [List.append_assoc]

theorem programHeader_eq {bs : List Binding} (h : ∀ b ∈ bs, ∃ x uri, b = .resource x uri) :
    programHeader bs = (("\nnew " : String) : WideString) ++ (bs.flatMap declaration ++ closing) := by
  have hnone := run_snd_headerLayout (bs ++ [consoleBinding]) {}
  have hopening : line 0 ++ ("new " : String) = (("\nnew " : String) : WideString) := rfl
  have hclosing : line 0 ++ (("in \x7b" : String) ++ line 1) =
      (("\nin \x7b\n  " : String) : WideString) := rfl
  rw [programHeader, (run_eq_written {} hnone).2, closing, ← hopening, ← hclosing]
  simp only [headerLayout, List.cons_append, written, written_append, after_layoutAll,
    Command.chars_newline, Command.chars_print, Command.chars_enter, Command.after]
  rw [consoleBinding, written_layoutAll h]
  simp only [List.nil_append, List.append_nil, List.append_assoc]
  rfl

/-! ### Bindings of imports -/

/-- What stands between a resource and the name of the next binding. -/
def seam : WideString := [.char '\x60', .char ')', .char ',', .char '\n']

/-- What stands between a name and what is particular to its resource. -/
def bracket : WideString := [.char '(', .char '\x60', .char 'r', .char 'h', .char 'o', .char ':']

/-- The binding of an import: a name, and a resource in the scheme of system resources. -/
def IsImported : Binding → Prop
  | .plain _ => False
  | .resource x uri => IsNameText x.toList ∧ (resourceScheme : WideString) <+: uri

/-- The resource of a binding has the end of the binding in it and the start of another one. -/
def Embeds : Binding → Prop
  | .plain _ => False
  | .resource _ uri => ∃ (before : WideString) (y : String) (after : WideString),
    IsNameText y.toList ∧ uri = before ++ seam ++ y ++ bracket ++ after

/-- The bindings of imports that are accepted, where names are bound. -/
structure Imports (ns : List Node) (bs : List Binding) : Prop where
  accepted : importsBindings ns = .ok bs
  named : ∀ b ∈ bs, IsNameText b.name.toList

theorem declaration_of_isImported {b : Binding} (h : IsImported b) :
    ∃ (x : String) (uri rest : WideString), b = .resource x uri ∧ IsNameText x.toList ∧
      uri = resourceScheme ++ rest ∧ declaration b = x ++ bracket ++ rest ++ seam := by
  cases b with
  | plain x => cases h
  | resource x uri =>
    obtain ⟨hx, rest, huri⟩ := h
    refine ⟨x, uri, rest, rfl, hx, huri.symm, ?_⟩
    rw [declaration, Binding.text_resource, ← huri]
    simp [resourceScheme, WideString.ofString, bracket, seam]

theorem scheme_of_resourceSource? {n : Node} {uri : WideString} (h : uri ∈ resourceSource? n) :
    (resourceScheme : WideString) <+: uri := by
  unfold resourceSource? at h
  split at h
  · split at h
    · rename_i hscheme
      cases h
      exact List.isPrefixOf_iff_prefix.mp hscheme
    · cases h
  · cases h

theorem programHeader_eq_iff {bs cs : List Binding} (hbs : ∀ b ∈ bs, IsImported b)
    (hcs : ∀ c ∈ cs, IsImported c) : programHeader bs = programHeader cs ↔
      bs.flatMap declaration ++ closing = cs.flatMap declaration ++ closing := by
  have hresource : ∀ b, IsImported b → ∃ x uri, b = .resource x uri := by
    intro b hb
    obtain ⟨x, uri, -, rfl, -⟩ := declaration_of_isImported hb
    exact ⟨x, uri, rfl⟩
  rw [programHeader_eq fun b hb => hresource b (hbs b hb),
    programHeader_eq fun c hc => hresource c (hcs c hc), List.append_cancel_left_eq]

theorem Imports.isImported {ns : List Node} {bs : List Binding} (h : Imports ns bs) :
    ∀ b ∈ bs, IsImported b := by
  obtain ⟨haccepted, hnamed⟩ := h
  induction ns generalizing bs with
  | nil =>
    cases haccepted
    simp
  | cons n rest ih =>
    simp only [importsBindings, except_bind_eq_ok, except_pure_eq_ok] at haccepted
    obtain ⟨cs, hcs, ds, hds, rfl⟩ := haccepted
    obtain ⟨hcnamed, hdnamed⟩ := List.forall_mem_append.mp hnamed
    refine List.forall_mem_append.mpr ⟨?_, ih hds hdnamed⟩
    obtain rfl | ⟨x, uri, huri, rfl⟩ := importBindings_cases hcs
    · simp
    · rw [List.forall_mem_singleton] at hcnamed ⊢
      exact ⟨hcnamed, scheme_of_resourceSource? huri⟩

/-- The import of a binding. -/
def importOf (b : Binding) : Node :=
  .importDeclaration none [.importDefaultSpecifier none (.identifier none b.name)]
    (.literal none (match b with
      | .plain _ => none
      | .resource _ uri => some (.string uri)) none)

theorem importBindings_importOf {b : Binding} (h : IsImported b) : importBindings (importOf b) = .ok [b] := by
  cases b with
  | plain x => cases h
  | resource x uri =>
    have hscheme : isResource uri = true := List.isPrefixOf_iff_prefix.mpr h.2
    simp only [importOf, importBindings, literalValue]
    show (if isResource uri then _ else _) = _
    rw [if_pos hscheme]
    rfl

theorem imports_importOf {bs : List Binding} (h : ∀ b ∈ bs, IsImported b) : Imports (bs.map importOf) bs := by
  induction bs with
  | nil => exact ⟨rfl, by simp⟩
  | cons b rest ih =>
    obtain ⟨hb, hrest⟩ := List.forall_mem_cons.mp h
    obtain ⟨haccepted, hnamed⟩ := ih hrest
    refine ⟨?_, List.forall_mem_cons.mpr ⟨?_, hnamed⟩⟩
    · rw [List.map_cons, importsBindings, importBindings_importOf hb, haccepted]
      rfl
    · obtain ⟨x, uri, -, rfl, hx, -⟩ := declaration_of_isImported hb
      exact hx

/-! ### Reading headers side by side -/

/-- What can come after a binding: another one, or something without a comma. -/
def Follows (text : WideString) : Prop :=
  .char ',' ∉ text ∨ ∃ (y : String) (rest : WideString), IsNameText y.toList ∧ text = y ++ bracket ++ rest

theorem follows_declarations {bs : List Binding} (h : ∀ b ∈ bs, IsImported b) :
    Follows (bs.flatMap declaration ++ closing) := by
  cases bs with
  | nil => exact .inl (by decide)
  | cons b rest =>
    obtain ⟨x, uri, more, -, hx, -, hdeclaration⟩ := declaration_of_isImported (h b List.mem_cons_self)
    refine .inr ⟨x, more ++ seam ++ (rest.flatMap declaration ++ closing), hx, ?_⟩
    rw [List.flatMap_cons, hdeclaration]
    simp only [List.append_assoc]

/-- **A resource that goes on where another one ends embeds the next binding.** -/
theorem embeds_of_longer {u rest rest' : WideString} (hu : u ≠ []) (hrest : Follows rest)
    (h : seam ++ rest = u ++ seam ++ rest') :
    ∃ (y : String) (after : WideString), IsNameText y.toList ∧ u = seam ++ y ++ bracket ++ after := by
  -- the seam cannot overlap itself, so it starts what goes on
  obtain ⟨v, rfl, hv⟩ : ∃ v, u = seam ++ v ∧ rest = v ++ seam ++ rest' := by
    rcases u with _ | ⟨a, _ | ⟨b, _ | ⟨c, _ | ⟨d, v⟩⟩⟩⟩ <;> simp [seam] at h hu ⊢
    obtain ⟨rfl, rfl, rfl, rfl, hrest⟩ := h
    exact ⟨⟨rfl, rfl, rfl, rfl⟩, hrest⟩
  obtain hcomma | ⟨y, more, hy, rfl⟩ := hrest
  · rw [hv] at hcomma
    simp [seam] at hcomma
  · refine ⟨y, ?_⟩
    rw [List.append_assoc v] at hv
    obtain ⟨s, rfl, hs⟩ | ⟨s, hs, hmore⟩ := List.append_eq_append_iff.mp hv
    · exact ⟨s, hy, by simp⟩
    · -- otherwise a seam would start inside the bracket
      rcases s with _ | ⟨a, _ | ⟨b, s⟩⟩
      · exact ⟨[], hy, by simpa using hs.symm⟩
      · have hlast := congrArg List.getLast? hs
        simp only [seam, List.cons_append, List.nil_append, List.cons.injEq] at hmore
        simp [bracket, ← hmore.1] at hlast
      · simp only [seam, List.cons_append, List.cons.injEq] at hmore
        obtain ⟨rfl, rfl, -⟩ := hmore
        have hmem : .char ')' ∈ y ++ bracket := by
          rw [hs]
          simp
        obtain hmem | hmem := List.mem_append.mp hmem
        · exact absurd (WideString.char_mem_ofString.mp hmem) (hy.not_mem (by decide +kernel) rfl)
        · exact absurd hmem (by decide)

theorem eq_nil_of_not_embeds {x : String} {uri u t rest rest' : WideString} (h : ¬Embeds (.resource x uri))
    (huri : uri = u ++ t) (hrest : Follows rest) (heq : seam ++ rest = t ++ (seam ++ rest')) :
    t = [] := by
  by_contra hne
  rw [← List.append_assoc] at heq
  obtain ⟨y, after, hy, rfl⟩ := embeds_of_longer hne hrest heq
  exact h ⟨u, y, after, hy, by simp [huri]⟩

theorem eq_of_append_cons {x y rest rest' : WideString} {c : CodePoint} (hx : c ∉ x) (hy : c ∉ y)
    (h : x ++ c :: rest = y ++ c :: rest') : x = y ∧ rest = rest' := by
  obtain ⟨t, rfl, ht⟩ | ⟨t, rfl, ht⟩ := List.append_eq_append_iff.mp h
  · cases t with
    | nil => simpa using ht
    | cons d t =>
      obtain ⟨rfl, -⟩ := List.cons.inj ht
      simp at hy
  · cases t with
    | nil => simpa [eq_comm] using ht
    | cons d t =>
      obtain ⟨rfl, -⟩ := List.cons.inj ht
      simp at hx

/-- Bindings that embed no others end at the same place. -/
theorem eq_of_declaration_append {b c : Binding} (hb : IsImported b) (hc : IsImported c) (hb' : ¬Embeds b)
    (hc' : ¬Embeds c) {rest rest' : WideString} (hrest : Follows rest) (hrest' : Follows rest')
    (h : declaration b ++ rest = declaration c ++ rest') : b = c ∧ rest = rest' := by
  obtain ⟨x, uri, u, rfl, hx, huri, hdeclaration⟩ := declaration_of_isImported hb
  obtain ⟨y, uri', v, rfl, hy, huri', hdeclaration'⟩ := declaration_of_isImported hc
  rw [hdeclaration, hdeclaration'] at h
  simp only [bracket, List.append_assoc, List.cons_append, List.nil_append] at h
  have hbracket : ∀ {z : String}, IsNameText z.toList → .char '(' ∉ (z : WideString) := fun hz hmem =>
    hz.not_mem (by decide +kernel) rfl (WideString.char_mem_ofString.mp hmem)
  obtain ⟨hname, hresource⟩ := eq_of_append_cons (hbracket hx) (hbracket hy) h
  simp only [List.cons.injEq, true_and] at hresource
  obtain rfl : x = y := WideString.ofString_injective hname
  have hends : u = v ∧ seam ++ rest = seam ++ rest' := by
    obtain ⟨t, rfl, ht⟩ | ⟨t, rfl, ht⟩ := List.append_eq_append_iff.mp hresource
    · rw [← List.append_assoc] at huri'
      obtain rfl := eq_nil_of_not_embeds hc' huri' hrest ht
      exact ⟨(List.append_nil u).symm, ht⟩
    · rw [← List.append_assoc] at huri
      obtain rfl := eq_nil_of_not_embeds hb' huri hrest' ht
      exact ⟨List.append_nil v, ht.symm⟩
  obtain ⟨rfl, hends⟩ := hends
  obtain rfl : uri = uri' := huri.trans huri'.symm
  exact ⟨rfl, List.append_cancel_left hends⟩

/-- **A header determines its bindings**, if none of them embeds another one. -/
theorem eq_of_declarations_eq {bs cs : List Binding} (hbs : ∀ b ∈ bs, IsImported b ∧ ¬Embeds b)
    (hcs : ∀ c ∈ cs, IsImported c ∧ ¬Embeds c)
    (h : bs.flatMap declaration ++ closing = cs.flatMap declaration ++ closing) : bs = cs := by
  have hcomma : ∀ (b : Binding) (rest : WideString), closing ≠ declaration b ++ rest := by
    intro b rest heq
    have hmem : .char ',' ∈ closing := by
      rw [heq]
      simp [declaration]
    exact absurd hmem (by decide)
  induction bs generalizing cs with
  | nil =>
    cases cs with
    | nil => rfl
    | cons c cs =>
      rw [List.flatMap_cons, List.append_assoc] at h
      exact absurd h (hcomma c _)
  | cons b bs ih =>
    cases cs with
    | nil =>
      rw [List.flatMap_cons, List.append_assoc] at h
      exact absurd h.symm (hcomma b _)
    | cons c cs =>
      obtain ⟨hb, hbs'⟩ := List.forall_mem_cons.mp hbs
      obtain ⟨hc, hcs'⟩ := List.forall_mem_cons.mp hcs
      rw [List.flatMap_cons, List.flatMap_cons, List.append_assoc, List.append_assoc] at h
      obtain ⟨rfl, hrest⟩ := eq_of_declaration_append hb.1 hc.1 hb.2 hc.2
        (follows_declarations fun b hb => (hbs' b hb).1) (follows_declarations fun c hc => (hcs' c hc).1) h
      rw [ih hbs' hcs' hrest]

/-- A binding that embeds another one is written like two. -/
theorem exists_split {b : Binding} (hb : IsImported b) (h : Embeds b) :
    ∃ c d, IsImported c ∧ IsImported d ∧ declaration b = declaration c ++ declaration d := by
  obtain ⟨x, uri, rest, rfl, hx, huri, hdeclaration⟩ := declaration_of_isImported hb
  obtain ⟨before, y, after, hy, heq⟩ := h
  have hscheme : (resourceScheme : WideString) <+: before := by
    rw [huri] at heq
    simp only [List.append_assoc] at heq
    obtain ⟨t, rfl, -⟩ | ⟨t, ht, hseam⟩ := List.append_eq_append_iff.mp heq
    · exact ⟨t, rfl⟩
    · cases t with
      | nil =>
        rw [List.append_nil] at ht
        exact ⟨[], by rw [← ht]; rfl⟩
      | cons c t =>
        obtain ⟨rfl, -⟩ := List.cons.inj hseam
        have hmem : .char '\x60' ∈ (resourceScheme : WideString) := by
          rw [ht]
          simp
        exact absurd hmem (by decide)
  refine ⟨.resource x before, .resource y (resourceScheme ++ after), ⟨hx, hscheme⟩,
    ⟨hy, List.prefix_append _ _⟩, ?_⟩
  simp [declaration, Binding.text_resource, heq, resourceScheme, WideString.ofString, seam, bracket]

/-- **A header determines the bindings of the imports if no resource embeds a binding**, and only then: with a
resource that does, there are other imports that have the same header. -/
theorem header_determines_bindings {ns : List Node} {bs : List Binding} (h : Imports ns bs) :
    (∀ p, ∃ rest, ((Process.new (bs ++ [consoleBinding]) p).render {}).1.text = programHeader bs ++ rest) ∧
    ((∀ b ∈ bs, ¬Embeds b) → ∀ ns' bs', Imports ns' bs' → (∀ b ∈ bs', ¬Embeds b) →
      programHeader bs = programHeader bs' → bs = bs') ∧
    ((∃ b ∈ bs, Embeds b) →
      ∃ ns' bs', Imports ns' bs' ∧ programHeader bs' = programHeader bs ∧ bs' ≠ bs) := by
  refine ⟨exists_text_new bs, ?_, ?_⟩
  · intro hbs ns' bs' h' hbs' heq
    rw [programHeader_eq_iff h.isImported h'.isImported] at heq
    exact eq_of_declarations_eq (fun b hb => ⟨h.isImported b hb, hbs b hb⟩)
      (fun b hb => ⟨h'.isImported b hb, hbs' b hb⟩) heq
  · rintro ⟨b, hb, hembeds⟩
    obtain ⟨c, d, hc, hd, hsplit⟩ := exists_split (h.isImported b hb) hembeds
    obtain ⟨before, after, rfl⟩ := List.append_of_mem hb
    have himported : ∀ e ∈ before ++ c :: d :: after, IsImported e := by
      have hall := h.isImported
      simp only [List.forall_mem_append, List.forall_mem_cons] at hall ⊢
      exact ⟨hall.1, hc, hd, hall.2.2⟩
    refine ⟨_, _, imports_importOf himported, ?_, ?_⟩
    · rw [programHeader_eq_iff himported h.isImported]
      simp [hsplit]
    · intro heq
      have hlength := congrArg List.length heq
      simp at hlength

theorem mem_of_embeds {x : String} {uri : WideString} (h : Embeds (.resource x uri)) {c : CodePoint}
    (hc : c ∈ seam) : c ∈ uri := by
  obtain ⟨before, y, after, -, huri⟩ := h
  rw [huri]
  simp [hc]

/-- Resources may have the marks around them in their texts. -/
theorem quoted_headers_ne :
    Imports ([.resource "a" "rho:x`", .resource "b" "rho:y"].map importOf)
      [.resource "a" "rho:x`", .resource "b" "rho:y"] ∧
    programHeader [.resource "a" "rho:x`", .resource "b" "rho:y"] ≠
      programHeader [.resource "a" "rho:x`)", .resource "b" "rho:y"] := by
  have ha : IsNameText "a".toList := ⟨'a', [], rfl, rfl, by simp⟩
  have hb : IsNameText "b".toList := ⟨'b', [], rfl, rfl, by simp⟩
  have himports : ∀ uri : WideString, (resourceScheme : WideString) <+: uri →
      Imports ([.resource "a" uri, .resource "b" "rho:y"].map importOf)
        [.resource "a" uri, .resource "b" "rho:y"] := by
    intro uri huri
    apply imports_importOf
    simp only [List.forall_mem_cons]
    exact ⟨⟨ha, huri⟩, ⟨hb, by decide⟩, by simp⟩
  have hplain : ∀ uri : WideString, .char ',' ∉ uri →
      ∀ b ∈ [Binding.resource "a" uri, .resource "b" "rho:y"], ¬Embeds b := by
    intro uri huri
    simp only [List.forall_mem_cons]
    refine ⟨fun h => huri (mem_of_embeds h (by decide)), fun h => ?_, by simp⟩
    exact absurd (mem_of_embeds h (c := .char ',') (by decide)) (by decide)
  have hfirst := himports "rho:x`" (by decide)
  refine ⟨hfirst, fun heq => ?_⟩
  have hsame := (header_determines_bindings hfirst).2.1 (hplain "rho:x`" (by decide)) _ _
    (himports "rho:x`)" (by decide)) (hplain "rho:x`)" (by decide)) heq
  simp at hsame

/-- **An import can declare two bindings**: the header is that of a program which imports them both. -/
theorem smuggled_binding :
    Imports ([.resource "a" "rho:x`),\nb(`rho:y"].map importOf) [.resource "a" "rho:x`),\nb(`rho:y"] ∧
    Imports ([.resource "a" "rho:x", .resource "b" "rho:y"].map importOf)
      [.resource "a" "rho:x", .resource "b" "rho:y"] ∧
    programHeader [.resource "a" "rho:x`),\nb(`rho:y"] =
      programHeader [.resource "a" "rho:x", .resource "b" "rho:y"] ∧
    [Binding.resource "a" "rho:x`),\nb(`rho:y"] ≠ [.resource "a" "rho:x", .resource "b" "rho:y"] := by
  have ha : IsNameText "a".toList := ⟨'a', [], rfl, rfl, by simp⟩
  have hb : IsNameText "b".toList := ⟨'b', [], rfl, rfl, by simp⟩
  refine ⟨imports_importOf ?_, imports_importOf ?_, by decide +kernel, by simp⟩
  · simp only [List.forall_mem_cons]
    exact ⟨⟨ha, by decide⟩, by simp⟩
  · simp only [List.forall_mem_cons]
    exact ⟨⟨ha, by decide⟩, ⟨hb, by decide⟩, by simp⟩

end RhoScript.Lowering
