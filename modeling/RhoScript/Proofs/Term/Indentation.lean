import RhoScript.Proofs.Term.Forms
import RhoScript.Proofs.Term.IntegerTerms

/-!
# Rendering at a depth

A printer that stands at some depth of indentation writes a term as it would at depth zero, only that all
lines after the first are moved to the right. The reason is in the commands: what opens a level is closed
again, and no text that is printed as it is has a line feed in it, so that every line starts by a command
(`Nested`). Strings are no exception, since a line feed in them is escaped (`Ground.lineFeed_not_mem`).

Main statement: rendering keeps the text before, returns to the depth it began at, and adds the text of the
term with two blanks for each level after every line feed (`render_shifted`).
-/

namespace RhoScript

open Number Printer

/-! ### Moving lines to the right -/

/-- The text with two blanks for each of `d` levels after every line feed. -/
def shifted (d : Nat) (text : WideString) : WideString :=
  text.flatMap fun c => if c = .char '\n' then .char '\n' :: List.replicate (2 * d) (.char ' ') else [c]

@[simp] theorem shifted_append (d : Nat) (xs ys : WideString) :
    shifted d (xs ++ ys) = shifted d xs ++ shifted d ys := by
  simp [shifted]

theorem shifted_of_not_mem (d : Nat) {text : WideString} (h : .char '\n' ∉ text) : shifted d text = text := by
  induction text with
  | nil => rfl
  | cons c rest ih =>
    rw [List.mem_cons, not_or] at h
    have hrest := ih h.2
    simp only [shifted, List.flatMap_cons] at hrest ⊢
    rw [hrest, if_neg (Ne.symm h.1)]
    rfl

theorem shifted_cons_lineFeed (d : Nat) (rest : WideString) : shifted d (.char '\n' :: rest) =
    .char '\n' :: List.replicate (2 * d) (.char ' ') ++ shifted d rest := by
  simp [shifted]

theorem shifted_replicate (d n : Nat) :
    shifted d (List.replicate n (.char ' ')) = List.replicate n (.char ' ') := by
  apply shifted_of_not_mem
  intro h
  exact absurd (List.eq_of_mem_replicate h) (by decide)

/-- To move lines twice is to move them by the sum. -/
theorem shifted_shifted (d e : Nat) (text : WideString) :
    shifted d (shifted e text) = shifted (d + e) text := by
  induction text with
  | nil => rfl
  | cons c rest ih =>
    by_cases hc : c = .char '\n'
    · subst hc
      rw [shifted_cons_lineFeed, shifted_cons_lineFeed, shifted_append, shifted_cons_lineFeed,
        shifted_replicate, ih, Nat.mul_add, List.replicate_add]
      simp
    · have hcons : ∀ k xs, shifted k (c :: xs) = c :: shifted k xs := by
        intro k xs
        simp [shifted, hc]
      rw [hcons, hcons, hcons, ih]

/-! ### Commands -/

namespace Printer

theorem line_natCast (d : Nat) : line d = .char '\n' :: List.replicate (2 * d) (.char ' ') := by
  rw [line_eq]
  congr 1

/-- Levels are opened and closed in pairs, and lines start only by commands. -/
inductive Nested : List Command → Prop
  | nil : Nested []
  | newline : Nested [.newline]
  | stuck (e : RenderError) : Nested [.stuck e]
  | print {text : WideString} : .char '\n' ∉ text → Nested [.print text]
  | level {opening closing : WideString} {inner : List Command} : .char '\n' ∉ opening →
      .char '\n' ∉ closing → Nested inner → Nested (.enter opening :: (inner ++ [.leave closing]))
  | append {xs ys : List Command} : Nested xs → Nested ys → Nested (xs ++ ys)

namespace Nested

variable {cs : List Command}

theorem foldl_after (h : Nested cs) (d : Int) : cs.foldl Command.after d = d := by
  induction h generalizing d with
  | nil | newline | stuck | print => rfl
  | level _ _ _ ih =>
    rw [List.foldl_cons, List.foldl_append, ih]
    simp [Command.after]
  | append _ _ hxs hys => rw [List.foldl_append, hxs, hys]

/-- What nested commands write at a depth is what they write at depth zero, moved to the right. -/
theorem written_eq (h : Nested cs) (d : Nat) : written d cs = shifted d (written (0 : Nat) cs) := by
  induction h generalizing d with
  | nil | stuck => rfl
  | newline =>
    simp only [written, Command.chars_newline, line_natCast, shifted_cons_lineFeed, shifted_append,
      shifted_replicate]
    simp [shifted]
  | print htext => simp [written, shifted_of_not_mem d htext]
  | @level opening closing inner hopening hclosing hinner ih =>
    have hlevel : ∀ k : Nat, written k (.enter opening :: (inner ++ [.leave closing])) =
        opening ++ (shifted (k + 1)
          (.char '\n' :: (written (0 : Nat) inner ++ .char '\n' :: closing)) ++
          shifted k [.char '\n']) := by
      intro k
      have hdeeper : ((k : Int) + 1) = ((k + 1 : Nat) : Int) := rfl
      have hback : (((k + 1 : Nat) : Int) - 1) = k := by omega
      rw [written, written_append, Command.after, hinner.foldl_after, hdeeper, ih (k + 1)]
      simp only [written, Command.chars_enter, Command.chars_leave, hdeeper, hback, line_natCast,
        shifted_append, shifted_cons_lineFeed, shifted_of_not_mem (k + 1) hclosing]
      simp [shifted]
    rw [hlevel, hlevel, shifted_append, shifted_append, shifted_shifted, shifted_shifted,
      shifted_of_not_mem d hopening]
    rfl
  | append hxs hys ihxs ihys =>
    rw [written_append, written_append, hxs.foldl_after, hxs.foldl_after, ihxs, shifted_append, ihys]

theorem cons_print {text : WideString} (htext : .char '\n' ∉ text) (h : Nested cs) :
    Nested (.print text :: cs) :=
  (Nested.print htext).append h

theorem cons_newline (h : Nested cs) : Nested (.newline :: cs) := Nested.newline.append h

/-- A level that stands at the end of commands. -/
theorem append_level (h : Nested cs) {opening closing : WideString} {inner : List Command}
    (hopening : .char '\n' ∉ opening) (hclosing : .char '\n' ∉ closing) (hinner : Nested inner) :
    Nested (cs ++ .enter opening :: inner ++ [.leave closing]) := by
  rw [List.append_assoc, List.cons_append]
  exact h.append (.level hopening hclosing hinner)

/-- What stands between two brackets. -/
theorem bracketed (h : Nested cs) {opening closing : WideString} (hopening : .char '\n' ∉ opening)
    (hclosing : .char '\n' ∉ closing) : Nested (.print opening :: cs ++ [.print closing]) :=
  (cons_print hopening h).append (.print hclosing)

end Nested

theorem run_indent (out : Printer) {cs : List Command} (h : (out.run cs).2 = none) :
    (out.run cs).1.indent = cs.foldl Command.after out.indent := by
  induction cs generalizing out with
  | nil => rfl
  | cons c rest ih =>
    cases c with
    | stuck e => cases h
    | print text | enter text | newline | leave text => exact ih _ h

/-- **Nested commands at a depth**: if they can be run at all, then they lead back to the depth and write
what they write at depth zero, moved to the right. -/
theorem Nested.run_eq {cs : List Command} (h : Nested cs) (out : Printer) {d : Nat} (hd : out.indent = d)
    (hnone : (out.run cs).2 = none) :
    ∃ text, run {} cs = (⟨0, text⟩, none) ∧
      out.run cs = (⟨d, out.text ++ shifted d text⟩, none) := by
  obtain ⟨hfree, htext⟩ := run_eq_written out hnone
  have hzero : (run {} cs).2 = none := by
    obtain ⟨hzero, -⟩ | ⟨e, -, hmem⟩ := run_cases {} cs
    · exact hzero
    · exact absurd hmem (hfree e)
  have hindent := run_indent out hnone
  have hindent₀ := run_indent {} hzero
  have htext₀ := (run_eq_written {} hzero).2
  rw [h.foldl_after] at hindent hindent₀
  rw [hd] at hindent htext
  refine ⟨written (0 : Nat) cs, ?_, ?_⟩
  · show ((⟨(run {} cs).1.indent, (run {} cs).1.text⟩ : Printer), (run {} cs).2) = _
    rw [hindent₀, htext₀, hzero]
    simp
  · show ((⟨(out.run cs).1.indent, (out.run cs).1.text⟩ : Printer), (out.run cs).2) = _
    rw [hindent, htext, hnone, h.written_eq d]

end Printer

/-! ### Terms -/

/-- The words that stand in the text of a binding as they are. -/
def Binding.words : Binding → List WideString
  | .plain name => [name]
  | .resource name uri => [name, uri]

mutual

/-- The words that stand in the text of a process as they are: identifiers, operators and resources. -/
def Process.words : Process → List WideString
  | .nil | .ground _ | .unspecified => []
  | .list items | .tuple items => Process.wordsAll items
  | .map entries => Process.wordsEntries entries
  | .select specimen cases => specimen.words ++ Process.wordsCases cases
  | .send destination arguments => destination.words ++ Process.wordsAll arguments
  | .binary operator left right => operator :: (left.words ++ right.words)
  | .unary operator operand => operator :: operand.words
  | .receive clauses continuation => Name.wordsClauses clauses ++ continuation.words
  | .contract name formals body => name.words ++ (Name.wordsAll formals ++ body.words)
  | .drop name => name.words
  | .par left right => left.words ++ right.words
  | .new bindings body => bindings.flatMap Binding.words ++ body.words

/-- The words of a name. -/
def Name.words : Name → List WideString
  | .var identifier => [identifier]
  | .quote process => process.words
  | .unspecified => []

/-- The words of several processes. -/
def Process.wordsAll : List Process → List WideString
  | [] => []
  | p :: rest => p.words ++ Process.wordsAll rest

/-- The words of the entries of a map, whose keys are strings and no words. -/
def Process.wordsEntries : List (WideString × Process) → List WideString
  | [] => []
  | (_, p) :: rest => p.words ++ Process.wordsEntries rest

/-- The words of cases. -/
def Process.wordsCases : List (Process × Process) → List WideString
  | [] => []
  | (pattern, body) :: rest => pattern.words ++ (body.words ++ Process.wordsCases rest)

/-- The words of several names. -/
def Name.wordsAll : List Name → List WideString
  | [] => []
  | n :: rest => n.words ++ Name.wordsAll rest

/-- The words of the clauses of a receiver. -/
def Name.wordsClauses : List (List Name × Name) → List WideString
  | [] => []
  | (patterns, channel) :: rest =>
    Name.wordsAll patterns ++ (channel.words ++ Name.wordsClauses rest)

end

/-- No word has a line feed. -/
def OnOneLine (words : List WideString) : Prop := ∀ w ∈ words, .char '\n' ∉ w

@[simp] theorem onOneLine_cons {w : WideString} {words : List WideString} :
    OnOneLine (w :: words) ↔ .char '\n' ∉ w ∧ OnOneLine words := by
  simp [OnOneLine]

@[simp] theorem onOneLine_append {vs ws : List WideString} :
    OnOneLine (vs ++ ws) ↔ OnOneLine vs ∧ OnOneLine ws := by
  simp only [OnOneLine, List.mem_append, or_imp, forall_and]

/-- A line feed in a string is escaped. -/
theorem Ground.lineFeed_not_mem_quotedText (s : WideString) : .char '\n' ∉ quotedText s := by
  have hescape : ∀ c, '\n' ∉ escape c := by
    intro c
    obtain ⟨heq, hc⟩ | ⟨l, heq, hl, -⟩ | ⟨i, j, k, l, heq, -, -, hplain⟩ := Source.escape_cases c
    · rw [heq, List.mem_singleton]
      exact Ne.symm hc.2.2
    · simp [heq, Ne.symm hl]
    · intro hmem
      rw [heq] at hmem
      obtain h | h | hmem := by simpa only [List.mem_cons] using hmem
      · exact absurd h (by decide)
      · exact absurd h (by decide)
      · exact (hplain _ (by simpa only [List.mem_cons] using hmem)).2.2 rfl
  have hpoint : ∀ p, .char '\n' ∉ escapePoint p := by
    intro p
    cases p <;> simp [escapePoint, hescape]
  simp [quotedText, hpoint]

theorem Ground.lineFeed_not_mem {v : Ground} {text : WideString} (h : v.text? = some text) :
    .char '\n' ∉ text := by
  have hnumber : v.isNumber = true → .char '\n' ∉ text := by
    intro hv
    obtain ⟨text, rfl, rfl | ⟨-, hparts⟩⟩ := numeral_of_text? hv h
    · decide
    · intro hmem
      obtain ⟨c, hc, heq⟩ := List.mem_map.mp hmem
      cases heq
      exact absurd (hparts _ hc) (by decide)
  cases v with
  | bool b =>
    obtain rfl := Option.some.inj h
    cases b <;> decide
  | string s =>
    obtain rfl := Option.some.inj h
    exact lineFeed_not_mem_quotedText s
  | int | double => exact hnumber rfl

theorem Ground.nested_layout (v : Ground) : Nested [v.layout] := by
  unfold Ground.layout
  split
  · rename_i text htext
    exact .print (lineFeed_not_mem htext)
  · exact .stuck _

theorem nested_row {between : WideString} (hbetween : .char '\n' ∉ between) {xss : List (List Command)}
    (h : ∀ xs ∈ xss, Nested xs) : Nested (row (.print between) xss) := by
  induction xss with
  | nil => exact .nil
  | cons xs rest ih =>
    obtain ⟨hxs, hrest⟩ := List.forall_mem_cons.mp h
    cases rest with
    | nil => exact hxs
    | cons ys rest => exact hxs.append ((ih hrest).cons_print hbetween)

theorem nested_commas {xss : List (List Command)} (h : ∀ xs ∈ xss, Nested xs) :
    Nested (row (.print ", ") xss) :=
  nested_row (by decide) h

theorem Binding.nested_layoutAll {bs : List Binding} (h : OnOneLine (bs.flatMap Binding.words)) :
    Nested (Binding.layoutAll bs) := by
  have htext : ∀ b : Binding, OnOneLine b.words → .char '\n' ∉ b.text := by
    intro b hb
    cases b with
    | plain x => exact (onOneLine_cons.mp hb).1
    | resource x uri =>
      simp only [Binding.words, onOneLine_cons] at hb
      rw [Binding.text_resource]
      simp [hb.1, hb.2.1]
  have hnext : ∀ bs : List Binding, OnOneLine (bs.flatMap Binding.words) →
      Nested (bs.flatMap Binding.layoutNext) := by
    intro bs h
    induction bs with
    | nil => exact .nil
    | cons b rest ih =>
      rw [List.flatMap_cons, onOneLine_append] at h
      rw [List.flatMap_cons]
      refine Nested.append ?_ (ih h.2)
      have hb := Nested.print (htext b h.1)
      cases b with
      | plain x => exact hb.cons_print (by decide)
      | resource x uri => exact hb.cons_newline.cons_print (by decide)
  cases bs with
  | nil => exact .nil
  | cons b rest =>
    rw [List.flatMap_cons, onOneLine_append] at h
    exact (hnext rest h.2).cons_print (htext b h.1)

mutual

/-- The commands that write a process are nested. -/
theorem Process.nested_layout (p : Process) (h : OnOneLine p.words) : Nested p.layout := by
  cases p
  case nil => exact .print (by decide)
  case ground value => exact value.nested_layout
  case list items =>
    rw [Process.layout, Process.layoutAll_eq]
    exact (nested_commas (Process.nested_layouts items h)).bracketed (by decide) (by decide)
  case tuple items =>
    rw [Process.layout, Process.layoutAll_eq]
    exact (nested_commas (Process.nested_layouts items h)).bracketed (by decide) (by decide)
  case map entries =>
    rw [Process.layout, Process.layoutEntries_eq]
    exact (nested_commas (Process.nested_entries entries h)).bracketed (by decide) (by decide)
  case select specimen cases =>
    rw [Process.words, onOneLine_append] at h
    have hhead : Nested (.newline :: .print "match (" :: specimen.layout) :=
      ((specimen.nested_layout h.1).cons_print (by decide)).cons_newline
    rw [Process.layout, Process.layoutCases_eq]
    exact hhead.append_level (by decide) (by decide) (Process.nested_cases cases h.2)
  case send destination arguments =>
    rw [Process.words, onOneLine_append] at h
    have harguments := nested_commas (Process.nested_layouts arguments h.2)
    rw [Process.layout, Process.layoutAll_eq, List.append_assoc]
    exact (destination.nested_layout h.1).append (harguments.bracketed (by decide) (by decide))
  case binary operator left right =>
    simp only [Process.words, onOneLine_cons, onOneLine_append] at h
    have hoperator : .char '\n' ∉ (" " ++ operator ++ " " : WideString) := by
      simpa [WideString.ofString] using h.1
    exact (left.nested_layout h.2.1).append ((right.nested_layout h.2.2).cons_print hoperator)
  case unary operator operand =>
    rw [Process.words, onOneLine_cons] at h
    exact ((operand.nested_layout h.2).bracketed (by decide) (by decide)).cons_print h.1
  case receive clauses continuation =>
    rw [Process.words, onOneLine_append] at h
    have hclauses : Nested (row (.print "; ") (clauses.map layoutClause)) :=
      nested_row (by decide) (Name.nested_clauses clauses h.1)
    rw [Process.layout, Name.layoutClauses_eq]
    exact (hclauses.cons_print (by decide)).append_level (by decide) (by decide)
      (continuation.nested_layout h.2)
  case contract name formals body =>
    simp only [Process.words, onOneLine_append] at h
    have hname : Nested (.print "contract " :: name.layout) :=
      (name.nested_layout h.1).cons_print (by decide)
    have hformals : Nested (.print "(" :: row (.print ", ") (formals.map Name.layout)) :=
      (nested_commas (Name.nested_layouts formals h.2.1)).cons_print (by decide)
    rw [Process.layout, Name.layoutAll_eq]
    exact (hname.append hformals).append_level (by decide) (by decide) (body.nested_layout h.2.2)
  case drop name => exact (name.nested_layout h).cons_print (by decide)
  case par left right =>
    rw [Process.words, onOneLine_append] at h
    have hright : Nested (.print "|" :: .newline :: right.layout) :=
      (right.nested_layout h.2).cons_newline.cons_print (by decide)
    exact (left.nested_layout h.1).append hright.cons_newline
  case new bindings body =>
    rw [Process.words, onOneLine_append] at h
    have hbindings : Nested (.print "new " :: Binding.layoutAll bindings) :=
      (Binding.nested_layoutAll h.1).cons_print (by decide)
    have hbody : Nested (.enter "in \x7b" :: (body.layout ++ [.leave "\x7d"])) :=
      .level (by decide) (by decide) (body.nested_layout h.2)
    rw [Process.layout, List.append_assoc]
    exact hbindings.cons_newline.append hbody.cons_newline
  case unspecified => exact .stuck _
termination_by structural p

theorem Name.nested_layout (n : Name) (h : OnOneLine n.words) : Nested n.layout := by
  cases n with
  | var identifier => exact .print (onOneLine_cons.mp h).1
  | quote process => exact (process.nested_layout h).bracketed (by decide) (by decide)
  | unspecified => exact .stuck _
termination_by structural n

theorem Process.nested_layouts (ps : List Process) (h : OnOneLine (Process.wordsAll ps)) :
    ∀ xs ∈ ps.map Process.layout, Nested xs := by
  obtain _ | ⟨p, rest⟩ := ps
  · simp
  · rw [Process.wordsAll, onOneLine_append] at h
    exact List.forall_mem_cons.mpr ⟨p.nested_layout h.1, Process.nested_layouts rest h.2⟩
termination_by structural ps

theorem Process.nested_entries (es : List (WideString × Process)) (h : OnOneLine (Process.wordsEntries es)) :
    ∀ xs ∈ es.map layoutEntry, Nested xs := by
  obtain _ | ⟨⟨key, p⟩, rest⟩ := es
  · simp
  · rw [Process.wordsEntries, onOneLine_append] at h
    refine List.forall_mem_cons.mpr ⟨?_, Process.nested_entries rest h.2⟩
    have hp := p.nested_layout h.1
    exact (hp.cons_print (by decide)).cons_print (Ground.lineFeed_not_mem_quotedText key)
termination_by structural es

theorem Process.nested_cases (cs : List (Process × Process)) (h : OnOneLine (Process.wordsCases cs)) :
    Nested (cs.flatMap layoutCase) := by
  obtain _ | ⟨⟨pattern, body⟩, rest⟩ := cs
  · exact .nil
  · simp only [Process.wordsCases, onOneLine_append] at h
    rw [List.flatMap_cons]
    refine Nested.append ?_ (Process.nested_cases rest h.2.2)
    exact (pattern.nested_layout h.1).append_level (by decide) (by decide) (body.nested_layout h.2.1)
termination_by structural cs

theorem Name.nested_layouts (ns : List Name) (h : OnOneLine (Name.wordsAll ns)) :
    ∀ xs ∈ ns.map Name.layout, Nested xs := by
  obtain _ | ⟨n, rest⟩ := ns
  · simp
  · rw [Name.wordsAll, onOneLine_append] at h
    exact List.forall_mem_cons.mpr ⟨n.nested_layout h.1, Name.nested_layouts rest h.2⟩
termination_by structural ns

theorem Name.nested_clauses (cs : List (List Name × Name)) (h : OnOneLine (Name.wordsClauses cs)) :
    ∀ xs ∈ cs.map layoutClause, Nested xs := by
  obtain _ | ⟨⟨patterns, channel⟩, rest⟩ := cs
  · simp
  · simp only [Name.wordsClauses, onOneLine_append] at h
    refine List.forall_mem_cons.mpr ⟨?_, Name.nested_clauses rest h.2.2⟩
    have hchannel : Nested (.print " <- " :: channel.layout) :=
      (channel.nested_layout h.2.1).cons_print (by decide)
    exact (nested_commas (Name.nested_layouts patterns h.1)).append hchannel
termination_by structural cs

end

/-- **A printer writes a term at any depth as at depth zero**: if identifiers, operators and resources have
no line feed, and writing does not stop, then the text before is kept, the depth is the same as before, and
what is added is the text of the term with two blanks for each level after every line feed. -/
theorem render_shifted (out : Printer) (d : Nat) (hd : out.indent = d) :
    (∀ p : Process, OnOneLine p.words → (p.render out).2 = none →
      ∃ text, p.text = .ok text ∧
        p.render out = (⟨d, out.text ++ shifted d text⟩, none)) ∧
    ∀ n : Name, OnOneLine n.words → (out.run n.layout).2 = none →
      ∃ text, run {} n.layout = (⟨0, text⟩, none) ∧
        out.run n.layout = (⟨d, out.text ++ shifted d text⟩, none) := by
  constructor
  · intro p hp hnone
    obtain ⟨text, hzero, hout⟩ := (p.nested_layout hp).run_eq out hd hnone
    refine ⟨text, ?_, hout⟩
    rw [Process.text, Process.render, hzero]
  · intro n hn hnone
    exact (n.nested_layout hn).run_eq out hd hnone

/-- Declarations and a send of a text of two lines, three levels deep. -/
theorem render_shifted_new :
    ∃ text, (Process.new [.plain "x", .resource "out" "rho:io:stdout"]
        (.par (.send (.var "x") [.ground (.string "a\nb")]) .nil)).text = .ok text ∧
      ((Process.new [.plain "x", .resource "out" "rho:io:stdout"]
        (.par (.send (.var "x") [.ground (.string "a\nb")]) .nil)).render ⟨3, "for(y <- z) "⟩).1 =
          ⟨3, "for(y <- z) " ++ shifted 3 text⟩ := by
  obtain ⟨text, htext, hrender⟩ := (render_shifted ⟨3, "for(y <- z) "⟩ 3 rfl).1
    (.new [.plain "x", .resource "out" "rho:io:stdout"]
      (.par (.send (.var "x") [.ground (.string "a\nb")]) .nil))
    (by simp [Process.words, Process.wordsAll, Name.words, Binding.words, OnOneLine])
    (by decide +kernel)
  exact ⟨text, htext, congrArg Prod.fst hrender⟩

end RhoScript
