import RhoScript.Proofs.Source.Completion
import RhoScript.Proofs.Source.Spacing

/-!
# Syntax errors

The parser has passed some tokens, and some symbols are pending. Whatever these derive makes the tokens
a program (`Completes`), and they derive something; so the text up to the next token can be continued to
a source. This holds after each step of the parser, and an error is reported where it stops.

Main statement: a syntax error is at the start of a token, or of a character that begins none there, and
the text before it can be continued to a source that has a derivation (`syntaxError_viable`).
-/

namespace RhoScript.Source

open Position

/-! ### Tokens that have been passed -/

/-- `Passes place c ls place' c'`: from the cursor `c` on the tokens `ls` are read one after the other, the
first at `place` and each of the others at the place after the one before it, and then the cursor is `c'`,
at `place'`. -/
inductive Passes : Place → Cursor → List (Token × Place) → Place → Cursor → Prop
  | none {place : Place} {c : Cursor} : Passes place c [] place c
  | token {place next place' : Place} {c d c' : Cursor} {token : Token} {ls : List (Token × Place)} :
      read place c = .ok (some token, d) → Passes next d ls place' c' →
      Passes place c ((token, next) :: ls) place' c'

namespace Passes

variable {place place' : Place} {c c' : Cursor} {ls : List (Token × Place)}

/-- One more token is passed. -/
theorem concat (h : Passes place c ls place' c') {token : Token} {d : Cursor} (next : Place)
    (hread : read place' c' = .ok (some token, d)) :
    Passes place c (ls ++ [(token, next)]) next d := by
  induction h with
  | none => exact .token hread .none
  | token hfirst _ ih => exact .token hfirst (ih hread)

/-- Tokens that are scanned after the ones that have been passed are scanned with them. -/
theorem scans (h : Passes place c ls place' c') {more : List (Token × Place)}
    (hmore : ∃ ahead cursor, read place' c' = .ok (ahead, cursor) ∧ Scans more ahead cursor) :
    ∃ ahead cursor, read place c = .ok (ahead, cursor) ∧ Scans (ls ++ more) ahead cursor := by
  induction h with
  | none => exact hmore
  | token hread _ ih =>
    obtain ⟨ahead, cursor, hnext, hscans⟩ := ih hmore
    exact ⟨_, _, hread, .next hnext hscans⟩

/-- The cursor stands in the source after the text of the tokens. -/
theorem isAt (h : Passes place c ls place' c') {source : String} {before : List Char}
    (hc : c.IsAt source before) : ∃ text, c'.IsAt source (before ++ text) := by
  induction h generalizing before with
  | none => exact ⟨[], by simpa using hc⟩
  | token hread _ ih =>
    obtain ⟨blank, -, hd⟩ := standsIn_of_read hc hread
    obtain ⟨text, htext⟩ := ih hd
    exact ⟨_, by simpa only [List.append_assoc] using htext⟩

end Passes

/-- A token is read alike if layout begins further on. -/
theorem read_of_interrupted {place : Place} {c d : Cursor} {token : Token} {rest : List Char}
    (h : read place c = .ok (some token, d)) (hrest : Interrupted d.rest rest) :
    ∃ text, c.rest = text ++ d.rest ∧
      read place ⟨text ++ rest, c.position⟩ = .ok (some token, ⟨rest, d.position⟩) := by
  obtain ⟨gap, hgap, hsplit, hlexeme⟩ := layout_of_read h
  have hsolid := exists_isSolid_of_lexeme? hlexeme
  have hskip : c.skipLayout = ⟨token.text.toList ++ d.rest, gap.foldl Position.after c.position⟩ := by
    rw [← hgap.skipLayout_append hsolid, ← hsplit]
  -- the token that was read tells where it starts and stops
  have hsame : (some token, d) = (some (token.word.token _), _) :=
    Except.ok.inj (h.symm.trans (read_of_lexeme? (w := token.word) hskip hlexeme))
  have hread := read_of_lexeme? (w := token.word)
    (hgap.skipLayout_append hsolid rest c.position) (hrest.lexeme? hlexeme)
  obtain ⟨htoken, hd⟩ := Prod.mk.inj hsame
  refine ⟨gap ++ token.text.toList, by rw [hsplit, List.append_assoc], ?_⟩
  rw [List.append_assoc, hread, ← htoken, hd]

/-- **Tokens are passed alike if layout begins further on.** -/
theorem Passes.of_interrupted {place place' : Place} {c c' : Cursor} {ls : List (Token × Place)}
    (h : Passes place c ls place' c') {rest : List Char} (hrest : Interrupted c'.rest rest) :
    ∃ text, c.rest = text ++ c'.rest ∧
      Passes place ⟨text ++ rest, c.position⟩ ls place' ⟨rest, c'.position⟩ := by
  induction h with
  | none => exact ⟨[], rfl, .none⟩
  | @token place next place' c d c' token ls hread _ ih =>
    obtain ⟨text, hd, hpasses⟩ := ih hrest
    have hinterrupted : Interrupted d.rest (text ++ rest) := hd ▸ hrest.append text
    obtain ⟨first, hc, hfirst⟩ := read_of_interrupted hread hinterrupted
    refine ⟨first ++ text, by rw [hc, hd, List.append_assoc], ?_⟩
    rw [List.append_assoc]
    exact .token hfirst hpasses

/-! ### What is pending -/

/-- Whatever the pending symbols derive makes a program of the tokens that have been passed. -/
def Completes (ls : List (Token × Place)) (pending : List Symbol) : Prop :=
  ∀ forest : Forest pending, ∃ tree : Tree (.sub .program), tree.leaves = ls ++ forest.leaves

theorem completes_program : Completes [] [.sub .program] := by
  intro forest
  cases forest with
  | cons tree more =>
    cases more
    exact ⟨tree, by simp [Forest.leaves]⟩

theorem Completes.leaf {ls : List (Token × Place)} {t : Terminal} {place : Place} {rest : List Symbol}
    (h : Completes ls (.tok t place :: rest)) {token : Token} (belongs : token.terminal = t) :
    Completes (ls ++ [(token, place)]) rest := by
  intro forest
  obtain ⟨tree, htree⟩ := h (.cons (.leaf token belongs) forest)
  refine ⟨tree, htree.trans ?_⟩
  rw [List.append_assoc]
  rfl

theorem Completes.node {ls : List (Token × Place)} {n : Nonterminal} {rest : List Symbol}
    (h : Completes ls (.sub n :: rest)) (p : Production n) : Completes ls (p.parts ++ rest) := by
  intro forest
  obtain ⟨tree, htree⟩ := h (.cons (.node p forest.split.1) forest.split.2)
  refine ⟨tree, htree.trans ?_⟩
  rw [← forest.leaves_split]
  rfl

/-- What comes after tokens that have been passed is accepted at the place after them. -/
theorem Passes.accepts {place place' : Place} {c c' : Cursor} {ls more : List (Token × Place)}
    (h : Passes place c ls place' c') (hlinked : Linked (ls ++ more))
    (haccepts : ∀ t ∈ nextOf (ls ++ more), t ∈ place.accepts) :
    Linked more ∧ ∀ t ∈ nextOf more, t ∈ place'.accepts := by
  induction h with
  | none => exact ⟨hlinked, haccepts⟩
  | token _ _ ih => exact ih hlinked.2 hlinked.1

/-- Tokens of the same words can be put at the same places. -/
theorem exists_seated {xs : List (Token × Place)} {tokens : List Token}
    (h : tokens.map Token.word = xs.map fun x => x.1.word) :
    ∃ ls : List (Token × Place), ls.map seat = xs.map seat ∧ ls.map (·.1) = tokens := by
  induction xs generalizing tokens with
  | nil => exact ⟨[], rfl, (List.map_eq_nil_iff.mp h).symm⟩
  | cons x xs ih =>
    obtain ⟨token, tokens, rfl, hword, hrest⟩ := List.map_eq_cons_iff.mp h
    obtain ⟨ls, hseats, htokens⟩ := ih hrest
    refine ⟨(token, x.2) :: ls, ?_, ?_⟩
    · rw [List.map_cons, List.map_cons, hseats, seat, hword]
      rfl
    · rw [List.map_cons, htokens]

/-- Symbols have a derivation on tokens that follow each other from a position on, in the text of some
words. -/
theorem exists_forest_at (ss : List Symbol) (start : Position) :
    ∃ (ws : List Word) (forest : Forest ss), (∀ w ∈ ws, w.IsSpelled) ∧
      forest.leaves.map (·.1) = spread start ws := by
  obtain ⟨sample, hspelled⟩ := exists_forest ss
  have hwords : (spread start (sample.tokens.map Token.word)).map Token.word =
      sample.leaves.map fun x => x.1.word := by
    rw [map_word_spread, ← sample.map_leaves, List.map_map]
    rfl
  obtain ⟨ls, hseats, htokens⟩ := exists_seated hwords
  obtain ⟨forest, rfl, -⟩ := sample.exists_planted hseats
  exact ⟨_, forest, List.forall_mem_map.mpr hspelled, htokens⟩

/-- The text can be continued to a source that has a derivation, and the tokens are its first ones. -/
def IsViable (ls : List (Token × Place)) (text : List Char) : Prop :=
  ∃ more tree, parseProgram (String.ofList (text ++ more)) = .ok tree ∧ ls <+: tree.leaves

/-- **The text before the next token can be continued**: after tokens that what is pending completes, and
layout, there are words that make it a source. -/
theorem Completes.isViable {ls : List (Token × Place)} {pending : List Symbol}
    (h : Completes ls pending) {source : String} {place : Place} {c : Cursor}
    (hpasses : Passes .item (.start source) ls place c) {before gap after : List Char}
    (hc : c.IsAt source before) (hgap : IsLayout gap) (hrest : c.rest = gap ++ after) :
    IsViable ls (before ++ gap) := by
  obtain ⟨ws, forest, hws, htokens⟩ :=
    exists_forest_at pending ((gap.foldl Position.after c.position).after ' ')
  obtain ⟨tree, htree⟩ := h forest
  refine ⟨' ' :: textOf ws, tree, parseProgram_eq_ok_iff.mpr ?_, ⟨forest.leaves, htree.symm⟩⟩
  -- the tokens are passed in the new text as they are in the old one
  have hinterrupted : Interrupted c.rest (gap ++ ' ' :: textOf ws) :=
    .inr ⟨gap, after, textOf ws, ' ', hrest, rfl, rfl⟩
  obtain ⟨text, htext, hpasses'⟩ := hpasses.of_interrupted hinterrupted
  obtain rfl : before = text := List.append_cancel_right (hc.1.symm.trans htext)
  -- and the words are scanned after them
  have hlinked := tree.linked_program
  have hitem := tree.starts_program
  rw [htree] at hlinked hitem
  obtain ⟨hmore, haccepts⟩ := hpasses'.accepts hlinked hitem
  have hskip : (Cursor.mk (gap ++ ' ' :: textOf ws) c.position).skipLayout =
      ⟨textOf ws, (gap.foldl Position.after c.position).after ' '⟩ := by
    rw [hgap.skipLayout, skipLayout_blank fun w hw => (hws w hw).isSolid]
  have hscans := hpasses'.scans (exists_scans_of_linked hws htokens hmore haccepts hskip)
  rw [htree, Cursor.start, String.toList_ofList, List.append_assoc]
  exact hscans

/-! ### Errors -/

/-- At the position the next token starts, or a character that begins none at that place. -/
def StartsAt (place : Place) (c : Cursor) (p : Position) : Prop :=
  (∃ token c', read place c = .ok (some token, c') ∧ token.start = p) ∨ read place c = .error p

/-- A position is blameless in a source if tokens can be passed up to where it starts a token, or a
character that begins none, and the text before it is viable. -/
def IsBlameless (source : String) (p : Position) : Prop :=
  ∃ ls place c before after, Passes .item (.start source) ls place c ∧ StartsAt place c p ∧
    source.toList = before ++ after ∧ p = ofText before ∧ IsViable ls before

/-- Where no token can be read, there is a character that begins none. -/
theorem position_of_read_error {place : Place} {c : Cursor} {p : Position} (h : read place c = .error p) :
    c.skipLayout.rest ≠ [] ∧ p = c.skipLayout.position := by
  unfold read at h
  dsimp only at h
  split at h
  · cases h
  · rename_i hrest
    split at h
    · cases h
    · cases h
      exact ⟨by simpa using hrest, rfl⟩

/-- **Where the next token starts is blameless**, and so is where none can be read. -/
theorem Completes.isBlameless {ls : List (Token × Place)} {pending : List Symbol}
    (h : Completes ls pending) {source : String} {place : Place} {c : Cursor} {p : Position}
    (hpasses : Passes .item (.start source) ls place c) (hstart : StartsAt place c p) :
    IsBlameless source p := by
  have hsite : c.skipLayout.rest ≠ [] ∧ p = c.skipLayout.position := by
    rcases hstart with ⟨token, c', hread, rfl⟩ | hread
    · obtain ⟨n, hne, -, -, hposition, -⟩ := read_eq_ok_some hread
      exact ⟨hne, hposition⟩
    · exact position_of_read_error hread
  obtain ⟨before, hc⟩ := hpasses.isAt (Cursor.isAt_start source)
  rw [List.nil_append] at hc
  obtain ⟨gap, hgap, hrest⟩ := exists_layout_of_skipLayout hsite.1
  refine ⟨ls, place, c, before ++ gap, c.skipLayout.rest, hpasses, hstart, ?_, ?_,
    h.isViable hpasses hc hgap hrest⟩
  · rw [hc.1, hrest, List.append_assoc]
  · obtain ⟨blank, hblank⟩ := hc.skipLayout
    obtain rfl : blank = gap := by
      have hsource := hc.1.symm.trans hblank.1
      rw [hrest] at hsource
      simpa using hsource.symm
    rw [hsite.2, hblank.2]

/-- **An error of the parser is blameless**: if the parser has passed tokens that what is pending completes,
and the start of the last of them is blameless, then so is the position where it stops. -/
theorem isBlameless_of_parse {α : Type} {pending : List Symbol} {build : Forest pending → α}
    {ahead : Option Token} {cursor : Cursor} {last p : Position}
    (h : parse pending build ahead cursor last = .error p) {source : String}
    {ls : List (Token × Place)} {place : Place} {c : Cursor}
    (hpasses : Passes .item (.start source) ls place c) (hread : read place c = .ok (ahead, cursor))
    (hcompletes : Completes ls pending) (hlast : ahead = none → IsBlameless source last) :
    IsBlameless source p := by
  fun_induction parse pending build ahead cursor last generalizing ls place c with
  | case1 ahead cursor last stop hsome build =>
    obtain ⟨token, rfl⟩ := Option.isSome_iff_exists.mp hsome
    rw [← Except.error.inj h]
    exact hcompletes.isBlameless hpasses (.inl ⟨token, cursor, hread, rfl⟩)
  | case2 => cases h
  | case3 cursor last t next rest stop build =>
    rw [← Except.error.inj h]
    exact hlast rfl
  | case4 cursor last next rest token q hnext build =>
    -- the token is passed, and none can be read after it
    cases h
    exact (hcompletes.leaf rfl).isBlameless (hpasses.concat next hread) (.inr hnext)
  | case5 cursor last next rest token ahead cursor' hnext build ih =>
    have htoken := hcompletes.isBlameless hpasses (.inl ⟨token, cursor, hread, rfl⟩)
    exact ih h (hpasses.concat next hread) hnext (hcompletes.leaf rfl) fun _ => htoken
  | case6 cursor last t next rest token hne build =>
    rw [← Except.error.inj h]
    exact hcompletes.isBlameless hpasses (.inl ⟨token, cursor, hread, rfl⟩)
  | case7 ahead cursor last stop n rest hnone build =>
    rw [← Except.error.inj h]
    cases ahead with
    | none => exact hlast rfl
    | some token => exact hcompletes.isBlameless hpasses (.inl ⟨token, cursor, hread, rfl⟩)
  | case8 ahead cursor last n rest p hpredict build grow ih =>
    exact ih h hpasses hread (hcompletes.node p) hlast

/-- The derivation of a source without tokens. -/
def emptyProgram : Tree (.sub .program) := .node .program (.cons (.node .noItems .nil) .nil)

theorem isBlameless_of_parseProgram {source : String} {p : Position}
    (h : parseProgram source = .error p) : IsBlameless source p := by
  cases hread : read .item (.start source) with
  | error q =>
    unfold parseProgram at h
    rw [hread] at h
    cases h
    exact completes_program.isBlameless .none (.inr hread)
  | ok next =>
    obtain ⟨ahead, cursor⟩ := next
    -- a source without tokens is accepted
    have hsome : ahead ≠ none := by
      rintro rfl
      have hempty : parseProgram source = .ok emptyProgram :=
        parseProgram_eq_ok_iff.mpr ⟨none, cursor, hread, .done⟩
      rw [hempty] at h
      cases h
    unfold parseProgram at h
    rw [hread] at h
    exact isBlameless_of_parse h .none hread completes_program fun hnone => absurd hnone hsome

/-- The report of a literal without a value is another one. -/
theorem message_literalError_ne (e : LiteralError) : (literalError e).message ≠ "Syntax error" := by
  intro h
  have hhead : (literalError e).message.head? = some (.char 'C') := by
    show List.head? (WideString.ofString ("Could not build syntax tree: " ++ e.message)) = _
    rw [WideString.ofString_append]
    rfl
  rw [h] at hhead
  cases hhead

/-- **Syntax errors are blameless up to their position**: there a token starts, or a character that begins
none, and the text before it can be continued to a source that the grammar accepts. -/
theorem syntaxError_viable {source : String} {report : CompileError}
    (h : readProgram source = .error report) (hmessage : report.message = "Syntax error") :
    ∃ p, report.line = some p.line ∧ report.column = some p.column ∧ IsBlameless source p := by
  unfold readProgram at h
  split at h
  · rename_i p hparse
    cases h
    exact ⟨p, rfl, rfl, isBlameless_of_parseProgram hparse⟩
  · split at h
    · rename_i e _
      cases h
      exact absurd hmessage (message_literalError_ne e)
    · cases h

/-- A call with an argument missing, after a remark: the mark that ends the call is to blame. -/
theorem missing_argument_viable : ∃ report, readProgram "f(1, /* 2 */ );" = .error report ∧
    report.message = "Syntax error" ∧ report.line = some 1 ∧ report.column = some 13 ∧
    IsBlameless "f(1, /* 2 */ );" ⟨1, 13⟩ := by
  have hstop : rejectedWithin 100 "f(1, /* 2 */ );" = some ⟨1, 13⟩ := by decide +kernel
  have hreject := readProgram_eq_of_rejectedWithin hstop
  obtain ⟨⟨line, column⟩, hline, hcolumn, hp⟩ := syntaxError_viable hreject rfl
  cases hline
  cases hcolumn
  exact ⟨_, hreject, rfl, rfl, rfl, hp⟩

end RhoScript.Source
