import RhoScript.Proofs.Source.Faithful
import RhoScript.Proofs.Source.Interruption
import RhoScript.Proofs.Source.Layout
import RhoScript.Proofs.Source.Parametricity

/-!
# Layout does not matter

A text may be recast: its words stay, with other layout between them, and each word is found where it was
found before. A source that is recast has the same derivation on other tokens, so its tree is related to
the one it had by every congruence (`exists_readProgram_of_recast`).

Main statement: blanks and comments before and after the tokens of a source do not change its tree, apart
from locations (`readProgram_spaced`).
-/

namespace RhoScript.Source

open Node Position

/-! ### Reading tokens between layout -/

/-- What is read as a token stands after layout. -/
theorem layout_of_read {place : Place} {c c' : Cursor} {token : Token}
    (h : read place c = .ok (some token, c')) :
    ∃ gap, IsLayout gap ∧ c.rest = gap ++ (token.text.toList ++ c'.rest) ∧
      lexeme? place.accepts (token.text.toList ++ c'.rest) =
        some (token.terminal, token.text.toList.length) := by
  obtain ⟨n, hne, hlexeme, htext, -, -, rfl⟩ := read_eq_ok_some h
  obtain ⟨gap, hgap, hrest⟩ := exists_layout_of_skipLayout hne
  have hchars : token.text.toList = c.skipLayout.rest.take n := by rw [htext, String.toList_ofList]
  have hsplit : token.text.toList ++ (c.skipLayout.advance n).rest = c.skipLayout.rest := by
    rw [hchars, Cursor.advance, List.take_append_drop]
  have hlength : token.text.toList.length = n := by
    rw [hchars, List.length_take]
    exact Nat.min_eq_left (le_of_lexeme? hlexeme)
  refine ⟨gap, hgap, ?_, ?_⟩
  · rw [hsplit, hrest]
  · rw [hsplit, hlength, hlexeme]

/-- What is found is not empty and begins no layout. -/
theorem exists_isSolid_of_lexeme? {accepted : List Terminal} {x rest : List Char} {t : Terminal}
    (h : lexeme? accepted (x ++ rest) = some (t, x.length)) :
    ∃ a y, x = a :: y ∧ isSolid a = true := by
  cases x with
  | nil => exact absurd rfl (lexeme?_pos h)
  | cons a y => exact ⟨a, y, rfl, (start_of_lexeme? h).1⟩

/-- Layout before what begins no layout is skipped, and no more. -/
theorem IsLayout.skipLayout_append {gap x : List Char} (hgap : IsLayout gap)
    (hx : ∃ a y, x = a :: y ∧ isSolid a = true) (rest : List Char) (p : Position) :
    (Cursor.mk (gap ++ (x ++ rest)) p).skipLayout = ⟨x ++ rest, gap.foldl Position.after p⟩ := by
  obtain ⟨a, y, rfl, ha⟩ := hx
  rw [hgap.skipLayout]
  exact skipLayout_of_isSolid ha _ _

/-- There is no token before the end. -/
theorem read_of_skipLayout_nil {place : Place} {c : Cursor} (h : c.skipLayout.rest = []) :
    read place c = .ok (none, c.skipLayout) := by
  unfold read
  simp [h]

theorem skipLayout_of_read_none {place : Place} {c c' : Cursor} (h : read place c = .ok (none, c')) :
    c.skipLayout.rest = [] := by
  unfold read at h
  dsimp only at h
  split at h
  · rename_i hempty
    simpa using hempty
  · split at h <;> cases h

/-! ### Texts that are recast -/

/-- `Recast ws text text'`: the texts consist of the words `ws`, each with layout of its own before it,
and each word is found in the second text where it is found in the first. -/
inductive Recast : List Word → List Char → List Char → Prop
  | done {text text' : List Char} :
      (∀ p, (Cursor.mk text p).skipLayout.rest = []) →
      (∀ p, (Cursor.mk text' p).skipLayout.rest = []) → Recast [] text text'
  | word {w : Word} {ws : List Word} {gap gap' rest rest' : List Char} :
      IsLayout gap → IsLayout gap' →
      (∀ accepted, lexeme? accepted (w.text.toList ++ rest) =
          some (w.terminal, w.text.toList.length) →
        lexeme? accepted (w.text.toList ++ rest') = some (w.terminal, w.text.toList.length)) →
      Recast ws rest rest' →
      Recast (w :: ws) (gap ++ (w.text.toList ++ rest)) (gap' ++ (w.text.toList ++ rest'))

/-- More layout in front of the texts does not matter. -/
theorem Recast.prepend {ws : List Word} {text text' l l' : List Char} (h : Recast ws text text')
    (hl : IsLayout l) (hl' : IsLayout l') : Recast ws (l ++ text) (l' ++ text') := by
  cases h with
  | done htext htext' =>
    refine .done (fun p => ?_) fun p => ?_
    · rw [hl.skipLayout]
      exact htext _
    · rw [hl'.skipLayout]
      exact htext' _
  | word hgap hgap' hfound hrest =>
    rw [← List.append_assoc l, ← List.append_assoc l']
    exact .word (hl.append hgap) (hl'.append hgap') hfound hrest

/-- The tokens of a text are scanned from the text that it is recast as, at other positions. -/
theorem Recast.exists_scans {ws : List Word} {text text' : List Char} (h : Recast ws text text')
    {place : Place} {ls : List (Token × Place)} {ahead : Option Token} {c cursor : Cursor}
    (hc : c.rest = text) (hread : read place c = .ok (ahead, cursor)) (hscans : Scans ls ahead cursor)
    (hws : ls.map (·.1.word) = ws) (p : Position) :
    ∃ ls' ahead' cursor', read place ⟨text', p⟩ = .ok (ahead', cursor') ∧
      Scans ls' ahead' cursor' ∧ ls'.map seat = ls.map seat := by
  induction h generalizing place ls ahead c cursor p with
  | done _ htext' =>
    obtain rfl := List.map_eq_nil_iff.mp hws
    exact ⟨[], none, _, read_of_skipLayout_nil (htext' p), .done, rfl⟩
  | @word w ws gap gap' rest rest' hgap hgap' hfound _ ih =>
    obtain ⟨⟨token, next⟩, ls, rfl, rfl, hls⟩ := List.map_eq_cons_iff.mp hws
    cases hscans with
    | next hnext hmore =>
      obtain ⟨gap₀, hgap₀, hsplit, hlexeme⟩ := layout_of_read hread
      have hsolid := exists_isSolid_of_lexeme? hlexeme
      -- the text determines where layout ends, so the texts of the tokens agree on what follows
      have hrest : cursor.rest = rest := by
        have hskip := hgap₀.skipLayout_append hsolid cursor.rest c.position
        rw [← hsplit, hc] at hskip
        have hsame := hskip.symm.trans (hgap.skipLayout_append hsolid rest c.position)
        exact List.append_cancel_left (congrArg Cursor.rest hsame)
      subst hrest
      have hlexeme' := hfound _ hlexeme
      obtain ⟨ls', ahead', cursor', hread', hscans', hseats⟩ := ih rfl hnext hmore hls _
      have hfirst := read_of_lexeme? (w := token.word) (hgap'.skipLayout_append hsolid rest' p) hlexeme'
      refine ⟨_, _, _, hfirst, .next hread' hscans', ?_⟩
      rw [List.map_cons, List.map_cons, hseats]
      rfl

/-- **A source that is recast keeps its tree**, as far as congruences tell. -/
theorem exists_readProgram_of_recast {source source' : String} {tree : Tree (.sub .program)}
    {v : Value (.sub .program)} (hparse : parseProgram source = .ok tree) (hvalue : tree.value = .ok v)
    (h : Recast (tree.tokens.map Token.word) source.toList source'.toList) :
    ∃ m, readProgram source' = .ok m ∧ ∀ R, Congruence R → R v.meaning m := by
  obtain ⟨ahead, cursor, hread, hscans⟩ := parseProgram_eq_ok_iff.mp hparse
  rw [← tree.map_leaves, List.map_map] at h
  obtain ⟨ls, ahead', cursor', hread', hscans', hseats⟩ := h.exists_scans rfl hread hscans rfl ⟨1, 0⟩
  obtain ⟨tree', rfl, hplanted⟩ := tree.exists_planted hseats
  obtain ⟨v', hv', hrelated⟩ := hplanted v hvalue
  refine ⟨v'.meaning, ?_, hrelated⟩
  rw [readProgram, parseProgram_eq_ok_iff.mpr ⟨ahead', cursor', hread', hscans'⟩]
  simp only [Tree.program, hv']
  rfl

/-! ### Insertions -/

/-- A text of blanks and comments. -/
structure Layout where
  text : List Char
  isLayout : IsLayout text

/-- `Spaced lead trail before ts text text'`: the text comes after `before`, and the tokens `ts` stand in
it; with the layout that `lead` and `trail` give for them inserted immediately before and after each, it
is the second text. -/
inductive Spaced (lead trail : Token → Layout) :
    List Char → List Token → List Char → List Char → Prop
  | done {before text : List Char} : Spaced lead trail before [] text text
  | token {before gap text text' : List Char} {t : Token} {ts : List Token} :
      t.start = ofText (before ++ gap) →
      Spaced lead trail (before ++ gap ++ t.text.toList) ts text text' →
      Spaced lead trail before (t :: ts) (gap ++ (t.text.toList ++ text))
        (gap ++ (lead t).text ++ (t.text.toList ++ ((trail t).text ++ text')))

/-- A text has one place for a position. -/
theorem eq_of_ofText_eq {before x y v w : List Char} (htext : x ++ v = y ++ w)
    (h : ofText (before ++ x) = ofText (before ++ y)) : x = y := by
  rcases List.append_eq_append_iff.mp htext with ⟨z, rfl, -⟩ | ⟨z, rfl, -⟩
  · by_contra hne
    have hz : z ≠ [] := by
      rintro rfl
      simp at hne
    rw [← List.append_assoc] at h
    exact (ofText_lt_append (before ++ x) hz).ne h
  · by_contra hne
    have hz : z ≠ [] := by
      rintro rfl
      simp at hne
    rw [← List.append_assoc] at h
    exact (ofText_lt_append (before ++ y) hz).ne h.symm

/-- The insertions determine the text. -/
theorem Spaced.eq {lead trail : Token → Layout} {before text a b : List Char} {ts : List Token}
    (ha : Spaced lead trail before ts text a) (hb : Spaced lead trail before ts text b) : a = b := by
  induction ha generalizing b with
  | done =>
    cases hb
    rfl
  | @token before gap rest rest' t ts hstart _ ih =>
    generalize htext : gap ++ (t.text.toList ++ rest) = text at hb
    cases hb with
    | @token _ gap' rest₂ _ _ _ hstart' hrest =>
      obtain rfl := eq_of_ofText_eq htext (hstart.symm.trans hstart')
      obtain rfl := List.append_cancel_left (List.append_cancel_left htext)
      rw [ih hrest]

/-- The second text is the first, up to where layout begins in it. -/
def Interrupted (text text' : List Char) : Prop :=
  text' = text ∨ ∃ x v w c, text = x ++ v ∧ text' = x ++ c :: w ∧ isSolid c = false

namespace Interrupted

variable {text text' : List Char}

theorem append (h : Interrupted text text') (y : List Char) :
    Interrupted (y ++ text) (y ++ text') := by
  obtain rfl | ⟨x, v, w, c, rfl, rfl, hc⟩ := h
  · exact .inl rfl
  · exact .inr ⟨y ++ x, v, w, c, by simp, by simp, hc⟩

theorem layout (h : Interrupted text text') {l : List Char} (hl : IsLayout l) :
    Interrupted text (l ++ text') := by
  cases l with
  | nil => exact h
  | cons c l => exact .inr ⟨[], text, l ++ text', c, rfl, rfl, hl.isSolid_head⟩

theorem lexeme? (h : Interrupted text text') {accepted : List Terminal} {x : List Char}
    {t : Terminal} (hlexeme : Source.lexeme? accepted (x ++ text) = some (t, x.length)) :
    Source.lexeme? accepted (x ++ text') = some (t, x.length) := by
  obtain rfl | ⟨y, v, w, c, rfl, rfl, hc⟩ := h
  · exact hlexeme
  · rw [← List.append_assoc] at hlexeme ⊢
    exact lexeme?_of_interrupted hlexeme (by simp) hc

end Interrupted

/-- Layout around the tokens that are scanned from the rest of a source makes a text that the rest is
recast as. -/
theorem Scans.exists_recast {source : String} (lead trail : Token → Layout)
    {ls : List (Token × Place)} {ahead : Option Token} {cursor : Cursor}
    (h : Scans ls ahead cursor) {place : Place} {c : Cursor} {before : List Char}
    (hread : read place c = .ok (ahead, cursor)) (hc : c.IsAt source before) :
    ∃ text, Spaced lead trail before (ls.map (·.1)) c.rest text ∧
      Recast (ls.map (·.1.word)) c.rest text ∧ Interrupted c.rest text := by
  induction h generalizing place c before with
  | done =>
    have hskip := skipLayout_of_read_none hread
    have hblank : ∀ p, (Cursor.mk c.rest p).skipLayout.rest = [] := fun p => by
      rw [rest_skipLayout, hskip]
    exact ⟨c.rest, .done, .done hblank hblank, .inl rfl⟩
  | @next token next rest ahead cursor cursor' hnext _ ih =>
    obtain ⟨gap, hgap, hsplit, hlexeme⟩ := layout_of_read hread
    obtain ⟨blank, htoken, hcursor⟩ := standsIn_of_read hc hread
    obtain rfl : blank = gap := by
      have hsource := hc.1.symm.trans hcursor.1
      rw [hsplit] at hsource
      simpa using hsource.symm
    obtain ⟨text, hspaced, hrecast, hinterrupted⟩ := ih hnext hcursor
    have htrail := hinterrupted.layout (trail token).isLayout
    rw [hsplit]
    refine ⟨_, .token htoken.start_eq hspaced, ?_, ?_⟩
    · exact .word hgap (hgap.append (lead token).isLayout) (fun _ => htrail.lexeme?)
        (hrecast.prepend .nil (trail token).isLayout)
    · rw [List.append_assoc]
      exact ((htrail.append token.text.toList).layout (lead token).isLayout).append blank

/-- **Layout does not matter**: if blanks and comments are inserted before and after the tokens of a
source, in any way, then the source is still read, and its tree only differs in locations. -/
theorem readProgram_spaced {source : String} {n : Node} (h : readProgram source = .ok n) :
    ∃ tree, parseProgram source = .ok tree ∧ ∀ lead trail : Token → Layout,
      (∃ text, Spaced lead trail [] tree.tokens source.toList text) ∧
      ∀ text, Spaced lead trail [] tree.tokens source.toList text →
        ∃ m, readProgram (String.ofList text) = .ok m ∧ n.Relocated m := by
  obtain ⟨tree, v, hparse, hvalue, rfl⟩ := exists_tree_of_readProgram h
  refine ⟨tree, hparse, fun lead trail => ?_⟩
  obtain ⟨ahead, cursor, hread, hscans⟩ := exists_scans_of_parseProgram hparse
  obtain ⟨text, hspaced, hrecast, -⟩ :=
    hscans.exists_recast lead trail hread (Cursor.isAt_start source)
  rw [tree.map_leaves] at hspaced
  have hwords : tree.leaves.map (·.1.word) = tree.tokens.map Token.word := by
    rw [← tree.map_leaves, List.map_map]
    rfl
  rw [hwords, ← String.toList_ofList (l := text)] at hrecast
  obtain ⟨m, hm, hrelated⟩ := exists_readProgram_of_recast hparse hvalue hrecast
  refine ⟨⟨text, hspaced⟩, fun text' hspaced' => ?_⟩
  rw [hspaced'.eq hspaced]
  exact ⟨m, hm, hrelated _ congruence_relocated⟩

/-- The layout `/**/ //` with a line feed after it. -/
def remarks : Layout where
  text := ['/', '*', '*', '/', ' ', '/', '/', '\n']
  isLayout := @IsLayout.blockComment [] _ (by decide)
    (.blank rfl (@IsLayout.lineComment [] _ (by decide) .nil))

/-- Around the tokens of a call, remarks make no difference. -/
theorem readProgram_spaced_call : ∃ n, readProgram "log(1.5);" = .ok n ∧
    ∃ tree text m, parseProgram "log(1.5);" = .ok tree ∧
      Spaced (fun _ => remarks) (fun _ => remarks) [] tree.tokens "log(1.5);".toList text ∧
      readProgram (String.ofList text) = .ok m ∧ n.Relocated m := by
  obtain ⟨n, hread, -⟩ := exists_readProgram_of_readWithin 400 "log(1.5);" (fun _ => True)
    (by decide +kernel)
  obtain ⟨tree, hparse, hspaced⟩ := readProgram_spaced hread
  obtain ⟨⟨text, htext⟩, hread'⟩ := hspaced (fun _ => remarks) (fun _ => remarks)
  obtain ⟨m, hm, hrelocated⟩ := hread' text htext
  exact ⟨n, hread, tree, text, m, hparse, htext, hm, hrelocated⟩

end RhoScript.Source
