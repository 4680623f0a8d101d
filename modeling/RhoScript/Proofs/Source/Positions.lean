import Mathlib.Data.Prod.Lex
import Mathlib.Order.Lattice
import RhoScript.Proofs.Source.Scanning

/-!
# Positions and the texts between them

The position after some text counts the line feeds in it and the characters after the last of these.
More text moves the position on, so a source has at most one place for a position, and the text from one
position to another can be cut out of it.

Main statements: what a cursor has passed determines its position (`Cursor.IsAt`), the text of a token
is what the source has from its start to its stop (`Token.StandsIn.slice?_eq`), and tokens that are
scanned follow each other without overlap (`Scans.row`).
-/

namespace RhoScript

namespace Position

/-! ### The order of positions -/

/-- Positions are ordered by lines, and in a line by columns. -/
instance : LinearOrder Position :=
  LinearOrder.lift' (fun p => toLex (p.line, p.column)) fun p q h => by
    obtain ⟨hline, hcolumn⟩ := Prod.mk.inj (toLex.injective h)
    cases p
    cases q
    congr

theorem lt_iff {p q : Position} :
    p < q ↔ p.line < q.line ∨ p.line = q.line ∧ p.column < q.column :=
  Prod.Lex.toLex_lt_toLex

theorem lt_after (p : Position) (c : Char) : p < p.after c := by
  rw [lt_iff, after]
  split_ifs
  · exact .inl (Int.lt_succ p.line)
  · exact .inr ⟨rfl, Int.lt_succ p.column⟩

/-! ### The position after a text -/

/-- The position after a text that begins a source. -/
def ofText (text : List Char) : Position where
  line := 1 + text.count '\n'
  column := (text.reverse.takeWhile (· ≠ '\n')).length

theorem ofText_concat (text : List Char) (c : Char) :
    ofText (text ++ [c]) = (ofText text).after c := by
  by_cases hc : c = '\n'
  · subst hc
    simp [ofText, after, Int.add_assoc]
  · simp [ofText, after, hc]

theorem foldl_after_ofText (before text : List Char) :
    text.foldl after (ofText before) = ofText (before ++ text) := by
  induction text generalizing before with
  | nil => simp
  | cons c rest ih =>
    rw [List.foldl_cons, ← ofText_concat, ih, List.append_assoc, List.singleton_append]

theorem ofText_le_append (before text : List Char) : ofText before ≤ ofText (before ++ text) := by
  induction text generalizing before with
  | nil => simp
  | cons c rest ih =>
    have hrest := ih (before ++ [c])
    rw [List.append_assoc, List.singleton_append, ofText_concat] at hrest
    exact (lt_after _ c).le.trans hrest

/-- More text moves the position on. -/
theorem ofText_lt_append (before : List Char) {text : List Char} (h : text ≠ []) :
    ofText before < ofText (before ++ text) := by
  obtain ⟨c, rest, rfl⟩ := List.exists_cons_of_ne_nil h
  have hrest := ofText_le_append (before ++ [c]) rest
  rw [List.append_assoc, List.singleton_append, ofText_concat] at hrest
  exact (lt_after _ c).trans_le hrest

end Position

namespace Source

open Position

/-! ### The text between two positions -/

/-- The number of characters before a position of a text. -/
def offset? (text : List Char) (p : Position) : Option Nat :=
  (List.range (text.length + 1)).find? fun i => ofText (text.take i) = p

/-- The text from one position of a source to another. -/
def slice? (source : String) (start stop : Position) : Option String := do
  let i ← offset? source.toList start
  let j ← offset? source.toList stop
  return String.ofList ((source.toList.take j).drop i)

theorem offset?_ofText (before rest : List Char) :
    offset? (before ++ rest) (ofText before) = some before.length := by
  rw [offset?, List.find?_range_eq_some]
  refine ⟨by simp, List.mem_range.mpr (by rw [List.length_append]; omega), fun j hj => ?_⟩
  have htake : before = before.take j ++ before.drop j := (List.take_append_drop j before).symm
  have hne : before.drop j ≠ [] := by simpa using hj
  have hlt := ofText_lt_append (before.take j) hne
  rw [← htake] at hlt
  simpa [List.take_append_of_le_length hj.le] using hlt.ne

theorem slice?_ofText {source : String} {before text rest : List Char}
    (h : source.toList = before ++ text ++ rest) :
    slice? source (ofText before) (ofText (before ++ text)) = some (String.ofList text) := by
  have hstart : offset? source.toList (ofText before) = some before.length := by
    rw [h, List.append_assoc, offset?_ofText]
  have hstop : offset? source.toList (ofText (before ++ text)) = some (before ++ text).length := by
    rw [h, offset?_ofText]
  have hslice : (source.toList.take (before ++ text).length).drop before.length = text := by
    rw [h, List.take_left, List.drop_left]
  rw [slice?, hstart, hstop]
  exact congrArg (fun cs => some (String.ofList cs)) hslice

/-! ### Cursors and tokens -/

/-- What a cursor has passed gives its position. -/
def Cursor.IsAt (source : String) (before : List Char) (c : Cursor) : Prop :=
  source.toList = before ++ c.rest ∧ c.position = ofText before

theorem Cursor.isAt_start (source : String) : (Cursor.start source).IsAt source [] := ⟨rfl, rfl⟩

theorem Cursor.IsAt.advance {source : String} {before : List Char} {c : Cursor}
    (h : c.IsAt source before) (n : Nat) :
    (c.advance n).IsAt source (before ++ c.rest.take n) := by
  obtain ⟨hsource, hposition⟩ := h
  refine ⟨?_, ?_⟩
  · rw [hsource, Cursor.advance, List.append_assoc, List.take_append_drop]
  · rw [Cursor.advance, hposition, foldl_after_ofText]

theorem Cursor.IsAt.skipLayout {source : String} {before : List Char} {c : Cursor}
    (h : c.IsAt source before) : ∃ blank, c.skipLayout.IsAt source (before ++ blank) := by
  fun_induction Cursor.skipLayout c generalizing before with
  | case1 c hzero => exact ⟨[], by simpa using h⟩
  | case2 c hzero hless ih =>
    obtain ⟨blank, hblank⟩ := ih (h.advance (layoutLength c.rest))
    exact ⟨_, by rwa [List.append_assoc] at hblank⟩

/-- The token is a piece of the source, after the text before it. -/
structure Token.StandsIn (source : String) (before : List Char) (token : Token) : Prop where
  source_eq : ∃ rest, source.toList = before ++ token.text.toList ++ rest
  start_eq : token.start = ofText before
  stop_eq : token.stop = ofText (before ++ token.text.toList)
  nonempty : token.text.toList ≠ []

namespace Token.StandsIn

variable {source : String} {before : List Char} {token : Token}

/-- The text of a token is what the source has from its start to its stop. -/
theorem slice?_eq (h : token.StandsIn source before) :
    slice? source token.start token.stop = some token.text := by
  obtain ⟨rest, hsource⟩ := h.source_eq
  rw [h.start_eq, h.stop_eq, slice?_ofText hsource, String.ofList_toList]

theorem start_lt_stop (h : token.StandsIn source before) : token.start < token.stop := by
  rw [h.start_eq, h.stop_eq]
  exact ofText_lt_append before h.nonempty

end Token.StandsIn

/-- A token that is read stands in the source where the cursor is, after blanks and comments, and the
cursor moves behind it. -/
theorem standsIn_of_read {source : String} {before : List Char} {place : Place} {c c' : Cursor}
    {token : Token} (hc : c.IsAt source before) (hread : read place c = .ok (some token, c')) :
    ∃ blank, token.StandsIn source (before ++ blank) ∧
      c'.IsAt source (before ++ blank ++ token.text.toList) := by
  obtain ⟨blank, hblank⟩ := hc.skipLayout
  obtain ⟨n, hrest, hlexeme, htext, hstart, hstop, rfl⟩ := read_eq_ok_some hread
  have hchars : token.text.toList = c.skipLayout.rest.take n := by
    rw [htext, String.toList_ofList]
  have hnext := hblank.advance n
  rw [← hchars] at hnext
  refine ⟨blank, ⟨⟨_, hnext.1⟩, hstart.trans hblank.2, hstop.trans hnext.2, ?_⟩, hnext⟩
  rw [hchars]
  intro hnil
  have hpos := lexeme?_pos hlexeme
  rcases List.take_eq_nil_iff.mp hnil with hzero | hempty
  · omega
  · exact hrest hempty

/-! ### Tokens in a row -/

/-- The tokens follow each other, and none is empty. -/
structure Row (ts : List Token) : Prop where
  pairwise : ts.Pairwise fun t u => t.stop ≤ u.start
  nonempty : ∀ t ∈ ts, t.start < t.stop

theorem Row.of_sublist {us ts : List Token} (h : Row ts) (hsub : us.Sublist ts) : Row us :=
  ⟨h.pairwise.sublist hsub, fun t ht => h.nonempty t (hsub.mem ht)⟩

theorem Row.cons {t : Token} {ts : List Token} (h : Row ts) (hbefore : ∀ u ∈ ts, t.stop ≤ u.start)
    (ht : t.start < t.stop) : Row (t :: ts) :=
  ⟨List.pairwise_cons.mpr ⟨hbefore, h.pairwise⟩, List.forall_mem_cons.mpr ⟨ht, h.nonempty⟩⟩

/-- Tokens that are scanned stand in the source, one after the other. -/
theorem Scans.standIn {source : String} {ls : List (Token × Place)} {ahead : Option Token}
    {cursor : Cursor} (h : Scans ls ahead cursor) {before : List Char}
    (hcursor : cursor.IsAt source before)
    (hahead : ∀ t ∈ ahead, ∃ text, t.StandsIn source text ∧ t.stop = cursor.position) :
    (∀ x ∈ ls, ∃ text, x.1.StandsIn source text) ∧ Row (ls.map Prod.fst) ∧
      ∀ t ∈ ahead, ∀ x ∈ ls, t.start ≤ x.1.start := by
  induction h generalizing before with
  | done =>
    refine ⟨fun x hx => ?_, ⟨.nil, fun t ht => ?_⟩, fun t ht => ?_⟩
    · cases hx
    · cases ht
    · cases ht
  | @next token place rest ahead cursor cursor' hread hscans ih =>
    obtain ⟨text, htoken, hstop⟩ := hahead token rfl
    have hnonempty := htoken.start_lt_stop
    cases ahead with
    | none =>
      -- nothing is read, so the token is the last one
      cases hscans
      refine ⟨List.forall_mem_singleton.mpr ⟨text, htoken⟩,
        ⟨List.pairwise_singleton _ _, List.forall_mem_singleton.mpr hnonempty⟩, ?_⟩
      rintro _ ⟨⟩
      exact List.forall_mem_singleton.mpr le_rfl
    | some next =>
      obtain ⟨blank, hnext, hcursor'⟩ := standsIn_of_read hcursor hread
      obtain ⟨hstand, hrow, hafter⟩ := ih hcursor' (by
        rintro _ ⟨⟩
        exact ⟨_, hnext, hnext.stop_eq.trans hcursor'.2.symm⟩)
      have hle : ∀ x ∈ rest, token.stop ≤ x.1.start := by
        intro x hx
        refine le_trans ?_ (hafter next rfl x hx)
        rw [hstop, hcursor.2, hnext.start_eq]
        exact ofText_le_append _ _
      refine ⟨List.forall_mem_cons.mpr ⟨⟨text, htoken⟩, hstand⟩, ?_, ?_⟩
      · refine hrow.cons (fun u hu => ?_) hnonempty
        obtain ⟨x, hx, rfl⟩ := List.mem_map.mp hu
        exact hle x hx
      · rintro _ ⟨⟩
        exact List.forall_mem_cons.mpr ⟨le_rfl, fun x hx => hnonempty.le.trans (hle x hx)⟩

end Source

end RhoScript
