import RhoScript.Source.Program

/-!
# What the parser has read

The parser reads a token at the place after the one before it. So the tokens of a tree that it finds are
those of the source, from the first to the last, each read at the place that the tree gives.

Main statements: a value that the parser gives is built from a tree whose tokens are scanned from the
source (`exists_scans_of_parse`), a token that is a name has a name's text (`Token.IsRead.isNameText`),
and one whose terminal has one spelling has that (`Token.IsRead.text_eq`).
-/

namespace RhoScript.Source

/-! ### Tokens in a row -/

mutual

/-- The tokens of a tree, each with the place after it. -/
def Tree.leaves : {s : Symbol} → Tree s → List (Token × Place)
  | _, @Tree.leaf _ place token _ => [(token, place)]
  | _, .node _ children => children.leaves

/-- The tokens of a forest, each with the place after it. -/
def Forest.leaves : {ss : List Symbol} → Forest ss → List (Token × Place)
  | _, .nil => []
  | _, .cons tree more => tree.leaves ++ more.leaves

end

mutual

theorem Tree.map_leaves {s : Symbol} (tree : Tree s) : tree.leaves.map (·.1) = tree.tokens := by
  cases tree with
  | leaf => rfl
  | node p children => exact children.map_leaves
termination_by structural tree

theorem Forest.map_leaves {ss : List Symbol} (forest : Forest ss) :
    forest.leaves.map (·.1) = forest.tokens := by
  cases forest with
  | nil => rfl
  | cons tree more => rw [Forest.leaves, List.map_append, tree.map_leaves, more.map_leaves, Forest.tokens]
termination_by structural forest

end

theorem Forest.leaves_split {xs ys : List Symbol} (f : Forest (xs ++ ys)) :
    f.split.1.leaves ++ f.split.2.leaves = f.leaves := by
  induction xs with
  | nil => rfl
  | cons x xs ih =>
    match f with
    | .cons tree more =>
      show (tree.leaves ++ more.split.1.leaves) ++ more.split.2.leaves = tree.leaves ++ more.leaves
      rw [List.append_assoc, ih more]

/-- `Scans ls ahead cursor`: the tokens are those of a source from the next one on, each read at the
place after the one before it. -/
inductive Scans : List (Token × Place) → Option Token → Cursor → Prop
  | done {cursor : Cursor} : Scans [] none cursor
  | next {token : Token} {place : Place} {rest : List (Token × Place)} {ahead : Option Token}
      {cursor cursor' : Cursor} : read place cursor = .ok (ahead, cursor') →
      Scans rest ahead cursor' → Scans ((token, place) :: rest) (some token) cursor

/-- The parser finds the pending symbols in the tokens that it reads. -/
theorem exists_scans_of_parse {α : Type} {pending : List Symbol} {build : Forest pending → α}
    {ahead : Option Token} {cursor : Cursor} {last : Position} {result : α}
    (h : parse pending build ahead cursor last = .ok result) :
    ∃ f, build f = result ∧ Scans f.leaves ahead cursor := by
  fun_induction parse pending build ahead cursor last with
  | case1 => cases h
  | case2 ahead cursor last hahead build =>
    cases h
    obtain rfl : ahead = none := by simpa using hahead
    exact ⟨.nil, rfl, .done⟩
  | case3 => cases h
  | case4 => cases h
  | case5 cursor last place rest token next cursor' hread build ih =>
    obtain ⟨f, hbuild, hscans⟩ := ih h
    exact ⟨.cons (.leaf token rfl) f, hbuild, .next hread hscans⟩
  | case6 => cases h
  | case7 => cases h
  | case8 ahead cursor last n rest p hpredict build grow ih =>
    obtain ⟨f, hbuild, hscans⟩ := ih h
    refine ⟨.cons (.node p f.split.1) f.split.2, hbuild, ?_⟩
    rwa [Forest.leaves, Tree.leaves, f.leaves_split]

/-- The tree of a source has the tokens of the source. -/
theorem exists_scans_of_parseProgram {source : String} {tree : Tree (.sub .program)}
    (h : parseProgram source = .ok tree) :
    ∃ ahead cursor, read .item (.start source) = .ok (ahead, cursor) ∧
      Scans tree.leaves ahead cursor := by
  unfold parseProgram at h
  split at h
  · cases h
  · rename_i ahead cursor hread
    obtain ⟨f, rfl, hscans⟩ := exists_scans_of_parse h
    match f, hscans with
    | .cons tree .nil, hscans =>
      rw [Forest.leaves, Forest.leaves, List.append_nil] at hscans
      exact ⟨ahead, cursor, hread, hscans⟩

/-! ### Values of derivations -/

theorem Tree.value_leaf_eq_ok_iff {t : Terminal} {next : Place} {token : Token}
    {belongs : token.terminal = t} {v : Value (.tok t next)} :
    (Tree.leaf token belongs).value = .ok v ↔
      ∃ value, token.value = .ok value ∧
        v = ⟨some ⟨token.start, token.stop⟩, (⟨token, value⟩ : Leaf)⟩ := by
  rw [Tree.value]
  cases token.value <;> simp [bind, Except.bind, pure, Except.pure, eq_comm]

theorem Tree.value_node_eq_ok_iff {n : Nonterminal} {p : Production n} {children : Forest p.parts}
    {v : Value (.sub n)} :
    (Tree.node p children).value = .ok v ↔
      ∃ values, children.values = .ok values ∧ v = ⟨values.span, combine p values.span values⟩ := by
  rw [Tree.value]
  cases children.values <;> simp [bind, Except.bind, pure, Except.pure, eq_comm]

theorem Forest.values_cons_eq_ok_iff {s : Symbol} {rest : List Symbol} {tree : Tree s}
    {more : Forest rest} {vs : Values (s :: rest)} :
    (Forest.cons tree more).values = .ok vs ↔
      ∃ v us, tree.value = .ok v ∧ more.values = .ok us ∧ vs = .cons v us := by
  rw [Forest.values]
  cases tree.value <;> cases more.values <;> simp [bind, Except.bind, pure, Except.pure, eq_comm]

theorem Tree.program_eq_ok_iff {tree : Tree (.sub .program)} {n : Node} :
    tree.program = .ok n ↔ ∃ v, tree.value = .ok v ∧ n = v.meaning := by
  rw [Tree.program]
  cases tree.value <;> simp [Functor.map, Except.map, eq_comm]

/-- A tree of a source text is the value of a derivation that the parser finds. -/
theorem exists_tree_of_readProgram {source : String} {n : Node} (h : readProgram source = .ok n) :
    ∃ (tree : Tree (.sub .program)) (v : Value (.sub .program)),
      parseProgram source = .ok tree ∧ tree.value = .ok v ∧ v.meaning = n := by
  unfold readProgram at h
  split at h
  · cases h
  · rename_i tree hparse
    split at h
    · cases h
    · rename_i program hprogram
      cases h
      obtain ⟨v, hvalue, rfl⟩ := Tree.program_eq_ok_iff.mp hprogram
      exact ⟨tree, v, hparse, hvalue, rfl⟩

/-! ### Tokens that have been read -/

/-- The token has been read somewhere. -/
def Token.IsRead (token : Token) : Prop := ∃ place c c', read place c = .ok (some token, c')

theorem Scans.isRead {ls : List (Token × Place)} {ahead : Option Token} {cursor : Cursor}
    (h : Scans ls ahead cursor) (hahead : ∀ token ∈ ahead, token.IsRead) :
    ∀ x ∈ ls, x.1.IsRead := by
  induction h with
  | done => exact fun _ hx => absurd hx List.not_mem_nil
  | @next token place rest ahead cursor cursor' hread _ ih =>
    refine List.forall_mem_cons.mpr ⟨hahead token rfl, ih ?_⟩
    rintro next rfl
    exact ⟨place, cursor, cursor', hread⟩

/-- All tokens in the tree of a source have been read. -/
theorem isRead_of_parseProgram {source : String} {tree : Tree (.sub .program)}
    (h : parseProgram source = .ok tree) : ∀ x ∈ tree.leaves, x.1.IsRead := by
  obtain ⟨ahead, cursor, hread, hscans⟩ := exists_scans_of_parseProgram h
  refine hscans.isRead ?_
  rintro token rfl
  exact ⟨_, _, _, hread⟩

/-- A token is read after blanks and comments, where it begins, and the cursor moves behind it. -/
theorem read_eq_ok_some {place : Place} {c c' : Cursor} {token : Token}
    (h : read place c = .ok (some token, c')) :
    ∃ n, c.skipLayout.rest ≠ [] ∧
      lexeme? place.accepts c.skipLayout.rest = some (token.terminal, n) ∧
      token.text = String.ofList (c.skipLayout.rest.take n) ∧
      token.start = c.skipLayout.position ∧ token.stop = c'.position ∧
      c' = c.skipLayout.advance n := by
  unfold read at h
  dsimp only at h
  split at h
  · cases h
  · rename_i hrest
    split at h
    · rename_i terminal n hlexeme
      cases h
      exact ⟨n, by simpa using hrest, hlexeme, rfl, rfl, rfl, rfl⟩
    · cases h

/-! ### Names and spellings -/

/-- A text that is read as a name. -/
def IsNameText (text : List Char) : Prop :=
  ∃ c rest, text = c :: rest ∧ isNameStart c = true ∧ ∀ d ∈ rest, isNamePart d = true

theorem IsNameText.not_mem {text : List Char} (h : IsNameText text) {c : Char} (hpart : isNamePart c = false)
    (hstart : isNameStart c = false) : c ∉ text := by
  obtain ⟨d, rest, rfl, hd, hrest⟩ := h
  intro hmem
  obtain rfl | hmem := List.mem_cons.mp hmem
  · rw [hstart] at hd
    cases hd
  · rw [hrest c hmem] at hpart
    cases hpart

theorem isNameText_take {text : List Char} (h : nameLength text ≠ 0) :
    IsNameText (text.take (nameLength text)) := by
  cases text with
  | nil => exact absurd rfl h
  | cons c rest =>
    rw [nameLength] at h ⊢
    split at h
    · rename_i hstart
      have htake := List.prefix_iff_eq_take.mp (List.takeWhile_prefix isNamePart (l := rest))
      rw [if_pos hstart, Nat.add_comm, List.take_succ_cons, ← htake]
      exact ⟨c, _, rfl, hstart, List.all_eq_true.mp List.all_takeWhile⟩
    · exact absurd rfl h

/-- The longest spelling is that of one of the terminals. -/
theorem longest?_spec {text : List Char} {ts : List Terminal} {t : Terminal} {n : Nat}
    (h : longest? text ts = some (t, n)) : t ∈ ts ∧ n = spellingLength text t := by
  induction ts generalizing t n with
  | nil => cases h
  | cons u rest ih =>
    simp only [longest?] at h
    split at h
    · rename_i hrest
      split at h <;> cases h
      · exact ⟨List.mem_cons_self, rfl⟩
      · exact ⟨List.mem_cons_of_mem u (ih hrest).1, (ih hrest).2⟩
    · split at h <;> cases h
      exact ⟨List.mem_cons_self, rfl⟩

theorem spelling?_of_longest? {text : List Char} {ts : List Terminal} {t : Terminal} {n : Nat}
    (h : longest? text ts = some (t, n)) : t.spelling? ≠ none := by
  intro hnone
  have hlength := (longest?_spec h).2
  rw [spellingLength, hnone] at hlength
  exact longest?_pos h hlength

theorem IsNameText.of_lexeme? {accepted : List Terminal} {text : List Char} {n : Nat}
    (h : lexeme? accepted text = some (.name, n)) : IsNameText (text.take n) := by
  unfold lexeme? at h
  split at h
  · cases h
  split at h
  · cases h
  split at h
  · rename_i hname
    obtain ⟨-, rfl⟩ := Prod.mk.inj (Option.some.inj h)
    exact isNameText_take hname.2
  · exact absurd rfl (spelling?_of_longest? h)

/-- A token that is a name has the text of one. -/
theorem Token.IsRead.isNameText {token : Token} (h : token.IsRead) (hname : token.terminal = .name) :
    IsNameText token.text.toList := by
  obtain ⟨place, c, c', hread⟩ := h
  obtain ⟨n, -, hlexeme, htext, -⟩ := read_eq_ok_some hread
  rw [hname] at hlexeme
  rw [htext, String.toList_ofList]
  exact .of_lexeme? hlexeme

theorem eq_of_wordTerminal {accepted : List Terminal} {word : List Char} {spelling : String}
    (h : (wordTerminal accepted word).spelling? = some spelling) : word = spelling.toList := by
  unfold wordTerminal at h
  cases hfind : accepted.find? fun t => t.spelling? = some (String.ofList word) with
  | none =>
    rw [hfind] at h
    cases h
  | some t =>
    have hword : t.spelling? = some (String.ofList word) := by simpa using List.find?_some hfind
    rw [hfind, Option.getD_some, hword, Option.some.injEq] at h
    rw [← h, String.toList_ofList]

/-- The lexeme of a terminal with one spelling is that spelling. -/
theorem take_of_lexeme? {accepted : List Terminal} {text : List Char} {t : Terminal} {n : Nat}
    {spelling : String} (h : lexeme? accepted text = some (t, n))
    (ht : t.spelling? = some spelling) : text.take n = spelling.toList := by
  unfold lexeme? at h
  split at h
  · cases h
    cases ht
  split at h
  · cases h
    cases ht
  split at h
  · cases h
    exact eq_of_wordTerminal ht
  · have hpos := longest?_pos h
    have hlength := (longest?_spec h).2
    rw [spellingLength, ht] at hlength
    dsimp only at hlength
    split at hlength
    · rename_i hprefix
      rw [hlength, ← String.length_toList]
      exact (List.prefix_iff_eq_take.mp (List.isPrefixOf_iff_prefix.mp hprefix)).symm
    · omega

/-- A token whose terminal has one spelling has that text. -/
theorem Token.IsRead.text_eq {token : Token} (h : token.IsRead) {spelling : String}
    (hspelling : token.terminal.spelling? = some spelling) : token.text = spelling := by
  obtain ⟨place, c, c', hread⟩ := h
  obtain ⟨n, -, hlexeme, htext, -⟩ := read_eq_ok_some hread
  rw [htext, take_of_lexeme? hlexeme hspelling, String.ofList_toList]

end RhoScript.Source
