import RhoScript.Proofs.Source.Leaves
import RhoScript.Proofs.Source.Steps

/-!
# The positions in trees from source texts

The tokens of a source stand in it one after the other, and its tree is placed over them. Main statements:
the identifiers of a source are names (`isNameText_of_readProgram`), and the positions in the tree of a
source are faithful (`faithful_of_readProgram`): leaves are located at their texts, they are there for
exactly the tokens that stand for leaves, and nodes are located around their parts.
-/

namespace RhoScript.Source

open Node

/-! ### Trees of source texts -/

/-- The tokens in the tree of a source stand in the source, one after the other. -/
theorem standIn_of_parseProgram {source : String} {tree : Tree (.sub .program)}
    (h : parseProgram source = .ok tree) :
    (∀ t ∈ tree.tokens, ∃ before, t.StandsIn source before) ∧ Row tree.tokens := by
  obtain ⟨ahead, cursor, hread, hscans⟩ := exists_scans_of_parseProgram h
  cases ahead with
  | none =>
    have htokens : tree.tokens = [] := by
      rw [← tree.map_leaves]
      generalize tree.leaves = ls at hscans
      cases hscans
      rfl
    rw [htokens]
    refine ⟨fun t ht => ?_, .nil, fun t ht => ?_⟩
    · cases ht
    · cases ht
  | some token =>
    obtain ⟨blank, htoken, hcursor⟩ := standsIn_of_read (Cursor.isAt_start source) hread
    obtain ⟨hstand, hrow, -⟩ := hscans.standIn hcursor (by
      rintro _ ⟨⟩
      exact ⟨_, htoken, htoken.stop_eq.trans hcursor.2.symm⟩)
    rw [tree.map_leaves] at hrow
    refine ⟨fun t ht => ?_, hrow⟩
    rw [← tree.map_leaves] at ht
    obtain ⟨x, hx, rfl⟩ := List.mem_map.mp ht
    exact hstand x hx

theorem isRead_of_mem_tokens {source : String} {tree : Tree (.sub .program)}
    (h : parseProgram source = .ok tree) {t : Token} (ht : t ∈ tree.tokens) : t.IsRead := by
  rw [← tree.map_leaves] at ht
  obtain ⟨x, hx, rfl⟩ := List.mem_map.mp ht
  exact isRead_of_parseProgram h x hx

/-- The tree of a source is sound over its tokens, with a leaf for each token that stands for one. -/
theorem placed_of_readProgram {source : String} {n : Node} (h : readProgram source = .ok n) :
    ∃ tree, parseProgram source = .ok tree ∧ n.Everywhere (Sound tree.tokens) ∧
      (∀ loc, tally (isLeafAt loc) [n] =
        tree.tokens.countP (·.isLeafAt loc) + tally (sharesAt loc) [n]) ∧
      ∀ loc, tally (sharesAt loc) [n] ≤ tree.tokens.countP (·.isLeafAt loc) := by
  obtain ⟨tree, v, hparse, hvalue, rfl⟩ := exists_tree_of_readProgram h
  obtain ⟨-, hrow⟩ := standIn_of_parseProgram hparse
  obtain ⟨hplaced, hprogram⟩ := (tree.value_sits hrow hvalue).meaning
  rw [hprogram]
  refine ⟨tree, hparse, everywhere_iff.mpr ⟨⟨nofun, fun c hc => ?_, fun hne => ?_⟩, hplaced.sound⟩,
    fun loc => ?_, fun loc => ?_⟩
  · have hne := hplaced.ne_nil (List.ne_nil_of_mem hc)
    have hencloses := hplaced.encloses hne hrow c hc
    obtain ⟨t, -, u, -, hspan, -⟩ := exists_spanOf hne hrow
    rw [hspan] at hencloses ⊢
    exact hencloses
  · obtain ⟨t, ht, u, hu, hspan, -⟩ := exists_spanOf hne hrow
    rw [hspan]
    exact ⟨t, ht, u, hu, rfl⟩
  · rw [tally_singleton, tally_singleton]
    exact hplaced.leaves loc
  · rw [tally_singleton]
    exact hplaced.shares loc

/-- The nodes of the tree of a source, unless it is empty, begin where tokens stand in the source. -/
theorem standsIn_of_mem_nodes {source : String} {n m : Node} (h : readProgram source = .ok n)
    (hchildren : n.children ≠ []) (hm : m ∈ n.nodes) :
    ∃ (t : Token) (before : List Char), t.StandsIn source before ∧ m.position = t.start := by
  obtain ⟨tree, hparse, hsound, -⟩ := placed_of_readProgram h
  obtain ⟨hstand, hrow⟩ := standIn_of_parseProgram hparse
  have hne : tree.tokens ≠ [] := by
    obtain ⟨tree', v, hparse', hvalue, rfl⟩ := exists_tree_of_readProgram h
    obtain rfl := Except.ok.inj (hparse.symm.trans hparse')
    exact (tree.value_sits hrow hvalue).meaning.1.ne_nil hchildren
  obtain ⟨t, ht, u, -, hloc⟩ := (hsound m hm).located hne
  obtain ⟨before, hbefore⟩ := hstand t ht
  exact ⟨t, before, hbefore, by rw [position, hloc]⟩

theorem Token.IsLeaf.eq {t : Token} {n : Node} (h : t.IsLeaf n) :
    t.terminal.isLeaf = true ∧ n.loc = t.loc ∧
      (t.terminal = .name ∧ n = .identifier t.loc t.text ∨
        (∃ value, n = .literal t.loc value (some t.text)) ∨
        t.terminal = .thisWord ∧ n = .thisExpression t.loc) := by
  obtain ⟨value, -, hn⟩ := h
  cases ht : t.terminal.isLeaf with
  | false =>
    rw [Leaf.nodes_of_not_isLeaf _ ht] at hn
    cases hn
  | true =>
    unfold Leaf.nodes at hn
    split at hn
    case h_1 hname =>
      cases List.mem_singleton.mp hn
      exact ⟨rfl, rfl, .inl ⟨hname, rfl⟩⟩
    case h_7 hthis =>
      cases List.mem_singleton.mp hn
      exact ⟨rfl, rfl, .inr (.inr ⟨hthis, rfl⟩)⟩
    case h_8 => cases hn
    all_goals
      cases List.mem_singleton.mp hn
      exact ⟨rfl, rfl, .inr (.inl ⟨value, rfl⟩)⟩

/-- The identifiers of a source are names. -/
theorem isNameText_of_readProgram {source : String} {n : Node} (h : readProgram source = .ok n) :
    n.Everywhere fun m => ∀ loc x, m = .identifier loc x → IsNameText x.toList := by
  obtain ⟨tree, hparse, hsound, -⟩ := placed_of_readProgram h
  rintro m hm loc x rfl
  obtain ⟨t, ht, hleaf⟩ := (hsound _ hm).leaf rfl
  obtain ⟨-, -, ⟨hname, heq⟩ | ⟨value, heq⟩ | ⟨-, heq⟩⟩ := hleaf.eq
  · cases heq
    exact (isRead_of_mem_tokens hparse ht).isNameText hname
  · cases heq
  · cases heq

/-! ### Faithful positions -/

/-- The text at a location of a source. -/
def textAt? (source : String) : Loc → Option String
  | some ⟨start, some stop⟩ => slice? source start stop
  | _ => none

/-- A leaf is located at its text: an identifier at its name, and a literal at its raw text. -/
def SpelledIn (source : String) : Node → Prop
  | .identifier loc name => textAt? source loc = some name
  | .literal loc _ raw => ∃ text, raw = some text ∧ textAt? source loc = some text
  | .thisExpression loc => textAt? source loc = some "this"
  | _ => True

/-- The positions in the tree of a source are those of its tokens. -/
structure Faithful (source : String) (n : Node) : Prop where
  /-- Leaves are located at their texts. -/
  spelled : n.Everywhere (SpelledIn source)
  /-- The leaves are at the locations of the tokens, read from the source, that stand for leaves. -/
  leaves : ∃ tree ahead cursor, parseProgram source = .ok tree ∧
    read .item (.start source) = .ok (ahead, cursor) ∧ Scans tree.leaves ahead cursor ∧
    ∀ loc, (∃ m ∈ n.nodes, m.isLeaf = true ∧ m.loc = loc) ↔
      ∃ t ∈ tree.tokens, t.terminal.isLeaf = true ∧ t.loc = loc
  /-- At most two leaves are at one location, and two only as the parts of a node that shares them. -/
  shared : ∀ loc, n.nodes.countP (isLeafAt loc) ≤ 1 ∨
    n.nodes.countP (isLeafAt loc) = 2 ∧ ∃ m ∈ n.nodes, m.sharesAt loc = true
  /-- Nodes are located around their parts. -/
  encloses : n.Everywhere fun m => ∀ c ∈ m.children, Encloses m.loc c.loc

/-- A location has at most one token. -/
theorem Row.countP_isLeafAt_le {ts : List Token} (h : Row ts) (loc : Loc) :
    ts.countP (·.isLeafAt loc) ≤ 1 := by
  induction ts with
  | nil => simp
  | cons t rest ih =>
    have hrest := ih (h.of_sublist (List.sublist_cons_self t rest))
    by_cases ht : t.isLeafAt loc = true
    · have hzero : rest.countP (·.isLeafAt loc) = 0 := by
        rw [List.countP_eq_zero]
        intro u hu hloc
        have hle := (List.pairwise_cons.mp h.pairwise).1 u hu
        have hlt := (h.nonempty t List.mem_cons_self).trans_le hle
        have heq : t.loc = u.loc :=
          (Token.isLeafAt_iff.mp ht).2.trans (Token.isLeafAt_iff.mp hloc).2.symm
        rw [Token.loc, Token.loc, Option.some.injEq, SourceLocation.mk.injEq] at heq
        exact hlt.ne heq.1
      rw [List.countP_cons, hzero]
      split <;> omega
    · rw [List.countP_cons, if_neg ht]
      exact hrest

/-- The leaf of a token that stands in the source is located at its text. -/
theorem Token.IsLeaf.spelledIn {source : String} {before : List Char} {t : Token} {n : Node}
    (h : t.IsLeaf n) (hread : t.IsRead) (hstand : t.StandsIn source before) : SpelledIn source n := by
  have hslice : textAt? source t.loc = some t.text := hstand.slice?_eq
  rcases h.eq with ⟨-, -, ⟨-, rfl⟩ | ⟨value, rfl⟩ | ⟨hthis, rfl⟩⟩
  · exact hslice
  · exact ⟨t.text, rfl, hslice⟩
  · rw [SpelledIn, hslice, hread.text_eq (by rw [hthis]; rfl)]

/-- **Positions are faithful** in the tree of a source text. -/
theorem faithful_of_readProgram {source : String} {n : Node} (h : readProgram source = .ok n) :
    Faithful source n := by
  obtain ⟨tree, hparse, hsound, hleaves, hshares⟩ := placed_of_readProgram h
  obtain ⟨hstand, hrow⟩ := standIn_of_parseProgram hparse
  obtain ⟨ahead, cursor, hread, hscans⟩ := exists_scans_of_parseProgram hparse
  have hnodes : ∀ test : Node → Bool, tally test [n] = n.nodes.countP test := by
    intro test
    simp [tally]
  refine ⟨fun m hm => ?_, ⟨tree, ahead, cursor, hparse, hread, hscans, fun loc => ⟨?_, ?_⟩⟩,
    fun loc => ?_, fun m hm => (hsound m hm).encloses⟩
  · by_cases hleaf : m.isLeaf = true
    · obtain ⟨t, ht, hm⟩ := (hsound m hm).leaf hleaf
      obtain ⟨before, hbefore⟩ := hstand t ht
      exact hm.spelledIn (isRead_of_mem_tokens hparse ht) hbefore
    · cases m
      case identifier | literal | thisExpression => exact absurd rfl hleaf
      all_goals trivial
  · rintro ⟨m, hm, hleaf, rfl⟩
    obtain ⟨t, ht, hm⟩ := (hsound m hm).leaf hleaf
    obtain ⟨hterminal, hloc, -⟩ := hm.eq
    exact ⟨t, ht, hterminal, hloc.symm⟩
  · rintro ⟨t, ht, hterminal, rfl⟩
    have hpos : 0 < tree.tokens.countP (·.isLeafAt t.loc) :=
      List.countP_pos_iff.mpr ⟨t, ht, Token.isLeafAt_iff.mpr ⟨hterminal, rfl⟩⟩
    have hcount := hleaves t.loc
    obtain ⟨m, hm, htest⟩ := exists_of_tally_pos (show 0 < tally (isLeafAt t.loc) [n] by omega)
    exact ⟨m, hm, Node.isLeafAt_iff.mp htest⟩
  · have hone := hrow.countP_isLeafAt_le loc
    have hcount := hleaves loc
    have hshare := hshares loc
    rw [← hnodes]
    by_cases hzero : tally (sharesAt loc) [n] = 0
    · exact .inl (by omega)
    · exact .inr ⟨by omega, exists_of_tally_pos (Nat.pos_of_ne_zero hzero)⟩

/-- A source with a comment, a line feed, and two names that each stand for two leaves. -/
def sharedNames : String :=
  "import \x7b E \x7d from \"m\"; // a\nconst \x7b _0, k: [x] \x7d = await E(this).m(1.50);"

theorem sharedNames_faithful : ∃ n, readProgram sharedNames = .ok n ∧
    n.nodes.countP isLeaf = 11 ∧ Faithful sharedNames n := by
  obtain ⟨n, hread, hcount⟩ := exists_readProgram_of_readWithin 400 sharedNames
    (·.nodes.countP isLeaf = 11) (by decide +kernel)
  exact ⟨n, hread, hcount, faithful_of_readProgram hread⟩

end RhoScript.Source
