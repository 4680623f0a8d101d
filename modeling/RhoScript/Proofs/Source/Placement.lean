import RhoScript.Proofs.Node.Everywhere
import RhoScript.Proofs.Source.Positions

/-!
# How nodes are placed over tokens

Identifiers, literals and `this` are the leaves of syntax trees; some terminals stand for leaves, and all
others are marks. `Placed ts ns` says that nodes are placed over tokens in a row: each begins and ends
where tokens do, every leaf in them is that of a token, every node reaches around its parts, and for every
location there are as many leaves as tokens that stand for leaves. Only where two parts of one node are made
of one token there is one leaf more.

Main statements: nodes are placed over the tokens of two rows together (`Placed.append`), a node that is
made of placed nodes and located at all of their tokens is placed (`Placed.node`), and so is one that has a
leaf for both of its parts (`Placed.shared`).
-/

namespace RhoScript

namespace Node

/-- A name, a literal or `this`. -/
def isLeaf : Node → Bool
  | .identifier .. | .literal .. | .thisExpression .. => true
  | _ => false

/-- A leaf at the location. -/
def isLeafAt (loc : Loc) (n : Node) : Bool := n.isLeaf && n.loc = loc

theorem isLeafAt_iff {loc : Loc} {n : Node} :
    n.isLeafAt loc = true ↔ n.isLeaf = true ∧ n.loc = loc := by
  simp [isLeafAt]

/-- A shorthand property or an import specifier whose parts are both leaves at the location. -/
def sharesAt (loc : Loc) : Node → Bool
  | .property _ key value _ _ true _ => key.isLeafAt loc && value.isLeafAt loc
  | .importSpecifier _ binding imported => binding.isLeafAt loc && imported.isLeafAt loc
  | _ => false

/-- One location reaches from the start of another or before it to its end or beyond. -/
def Encloses (outer inner : Loc) : Prop :=
  ∃ a b c d, outer = some ⟨a, some b⟩ ∧ inner = some ⟨c, some d⟩ ∧ a ≤ c ∧ d ≤ b

theorem children_of_isLeaf {n : Node} (h : n.isLeaf = true) : n.children = [] := by
  cases n
  case identifier | literal | thisExpression => rfl
  all_goals cases h

theorem sharesAt_of_isLeaf {n : Node} (h : n.isLeaf = true) (loc : Loc) : n.sharesAt loc = false := by
  cases n
  case identifier | literal | thisExpression => rfl
  all_goals cases h

/-! ### Counting nodes -/

/-- How many nodes of the trees pass the test. -/
def tally (test : Node → Bool) (ns : List Node) : Nat := (ns.flatMap nodes).countP test

variable {test : Node → Bool}

@[simp] theorem tally_nil : tally test [] = 0 := rfl

@[simp] theorem tally_append (ns ms : List Node) :
    tally test (ns ++ ms) = tally test ns + tally test ms := by
  rw [tally, List.flatMap_append, List.countP_append]
  rfl

theorem tally_cons (n : Node) (ns : List Node) :
    tally test (n :: ns) = tally test [n] + tally test ns :=
  tally_append [n] ns

theorem tally_perm {ns ms : List Node} (h : ns.Perm ms) : tally test ns = tally test ms :=
  (h.flatMap_right nodes).countP_eq test

theorem tally_singleton (n : Node) :
    tally test [n] = tally test n.children + if test n then 1 else 0 := by
  simp [tally, nodes, descendants_eq, List.countP_cons]

/-- Some node passes the test if it is counted. -/
theorem exists_of_tally_pos {n : Node} (h : 0 < tally test [n]) : ∃ m ∈ n.nodes, test m = true := by
  simpa [tally, List.countP_pos_iff] using h

end Node

namespace Source

open Node

/-! ### Tokens -/

/-- A terminal that stands for a leaf. -/
def Terminal.isLeaf : Terminal → Bool
  | .name | .string | .number | .trueWord | .falseWord | .nullWord | .thisWord => true
  | _ => false

/-- Where a token stands. -/
def Token.loc (t : Token) : Loc := some ⟨t.start, some t.stop⟩

/-- A token that stands for a leaf at the location. -/
def Token.isLeafAt (loc : Loc) (t : Token) : Bool := t.terminal.isLeaf && t.loc = loc

theorem Token.isLeafAt_iff {loc : Loc} {t : Token} :
    t.isLeafAt loc = true ↔ t.terminal.isLeaf = true ∧ t.loc = loc := by
  simp [Token.isLeafAt]

/-- The leaves that a token of a terminal becomes. -/
def Leaf.nodes (l : Leaf) : Terminal → List Node
  | .name => [l.identifier]
  | .string | .number | .trueWord | .falseWord | .nullWord => [l.literal]
  | .thisWord => [.thisExpression l.span.loc]
  | _ => []

theorem Leaf.nodes_of_isLeaf (l : Leaf) {t : Terminal} (h : t.isLeaf = true) :
    ∃ n, l.nodes t = [n] ∧ n.isLeaf = true ∧ n.loc = l.token.loc := by
  cases t
  case name => exact ⟨l.identifier, rfl, rfl, rfl⟩
  case thisWord => exact ⟨.thisExpression l.span.loc, rfl, rfl, rfl⟩
  case string | number | trueWord | falseWord | nullWord => exact ⟨l.literal, rfl, rfl, rfl⟩
  all_goals cases h

theorem Leaf.nodes_of_not_isLeaf (l : Leaf) {t : Terminal} (h : t.isLeaf = false) :
    l.nodes t = [] := by
  cases t
  case name | string | number | trueWord | falseWord | nullWord | thisWord => cases h
  all_goals rfl

/-- A node is the leaf of a token. -/
def Token.IsLeaf (t : Token) (n : Node) : Prop :=
  ∃ value, t.value = .ok value ∧ n ∈ Leaf.nodes ⟨t, value⟩ t.terminal

/-- The span of tokens in a row. -/
def spanOf : List Token → Option Span
  | [] => none
  | t :: rest => Span.join (some ⟨t.start, t.stop⟩) (spanOf rest)

theorem spanOf_append (us vs : List Token) :
    spanOf (us ++ vs) = Span.join (spanOf us) (spanOf vs) := by
  induction us with
  | nil => rfl
  | cons t rest ih =>
    rw [List.cons_append, spanOf, spanOf, ih]
    cases spanOf rest <;> cases spanOf vs <;> rfl

/-- The span of tokens reaches from the start of one to the stop of another, around all of them. -/
theorem exists_spanOf {ts : List Token} (hne : ts ≠ []) (hrow : Row ts) :
    ∃ t ∈ ts, ∃ u ∈ ts, spanOf ts = some ⟨t.start, u.stop⟩ ∧
      ∀ v ∈ ts, t.start ≤ v.start ∧ v.stop ≤ u.stop := by
  induction ts with
  | nil => exact absurd rfl hne
  | cons t rest ih =>
    obtain ⟨hbefore, -⟩ := List.pairwise_cons.mp hrow.pairwise
    have ht := hrow.nonempty t List.mem_cons_self
    by_cases hrest : rest = []
    · subst hrest
      exact ⟨t, List.mem_cons_self, t, List.mem_cons_self, rfl,
        List.forall_mem_singleton.mpr ⟨le_rfl, le_rfl⟩⟩
    · obtain ⟨_, _, u, hu, hspan, hwithin⟩ :=
        ih hrest (hrow.of_sublist (List.sublist_cons_self t rest))
      refine ⟨t, List.mem_cons_self, u, List.mem_cons_of_mem t hu, ?_, ?_⟩
      · rw [spanOf, hspan]
        rfl
      · refine List.forall_mem_cons.mpr ⟨⟨le_rfl, ?_⟩, fun v hv => ?_⟩
        · exact (hbefore u hu).trans (hrow.nonempty u (List.mem_cons_of_mem t hu)).le
        · exact ⟨ht.le.trans (hbefore v hv), (hwithin v hv).2⟩

/-! ### Placed nodes -/

/-- A leaf is that of a token, and a node reaches around its parts. Where there are tokens, it begins and
ends where tokens do. -/
structure Sound (ts : List Token) (n : Node) : Prop where
  leaf : n.isLeaf = true → ∃ t ∈ ts, t.IsLeaf n
  encloses : ∀ c ∈ n.children, Encloses n.loc c.loc
  located : ts ≠ [] → ∃ t ∈ ts, ∃ u ∈ ts, n.loc = some ⟨t.start, some u.stop⟩

theorem Sound.mono {us ts : List Token} {n : Node} (h : Sound us n) (hne : us ≠ []) (hsub : us ⊆ ts) :
    Sound ts n := by
  refine ⟨fun hleaf => (h.leaf hleaf).imp fun _ ht => ⟨hsub ht.1, ht.2⟩, h.encloses, fun _ => ?_⟩
  obtain ⟨t, ht, u, hu, hloc⟩ := h.located hne
  exact ⟨t, hsub ht, u, hsub hu, hloc⟩

/-- The nodes are placed over the tokens. -/
structure Placed (ts : List Token) (ns : List Node) : Prop where
  located : ∀ n ∈ ns, ∃ t ∈ ts, ∃ u ∈ ts, n.loc = some ⟨t.start, some u.stop⟩
  sound : ∀ n ∈ ns, n.Everywhere (Sound ts)
  leaves : ∀ loc, tally (isLeafAt loc) ns =
    ts.countP (·.isLeafAt loc) + tally (sharesAt loc) ns
  shares : ∀ loc, tally (sharesAt loc) ns ≤ ts.countP (·.isLeafAt loc)

namespace Placed

variable {us vs ts : List Token} {ns ms : List Node}

theorem nil : Placed [] [] where
  located _ hn := by cases hn
  sound _ hn := by cases hn
  leaves _ := rfl
  shares _ := le_rfl

/-- There are tokens below nodes. -/
theorem ne_nil (h : Placed ts ns) (hne : ns ≠ []) : ts ≠ [] := by
  obtain ⟨n, rest, rfl⟩ := List.exists_cons_of_ne_nil hne
  obtain ⟨t, ht, -⟩ := h.located n List.mem_cons_self
  exact List.ne_nil_of_mem ht

/-- Nodes over two rows of tokens are placed over both together. -/
theorem append (hn : Placed us ns) (hm : Placed vs ms) : Placed (us ++ vs) (ns ++ ms) where
  located n h := by
    rcases List.mem_append.mp h with h | h
    · obtain ⟨t, ht, u, hu, hloc⟩ := hn.located n h
      exact ⟨t, List.mem_append_left vs ht, u, List.mem_append_left vs hu, hloc⟩
    · obtain ⟨t, ht, u, hu, hloc⟩ := hm.located n h
      exact ⟨t, List.mem_append_right us ht, u, List.mem_append_right us hu, hloc⟩
  sound n h m hmem := by
    rcases List.mem_append.mp h with h | h
    · have hus := hn.ne_nil (List.ne_nil_of_mem h)
      exact (hn.sound n h m hmem).mono hus (List.subset_append_left us vs)
    · have hvs := hm.ne_nil (List.ne_nil_of_mem h)
      exact (hm.sound n h m hmem).mono hvs (List.subset_append_right us vs)
  leaves loc := by
    have hleft := hn.leaves loc
    have hright := hm.leaves loc
    simp only [tally_append, List.countP_append]
    omega
  shares loc := by
    have hleft := hn.shares loc
    have hright := hm.shares loc
    simp only [tally_append, List.countP_append]
    omega

theorem mark_append (hmark : Placed us []) (h : Placed vs ms) : Placed (us ++ vs) ms :=
  hmark.append h

theorem append_mark (h : Placed us ns) (hmark : Placed vs []) : Placed (us ++ vs) ns := by
  simpa using h.append hmark

/-- A location at all tokens reaches around what is placed over them. -/
theorem encloses (h : Placed ts ns) (hne : ts ≠ []) (hrow : Row ts) :
    ∀ n ∈ ns, Encloses (locOf (spanOf ts)) n.loc := by
  obtain ⟨t, ht, u, hu, hspan, hwithin⟩ := exists_spanOf hne hrow
  intro n hn
  obtain ⟨v, hv, w, hw, hloc⟩ := h.located n hn
  exact ⟨_, _, _, _, by rw [hspan]; rfl, hloc, (hwithin v hv).1, (hwithin w hw).2⟩

/-- A node that is located at all tokens begins and ends where tokens do. -/
theorem located_node {n : Node} (hne : ts ≠ []) (hrow : Row ts) (hloc : n.loc = locOf (spanOf ts)) :
    ∃ t ∈ ts, ∃ u ∈ ts, n.loc = some ⟨t.start, some u.stop⟩ := by
  obtain ⟨t, ht, u, hu, hspan, -⟩ := exists_spanOf hne hrow
  exact ⟨t, ht, u, hu, by rw [hloc, hspan]; rfl⟩

/-- A node that is located at all tokens, over parts that are placed, is sound. -/
theorem sound_node {n : Node} (h : Placed ts ns) (hne : ts ≠ []) (hrow : Row ts)
    (hloc : n.loc = locOf (spanOf ts)) (hleaf : n.isLeaf = false) (hchildren : n.children ⊆ ns) :
    n.Everywhere (Sound ts) := by
  have hlocated := located_node hne hrow hloc
  refine everywhere_iff.mpr
    ⟨⟨fun hn => ?_, fun c hc => ?_, fun _ => hlocated⟩, fun c hc => h.sound c (hchildren hc)⟩
  · rw [hleaf] at hn
    cases hn
  · rw [hloc]
    exact h.encloses hne hrow c (hchildren hc)

/-- A node that is made of some of the placed nodes, and located at all tokens, takes their place. -/
theorem append_node {n : Node} {rest : List Node} (h : Placed ts (rest ++ ns)) (hne : ts ≠ [])
    (hrow : Row ts) (hloc : n.loc = locOf (spanOf ts)) (hleaf : n.isLeaf = false)
    (hshares : ∀ loc, n.sharesAt loc = false) (hchildren : n.children.Perm ns) :
    Placed ts (rest ++ [n]) := by
  have htally : ∀ {test : Node → Bool}, test n = false →
      tally test (rest ++ [n]) = tally test (rest ++ ns) := by
    intro test htest
    rw [tally_append, tally_append, tally_singleton, htest, tally_perm hchildren]
    rfl
  have hsub : n.children ⊆ rest ++ ns := fun c hc =>
    List.mem_append_right rest (hchildren.mem_iff.mp hc)
  refine ⟨?_, ?_, fun loc => ?_, fun loc => ?_⟩
  · refine List.forall_mem_append.mpr ⟨fun m hm => h.located m (List.mem_append_left ns hm), ?_⟩
    exact List.forall_mem_singleton.mpr (located_node hne hrow hloc)
  · refine List.forall_mem_append.mpr ⟨fun m hm => h.sound m (List.mem_append_left ns hm), ?_⟩
    exact List.forall_mem_singleton.mpr (h.sound_node hne hrow hloc hleaf hsub)
  · rw [htally (by simp [isLeafAt, hleaf]), htally (hshares loc), h.leaves]
  · rw [htally (hshares loc)]
    exact h.shares loc

/-- **A node over its parts**: a node that is made of placed nodes, and located at all of their tokens,
is placed. -/
theorem node {n : Node} (h : Placed ts ns) (hne : ts ≠ []) (hrow : Row ts)
    (hloc : n.loc = locOf (spanOf ts)) (hleaf : n.isLeaf = false)
    (hshares : ∀ loc, n.sharesAt loc = false) (hchildren : n.children.Perm ns) : Placed ts [n] := by
  have h : Placed ts ([] ++ ns) := h
  exact h.append_node hne hrow hloc hleaf hshares hchildren

/-- A node that has a leaf for both of its parts is placed over the token of that leaf. -/
theorem shared {n leaf : Node} (h : Placed ts [leaf]) (hrow : Row ts)
    (hloc : n.loc = locOf (spanOf ts)) (hn : n.isLeaf = false) (hleaf : leaf.isLeaf = true)
    (hshares : ∀ loc, n.sharesAt loc = leaf.isLeafAt loc) (hchildren : n.children = [leaf, leaf]) :
    Placed ts [n] := by
  have hne := h.ne_nil (List.cons_ne_nil leaf [])
  have hcount : ∀ loc, tally (isLeafAt loc) [leaf] = ts.countP (·.isLeafAt loc) := by
    intro loc
    rw [h.leaves, tally_singleton, children_of_isLeaf hleaf, sharesAt_of_isLeaf hleaf]
    rfl
  -- the leaf is counted twice, and once for the node that shares it
  have hone : ∀ loc, tally (sharesAt loc) [n] = tally (isLeafAt loc) [leaf] := by
    intro loc
    rw [tally_singleton, tally_singleton leaf, hchildren, tally_cons, tally_singleton leaf,
      children_of_isLeaf hleaf, sharesAt_of_isLeaf hleaf, hshares]
    rfl
  refine ⟨?_, ?_, fun loc => ?_, fun loc => ?_⟩
  · exact List.forall_mem_singleton.mpr (located_node hne hrow hloc)
  · refine List.forall_mem_singleton.mpr (h.sound_node hne hrow hloc hn ?_)
    simp [hchildren]
  · rw [hone, tally_singleton, isLeafAt, hn, hchildren, tally_cons, hcount]
    rfl
  · rw [hone, hcount]

end Placed

/-- A token with its value, in a row by itself. -/
structure Leaf.Sits (t : Terminal) (l : Leaf) (ts : List Token) : Prop where
  tokens : ts = [l.token]
  terminal : l.token.terminal = t
  value : l.token.value = .ok l.value

namespace Leaf.Sits

variable {t : Terminal} {l : Leaf} {ts : List Token}

theorem ne_nil (h : l.Sits t ts) : ts ≠ [] := by
  rw [h.tokens]
  exact List.cons_ne_nil _ _

/-- The leaves of a token are placed over it. -/
theorem placed (h : l.Sits t ts) : Placed ts (l.nodes t) := by
  obtain ⟨rfl, rfl, hvalue⟩ := h
  cases ht : l.token.terminal.isLeaf with
  | false =>
    rw [l.nodes_of_not_isLeaf ht]
    have hcount : ∀ loc, [l.token].countP (·.isLeafAt loc) = 0 := by
      intro loc
      simp [Token.isLeafAt, ht]
    exact ⟨nofun, nofun, fun loc => by rw [hcount]; rfl, fun loc => Nat.zero_le _⟩
  | true =>
    obtain ⟨n, hnodes, hleaf, hloc⟩ := l.nodes_of_isLeaf ht
    have htoken : l.token.IsLeaf n := ⟨l.value, hvalue, by rw [hnodes]; exact List.mem_cons_self⟩
    have hshares : ∀ loc, tally (sharesAt loc) [n] = 0 := by
      intro loc
      rw [tally_singleton, children_of_isLeaf hleaf, sharesAt_of_isLeaf hleaf]
      rfl
    rw [hnodes]
    have hlocated : ∃ t ∈ [l.token], ∃ u ∈ [l.token], n.loc = some ⟨t.start, some u.stop⟩ :=
      ⟨_, List.mem_cons_self, _, List.mem_cons_self, hloc⟩
    refine ⟨List.forall_mem_singleton.mpr hlocated,
      List.forall_mem_singleton.mpr (everywhere_iff.mpr ⟨⟨?_, ?_, fun _ => hlocated⟩, ?_⟩),
      fun loc => ?_, fun loc => ?_⟩
    · exact fun _ => ⟨_, List.mem_cons_self, htoken⟩
    · simp [children_of_isLeaf hleaf]
    · simp [children_of_isLeaf hleaf]
    · rw [hshares, tally_singleton, children_of_isLeaf hleaf]
      simp [isLeafAt, Token.isLeafAt, hleaf, hloc, ht, List.countP_cons]
    · rw [hshares]
      exact Nat.zero_le _

theorem mark (h : l.Sits t ts) (ht : t.isLeaf = false) : Placed ts [] := by
  rw [← l.nodes_of_not_isLeaf ht]
  exact h.placed

end Leaf.Sits

end Source

end RhoScript
