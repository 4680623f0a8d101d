import RhoScript.Proofs.Source.Locations
import RhoScript.Proofs.Source.Words

/-!
# What words derive

Words derive what a symbol contributes if there is a derivation of them with that value, apart from
locations, wherever they stand. The rules are those of the grammar: a word derives its leaf, and words
that derive the parts of a production derive what the production makes of them (`Derives.node`).

The operands of a level and the accesses to a primary expression are joined from the left, and the
grammar lists them to the right. So an expression of a level is one that further operands can be joined
to (`Leading`), and an expression that can be accessed one that further accesses can (`Accessible`).

Main statement: words that derive a program make a text whose syntax tree is that program, apart from
locations (`readProgram_textOf`).
-/

namespace RhoScript.Source

open Node Number

/-! ### Values of words -/

/-- The value of a word. -/
def Word.value (w : Word) : Except LiteralError (Option Ground) := (w.token default).value

theorem Token.value_eq (t : Token) : t.value = t.word.value := rfl

/-- A word as a leaf. Its token stands nowhere in particular. -/
def Word.leaf (w : Word) : Leaf := ⟨w.token default, w.value.toOption.join⟩

/-- How a keyword, a mark or an operator is written. -/
def Terminal.spelling (t : Terminal) : String := t.spelling?.getD ""

/-- A keyword, a mark or an operator. -/
def Word.mark (t : Terminal) : Word := ⟨t, t.spelling⟩

theorem Word.isSpelled_mark {t : Terminal} (h : t.spelling?.isSome = true) :
    (Word.mark t).IsSpelled := by
  obtain ⟨s, hs⟩ := Option.isSome_iff_exists.mp h
  rw [Word.mark, Terminal.spelling, hs]
  exact .spelling hs

theorem Word.value_string (s : String) :
    Word.value ⟨.string, Ground.stringText s⟩ = .ok (some (.string s)) := by
  simp only [Word.value, Word.token, Token.value, decodeString_stringText]
  rw [stringOf_map_toNat, String.ofList_toList]

/-- The digits of a number are read as that number, if they are not too many. -/
theorem Word.value_number {n : Nat} (h : (Nat.toDigits 10 n).length ≤ Numeral.digitLimit) :
    Word.value ⟨.number, Ground.digitsText n⟩ = .ok (some (.int n)) := by
  have htext : (Ground.digitsText n).toList = Numeral.signed false (Nat.toDigits 10 n) :=
    digitsText_natCast n
  have hread := Numeral.read_signed (Numeral.isDigit_of_mem_toDigits n) Nat.toDigits_ne_nil h htext
  rw [Numeral.valueOf_toDigits] at hread
  simp only [Word.value, Word.token, Token.value, hread]
  rfl

/-- A word that is spelled has a value. -/
theorem Word.IsSpelled.value_eq {w : Word} (h : w.IsSpelled) : ∃ v, w.value = .ok v := by
  cases h with
  | @spelling t s h => cases t <;> cases h <;> exact ⟨_, rfl⟩
  | name => exact ⟨_, rfl⟩
  | string s => exact ⟨_, value_string s⟩
  | number h => exact ⟨_, value_number h⟩

/-! ### Derivations of words -/

/-- The words derive what a symbol contributes, apart from locations. -/
structure Derives (s : Symbol) (ws : List Word) (m : Meaning s) : Prop where
  isSpelled : ∀ w ∈ ws, w.IsSpelled
  exists_tree : ∀ tokens : List Token, tokens.map Token.word = ws →
    ∃ (tree : Tree s) (v : Value s), tree.tokens = tokens ∧ tree.value = .ok v ∧ Same s v.meaning m

/-- The words derive values of symbols in a row, apart from locations. -/
structure DerivesAll (ss : List Symbol) (ws : List Word) (vs : Values ss) : Prop where
  isSpelled : ∀ w ∈ ws, w.IsSpelled
  exists_forest : ∀ tokens : List Token, tokens.map Token.word = ws →
    ∃ (forest : Forest ss) (vs' : Values ss),
      forest.tokens = tokens ∧ forest.values = .ok vs' ∧ vs'.Same vs

theorem Same.trans {s : Symbol} {a b c : Meaning s} (h : Same s a b) (h' : Same s b c) :
    Same s a c := by
  cases s with
  | tok t place => exact ⟨h.text.trans h'.text, h.value.trans h'.value⟩
  | sub n => exact Eq.trans h h'

theorem Derives.congr {s : Symbol} {ws : List Word} {m m' : Meaning s} (h : Derives s ws m)
    (hm : Same s m m') : Derives s ws m' where
  isSpelled := h.isSpelled
  exists_tree tokens htokens := by
    obtain ⟨tree, v, htree, hvalue, hsame⟩ := h.exists_tree tokens htokens
    exact ⟨tree, v, htree, hvalue, hsame.trans hm⟩

/-- A word derives its leaf. -/
theorem Derives.word {w : Word} (hw : w.IsSpelled) (place : Place) :
    Derives (.tok w.terminal place) [w] w.leaf where
  isSpelled := List.forall_mem_singleton.mpr hw
  exists_tree tokens htokens := by
    obtain ⟨token, rfl, rfl⟩ := List.map_eq_singleton_iff.mp htokens
    obtain ⟨value, hvalue⟩ := hw.value_eq
    refine ⟨.leaf token rfl, ⟨some ⟨token.start, token.stop⟩, (⟨token, value⟩ : Leaf)⟩, rfl, ?_, rfl, ?_⟩
    · unfold Tree.value
      rw [Token.value_eq, hvalue]
      rfl
    · rw [Word.leaf, hvalue]
      rfl

/-- Words that derive the parts of a production derive what it makes of them. -/
theorem Derives.node {n : Nonterminal} (p : Production n) {ws : List Word} {vs : Values p.parts}
    (h : DerivesAll p.parts ws vs) : Derives (.sub n) ws (combine p none vs) where
  isSpelled := h.isSpelled
  exists_tree tokens htokens := by
    obtain ⟨forest, vs', hforest, hvalues, hsame⟩ := h.exists_forest tokens htokens
    refine ⟨.node p forest, ⟨vs'.span, combine p vs'.span vs'⟩, hforest, ?_,
      combine_same p _ _ vs' vs hsame⟩
    rw [Tree.value, hvalues]
    rfl

/-- Words that derive the parts of a production derive what is the same as it makes of them. -/
theorem Derives.make {n : Nonterminal} (p : Production n) {ws : List Word} {vs : Values p.parts}
    {m : CategoryMeaning n} (h : DerivesAll p.parts ws vs)
    (hm : bareMeaning n (combine p none vs) = bareMeaning n m) : Derives (.sub n) ws m :=
  (Derives.node p h).congr hm

namespace DerivesAll

theorem nil : DerivesAll [] [] .nil where
  isSpelled := nofun
  exists_forest tokens htokens := by
    obtain rfl := List.map_eq_nil_iff.mp htokens
    exact ⟨.nil, .nil, rfl, rfl, .nil⟩

theorem cons {s : Symbol} {ss : List Symbol} {ws us : List Word} {m : Meaning s} {vs : Values ss}
    (h : Derives s ws m) (hs : DerivesAll ss us vs) :
    DerivesAll (s :: ss) (ws ++ us) (.cons ⟨none, m⟩ vs) where
  isSpelled := List.forall_mem_append.mpr ⟨h.isSpelled, hs.isSpelled⟩
  exists_forest tokens htokens := by
    obtain ⟨first, more, rfl, hfirst, hmore⟩ := List.map_eq_append_iff.mp htokens
    obtain ⟨tree, v, rfl, hvalue, hsame⟩ := h.exists_tree first hfirst
    obtain ⟨forest, vs', rfl, hvalues, hsames⟩ := hs.exists_forest more hmore
    refine ⟨.cons tree forest, .cons v vs', rfl, ?_, .cons hsame hsames⟩
    rw [Forest.values, hvalue, hvalues]
    rfl

/-- The last of some symbols. -/
theorem last {s : Symbol} {ws : List Word} {m : Meaning s} (h : Derives s ws m) :
    DerivesAll [s] ws (.cons ⟨none, m⟩ .nil) := by
  simpa using cons h nil

theorem word {w : Word} (hw : w.IsSpelled) {place : Place} {ss : List Symbol} {us : List Word}
    {vs : Values ss} (hs : DerivesAll ss us vs) :
    DerivesAll (.tok w.terminal place :: ss) (w :: us) (.cons ⟨none, w.leaf⟩ vs) :=
  cons (.word hw place) hs

theorem mark {t : Terminal} (ht : t.spelling?.isSome = true) {place : Place} {ss : List Symbol}
    {us : List Word} {vs : Values ss} (hs : DerivesAll ss us vs) :
    DerivesAll (.tok t place :: ss) (.mark t :: us) (.cons ⟨none, (Word.mark t).leaf⟩ vs) :=
  word (Word.isSpelled_mark ht) hs

end DerivesAll

/-! ### Operands and accesses -/

/-- A node as an operand of a level. -/
def operandNode : (l : Level) → Node → CategoryMeaning (.operandOf l)
  | .or, n | .and, n | .equality, n | .relational, n | .additive, n | .multiplicative, n => n

theorem operandMeaning_operandNode (l : Level) (n : Node) :
    combine.operandMeaning l (operandNode l n) = n := by
  cases l <;> rfl

/-- The words derive an expression that further operands of the level can be joined to. -/
def Leading (l : Level) (ws : List Word) (n : Node) : Prop :=
  ∀ {us : List Word} {fs : List FurtherOperand}, Derives (.sub (.binaryRest l)) us fs →
    Derives (.sub (.binary l)) (ws ++ us) (joinOperands l ⟨1, 0⟩ n fs)

namespace Leading

variable {l : Level} {ws us : List Word} {a b n : Node}

theorem derives (h : Leading l ws n) : Derives (.sub (.binary l)) ws n := by
  have hnone : Derives (.sub (.binaryRest l)) [] [] := .node (.noMoreOperands l) .nil
  have hbinary := h hnone
  rwa [List.append_nil] at hbinary

theorem of_operand (h : Derives (.sub (.operandOf l)) ws (operandNode l n)) : Leading l ws n := by
  intro us fs hrest
  refine .make (.binary l) (.cons h (.last hrest)) ?_
  exact joinOperands_same l (congrArg bare (operandMeaning_operandNode l n)) rfl

/-- Another operand is joined on the right. -/
theorem join (ha : Leading l ws a) (o : Operator l) (loc : Loc)
    (hb : Derives (.sub (.operandOf l)) us (operandNode l b)) :
    Leading l (ws ++ .mark o.terminal :: us)
      (binaryNode l loc o.terminal.spelling a b) := by
  intro vs fs hrest
  have hspelled : o.terminal.spelling?.isSome = true := by cases o <;> rfl
  have hmore : Derives (.sub (.binaryRest l)) (.mark o.terminal :: (us ++ vs))
      (⟨o.terminal.spelling, b, ⟨1, 0⟩⟩ :: fs) := by
    refine .make (.moreOperands o) (.mark hspelled (.cons hb (.last hrest))) ?_
    exact congrArg (fun n => FurtherOperand.bare ⟨_, n, _⟩ :: _) (operandMeaning_operandNode l b)
  have hjoined := ha hmore
  rw [joinOperands] at hjoined
  rw [List.append_assoc]
  exact hjoined.congr (joinOperands_same l (binaryNode_same l rfl rfl) rfl)

end Leading

/-- The words derive an expression that further accesses can be applied to. -/
def Accessible (ws : List Word) (n : Node) : Prop :=
  ∀ {us : List Word} {as : List Access}, Derives (.sub .accesses) us as →
    Derives (.sub .unary) (ws ++ us) (joinAccesses ⟨1, 0⟩ n as)

namespace Accessible

variable {ws us : List Word} {n : Node}

theorem derives (h : Accessible ws n) : Derives (.sub .unary) ws n := by
  have hnone : Derives (.sub .accesses) [] [] := .node .noAccesses .nil
  have hunary := h hnone
  rwa [List.append_nil] at hunary

theorem of_primary (h : Derives (.sub .primary) ws n) : Accessible ws n :=
  fun hrest => .node .operand (.cons h (.last hrest))

/-- A member is accessed. -/
theorem member (h : Accessible ws n) {x : String} (hx : IsIdentifier x) (loc nloc : Loc) :
    Accessible (ws ++ [.mark .dot, ⟨.name, x⟩])
      (.memberExpression loc n (.identifier nloc x) false) := by
  intro vs as hrest
  have hmore : Derives (.sub .accesses) (.mark .dot :: ⟨.name, x⟩ :: vs)
      (.member (.identifier none x) ⟨1, 0⟩ :: as) :=
    .make .member (.mark rfl (.word (.name hx) (.last hrest))) rfl
  have hjoined := h hmore
  rw [joinAccesses] at hjoined
  rw [List.append_assoc]
  exact hjoined.congr (joinAccesses_same (by rw [bare, bare, bare, bare]) rfl)

/-- A call is made. -/
theorem call (h : Accessible ws n) {arguments : List Node}
    (harguments : Derives (.sub .arguments) us arguments) (loc : Loc) :
    Accessible (ws ++ .mark .parenOpen :: (us ++ [.mark .parenClose]))
      (.callExpression loc n arguments) := by
  intro vs as hrest
  have hmore : Derives (.sub .accesses) (.mark .parenOpen :: (us ++ .mark .parenClose :: vs))
      (.call arguments ⟨1, 0⟩ :: as) :=
    .make .call (.mark rfl (.cons harguments (.mark rfl (.last hrest)))) rfl
  have hjoined := h hmore
  rw [joinAccesses] at hjoined
  have happend : ws ++ .mark .parenOpen :: (us ++ [.mark .parenClose]) ++ vs =
      ws ++ .mark .parenOpen :: (us ++ .mark .parenClose :: vs) := by simp
  rw [happend]
  exact hjoined.congr (joinAccesses_same (by rw [bare, bare]) rfl)

end Accessible

/-! ### Programs -/

/-- **Words that derive a program are its source**: their text is read as the program, apart from
locations. -/
theorem readProgram_textOf {ws : List Word} {n : Node} (h : Derives (.sub .program) ws n) :
    ∃ m, readProgram (String.ofList (textOf ws)) = .ok m ∧ m.bare = n.bare := by
  obtain ⟨tree, v, htokens, hvalue, hsame⟩ :=
    h.exists_tree (spread ⟨1, 0⟩ ws) (map_word_spread ⟨1, 0⟩ ws)
  refine ⟨v.meaning, ?_, hsame⟩
  have hprogram : tree.program = .ok v.meaning := by
    rw [Tree.program, hvalue]
    rfl
  rw [readProgram, parseProgram_textOf h.isSpelled htokens]
  simp only [hprogram]

end RhoScript.Source
