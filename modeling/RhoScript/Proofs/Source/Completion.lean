import RhoScript.Proofs.Source.Derivations

/-!
# Completions

Every category of the grammar has a production whose parts end sooner than the category itself
(`Nonterminal.least`, with `Nonterminal.height` as the measure). So every symbol has a derivation, and
whatever is pending in the parser can be completed (`exists_forest`).
-/

namespace RhoScript.Source

/-! ### Words for terminals -/

/-- A word of a terminal. -/
def Terminal.sample : Terminal → Word
  | .name => ⟨.name, "x"⟩
  | .string => ⟨.string, Ground.stringText ""⟩
  | .number => ⟨.number, Ground.digitsText 0⟩
  | t => .mark t

theorem Terminal.terminal_sample (t : Terminal) : t.sample.terminal = t := by
  cases t <;> rfl

theorem Terminal.isSpelled_sample (t : Terminal) : t.sample.IsSpelled := by
  cases t
  case name => exact .name (by decide +kernel)
  case string => exact .string ""
  case number => exact .number (by decide +kernel)
  all_goals exact Word.isSpelled_mark rfl

/-! ### The way to the end of a category -/

/-- The production by which a category ends soonest. -/
def Nonterminal.least : (n : Nonterminal) → Production n
  | .program => .program
  | .items => .noItems
  | .item => .statementItem
  | .importRest => .bareImport
  | .importClause => .defaultClause
  | .importMore => .noImportMore
  | .importGroup => .namedGroup
  | .specifier => .specifier
  | .asName => .noAsName
  | .function => .plainFunction
  | .functionRest => .functionRest
  | .functionNamed => .anonymousFunction
  | .signature => .signature
  | .parameters => .noParameters
  | .moreParameters => .noMoreParameters
  | .block => .block
  | .statements => .noStatements
  | .statement => .breaks
  | .ifStatement => .ifStatement
  | .alternative => .noAlternative
  | .elseBody => .elseBlock
  | .moreDeclarators => .noMoreDeclarators
  | .declarator => .declarator
  | .initializer => .noInitializer
  | .cases => .noCases
  | .case => .defaultCase
  | .optionalExpression => .noExpression
  | .optionalLabel => .noLabel
  | .pattern => .namePattern
  | .propertyPattern => .namedPropertyPattern
  | .propertyPatternRest => .shorthandPattern
  | .binary l => .binary l
  | .binaryRest l => .noMoreOperands l
  | .unary => .operand
  | .accesses => .noAccesses
  | .arguments => .noArguments
  | .moreArguments => .noMoreArguments
  | .primary => .atom .name
  | .property => .plainProperty
  | .propertyKey => .nameKey
  | .propertyRest => .valueProperty
  | .series s => .noMembers s
  | .seriesRest s => .noMoreMembers s

/-- How far it is to the end of a category along `Nonterminal.least`. -/
def Nonterminal.height : Nonterminal → Nat
  | .unary => 2
  | .binary .multiplicative => 3
  | .binary .additive => 4
  | .binary .relational => 5
  | .binary .equality => 6
  | .binary .and => 7
  | .binary .or => 8
  | .ifStatement | .propertyRest => 9
  | .property => 10
  | .block | .statement | .program | .importClause | .importGroup | .specifier | .declarator
  | .case | .propertyPattern => 2
  | .item | .elseBody | .signature => 3
  | .functionNamed => 4
  | .functionRest => 5
  | .function => 6
  | _ => 1

/-- How far it is to the end of a symbol. -/
def Symbol.height : Symbol → Nat
  | .tok _ _ => 0
  | .sub n => n.height

theorem Nonterminal.height_least (n : Nonterminal) :
    n.least.parts.all (fun s => s.height < n.height) = true := by
  cases n
  case binary l => cases l <;> rfl
  case binaryRest l => cases l <;> rfl
  case series s => cases s <;> rfl
  case seriesRest s => cases s <;> rfl
  all_goals rfl

/-! ### Derivations -/

/-- The tokens are written as their terminals demand. -/
def AllSpelled (tokens : List Token) : Prop := ∀ t ∈ tokens, t.word.IsSpelled

/-- Symbols that each have a derivation have one in a row. -/
theorem exists_forest_of_trees {ss : List Symbol}
    (h : ∀ s ∈ ss, ∃ tree : Tree s, AllSpelled tree.tokens) :
    ∃ forest : Forest ss, AllSpelled forest.tokens := by
  induction ss with
  | nil => exact ⟨.nil, fun t ht => absurd ht List.not_mem_nil⟩
  | cons s rest ih =>
    obtain ⟨tree, htree⟩ := h s List.mem_cons_self
    obtain ⟨more, hmore⟩ := ih fun u hu => h u (List.mem_cons_of_mem s hu)
    refine ⟨.cons tree more, ?_⟩
    intro t ht
    rw [Forest.tokens, List.mem_append] at ht
    rcases ht with ht | ht
    · exact htree t ht
    · exact hmore t ht

/-- **Every symbol has a derivation.** -/
theorem exists_tree (s : Symbol) : ∃ tree : Tree s, AllSpelled tree.tokens := by
  -- the parts of the least production are closer to their end
  induction hheight : s.height using Nat.strong_induction_on generalizing s with
  | h height ih =>
    cases s with
    | tok t place =>
      refine ⟨.leaf (t.sample.token default) t.terminal_sample, ?_⟩
      intro token htoken
      obtain rfl := List.mem_singleton.mp htoken
      exact t.isSpelled_sample
    | sub n =>
      have hparts : ∀ s ∈ n.least.parts, ∃ tree : Tree s, AllSpelled tree.tokens := by
        intro s hs
        have hless : s.height < n.height := by simpa using List.all_eq_true.mp n.height_least s hs
        exact ih s.height (hheight ▸ hless) s rfl
      obtain ⟨children, hchildren⟩ := exists_forest_of_trees hparts
      exact ⟨.node n.least children, hchildren⟩

/-- **What is pending can be completed.** -/
theorem exists_forest (ss : List Symbol) : ∃ forest : Forest ss, AllSpelled forest.tokens :=
  exists_forest_of_trees fun s _ => exists_tree s

end RhoScript.Source
