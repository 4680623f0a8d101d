import RhoScript.Proofs.Source.Scanning
import RhoScript.Proofs.Source.Steps

/-!
# One token decides

The parser sees one token ahead. That it finds every derivation rests on two tables: the terminals that a
category begins with, and those that can follow it. The grammar is consistent with them: the next terminal
decides between the productions of a category, and a place accepts all that can stand there. Both are
checked production by production.

Main statements: in every derivation, a token is accepted at the place after the one before it
(`Tree.linked`), and the derivation of a source is found if and only if its tokens are scanned from the
source (`parseProgram_eq_ok_iff`). So the parser loses no derivation, and no source has two.
-/

namespace RhoScript.Source

/-! ### First and next terminals -/

/-- The terminals of the operators of a level. -/
def Level.operators : Level → List Terminal
  | .or => [.orOr]
  | .and => [.andAnd]
  | .equality => [.equal, .notEqual, .strictEqual, .strictNotEqual]
  | .relational => [.less, .lessEqual, .greater, .greaterEqual]
  | .additive => [.plus, .minus]
  | .multiplicative => [.star, .percent]

/-- The weaker levels. -/
def Level.weaker : Level → List Level
  | .or => []
  | .and => [.or]
  | .equality => [.or, .and]
  | .relational => [.or, .and, .equality]
  | .additive => [.or, .and, .equality, .relational]
  | .multiplicative => [.or, .and, .equality, .relational, .additive]

/-- The bracket that ends a list. -/
def Series.close : Series → Terminal
  | .specifiers | .propertyPatterns | .properties => .braceClose
  | .patterns | .elements => .bracketClose

/-- The terminals that a member of a list begins with. -/
def Series.firsts : Series → List Terminal
  | .specifiers => [.name]
  | .propertyPatterns => [.name, .string, .number]
  | .patterns => Place.pattern.accepts
  | .properties => [.name, .string, .number, .asyncWord]
  | .elements => Place.operandStarts

namespace Nonterminal

/-- The terminals that a category begins with. -/
def firsts : Nonterminal → List Terminal
  | .program | .items | .item => Place.item.accepts
  | .importRest => Place.importStart.accepts
  | .importClause => [.name, .star, .braceOpen]
  | .importGroup => Place.importGroup.accepts
  | .specifier | .optionalLabel => [.name]
  | .asName => [.asWord]
  | .function => Place.exported.accepts
  | .functionRest => [.functionWord]
  | .functionNamed => Place.functionName.accepts
  | .signature => [.parenOpen]
  | .parameters | .declarator | .pattern => Place.pattern.accepts
  | .block => [.braceOpen]
  | .statements | .statement => Place.statementStarts
  | .ifStatement => [.ifWord]
  | .alternative => [.elseWord]
  | .elseBody => Place.elseStart.accepts
  | .initializer => [.assign]
  | .cases | .case => [.caseWord, .defaultWord]
  | .propertyPattern | .propertyKey => Place.propertyKey.accepts
  | .propertyPatternRest => [.colon]
  | .optionalExpression | .binary _ | .unary | .arguments => Place.operandStarts
  | .binaryRest l => l.operators
  | .accesses => [.dot, .parenOpen]
  | .primary => Place.operandStarts.filter (· ∉ [.awaitWord, .bang, .minus])
  | .property => Series.properties.firsts
  | .propertyRest => Place.propertyKeyEnd.accepts
  | .series s => s.firsts
  | .importMore | .moreParameters | .moreDeclarators | .moreArguments | .seriesRest _ => [.comma]

/-- The marks that an expression ends at. -/
def expressionEnds : List Terminal :=
  [.parenClose, .bracketClose, .braceClose, .comma, .colon, .semicolon]

/-- What can follow a category: a terminal, or the end of the source. -/
def follows : Nonterminal → List (Option Terminal)
  | .program | .items => [none]
  | .item | .importRest => none :: Place.item.accepts.map some
  | .importClause | .importMore | .importGroup => [some .fromWord]
  | .function | .functionRest | .functionNamed | .signature | .block =>
    none :: Place.blockEnd.accepts.map some
  | .parameters | .moreParameters | .arguments | .moreArguments => [some .parenClose]
  | .statements => Place.switchBody.accepts.map some
  | .statement | .ifStatement | .alternative | .elseBody =>
    none :: Place.statementEnd.accepts.map some
  | .moreDeclarators | .optionalExpression | .optionalLabel => [some .semicolon]
  | .declarator | .initializer => [some .comma, some .semicolon]
  | .cases => [some .braceClose]
  | .case => Place.switchBody.accepts.map some
  | .pattern => Place.patternEnd.accepts.map some
  | .specifier | .asName | .propertyPattern | .propertyPatternRest | .property | .propertyRest =>
    [some .comma, some .braceClose]
  | .binary l | .binaryRest l => (expressionEnds ++ l.weaker.flatMap Level.operators).map some
  | .unary | .accesses =>
    (expressionEnds ++ (.multiplicative :: Level.multiplicative.weaker).flatMap Level.operators).map some
  | .primary => Place.operandFollows.map some
  | .propertyKey => Place.propertyKeyEnd.accepts.map some
  | .series s => [some s.close]
  | .seriesRest s => [some s.close]

end Nonterminal

namespace Symbol

/-- The terminals that a symbol begins with. -/
def firsts : Symbol → List Terminal
  | .tok t _ => [t]
  | .sub n => n.firsts

/-- A terminal, or the end of the source, can stand after the symbol. The end can be read anywhere. -/
def allows : Symbol → Option Terminal → Bool
  | .tok _ place, x => x.all (· ∈ place.accepts)
  | .sub n, x => x ∈ n.follows

end Symbol

/-- What can come next if symbols are pending, and one of `after` comes after them. -/
def nexts (after : List (Option Terminal)) : List Symbol → List (Option Terminal)
  | [] => after
  | s :: rest => s.firsts.map some ++ if s.nullable then nexts after rest else []

/-- Each of the symbols allows what can come next, if one of `after` comes after them all. -/
def closes (after : List (Option Terminal)) : List Symbol → Bool
  | [] => true
  | s :: rest => (nexts after rest).all s.allows && closes after rest

/-! ### The grammar is consistent -/

namespace Production

/-- A production begins as its category does. -/
theorem firsts_parts {n : Nonterminal} (p : Production n) :
    (nexts [] p.parts).all (· ∈ n.firsts.map some) = true := by
  cases p
  case declaration d => cases d <;> rfl
  case binary l => cases l <;> rfl
  case moreOperands l o => cases o <;> rfl
  case unary o => cases o <;> rfl
  case atom a => cases a <;> rfl
  case members s => cases s <;> rfl
  all_goals rfl

/-- Within a production every symbol allows what can come next. -/
theorem closes_parts {n : Nonterminal} (p : Production n) : closes n.follows p.parts = true := by
  cases p
  case declaration d => cases d <;> rfl
  case binary l => cases l <;> rfl
  case moreOperands l o => cases o <;> rfl
  case unary o => cases o <;> rfl
  case atom a => cases a <;> rfl
  case members s => cases s <;> rfl
  case moreMembers s => cases s <;> rfl
  all_goals rfl

/-- The next terminal chooses the production. -/
theorem predict_parts {n : Nonterminal} (p : Production n) :
    (nexts n.follows p.parts).map (predict n) = (nexts n.follows p.parts).map fun _ => some p := by
  cases p
  case declaration d => cases d <;> rfl
  case binary l => cases l <;> rfl
  case noMoreOperands l => cases l <;> rfl
  case moreOperands l o => cases o <;> rfl
  case unary o => cases o <;> rfl
  case atom a => cases a <;> rfl
  case noMembers s => cases s <;> rfl
  case members s => cases s <;> rfl
  case noMoreMembers s => cases s <;> rfl
  all_goals rfl

end Production

/-! ### What comes next in a derivation -/

theorem mem_nexts_cases {x : Option Terminal} {after : List (Option Terminal)} {ss : List Symbol}
    (h : x ∈ nexts after ss) : x ∈ nexts [] ss ∨ allNullable ss = true ∧ x ∈ after := by
  induction ss with
  | nil => exact .inr ⟨rfl, h⟩
  | cons s rest ih =>
    rw [nexts, List.mem_append] at h ⊢
    rw [allNullable, List.all_cons]
    obtain h | h := h
    · exact .inl (.inl h)
    · split at h
      · rename_i hs
        rw [hs, Bool.true_and, if_pos rfl]
        exact (ih h).imp_left .inr
      · cases h

/-- What can come next at the parts of a production can come next at its category. -/
theorem Production.nexts_parts {n : Nonterminal} (p : Production n) {x : Option Terminal}
    {after : List (Option Terminal)} (h : x ∈ nexts after p.parts) : x ∈ nexts after [.sub n] := by
  rw [nexts, List.mem_append]
  obtain h | ⟨hnull, h⟩ := mem_nexts_cases h
  · exact .inl (of_decide_eq_true (List.all_eq_true.mp p.firsts_parts x h))
  · rw [Symbol.nullable, p.nullable_of_allNullable hnull, if_pos rfl]
    exact .inr h

/-- The terminal of the first of some tokens. -/
def nextOf (ls : List (Token × Place)) : Option Terminal := ls.head?.map (·.1.terminal)

mutual

/-- A derivation begins as its symbol does, or has no tokens. -/
theorem Tree.nextOf_mem {s : Symbol} (tree : Tree s) {ls : List (Token × Place)}
    {after : List (Option Terminal)} (h : nextOf ls ∈ after) :
    nextOf (tree.leaves ++ ls) ∈ nexts after [s] := by
  cases tree with
  | leaf token belongs =>
    cases belongs
    exact List.mem_append_left _ List.mem_cons_self
  | node p children => exact p.nexts_parts (children.nextOf_mem h)
termination_by structural tree

theorem Forest.nextOf_mem {ss : List Symbol} (forest : Forest ss) {ls : List (Token × Place)}
    {after : List (Option Terminal)} (h : nextOf ls ∈ after) :
    nextOf (forest.leaves ++ ls) ∈ nexts after ss := by
  cases forest with
  | nil => exact h
  | @cons s rest tree more =>
    have hnext : nextOf (tree.leaves ++ (more.leaves ++ ls)) ∈ nexts (nexts after rest) [s] :=
      tree.nextOf_mem (more.nextOf_mem h)
    rw [Forest.leaves, List.append_assoc]
    exact hnext
termination_by structural forest

end

/-- Each token but the first is accepted at the place after the one before it. -/
def Linked : List (Token × Place) → Prop
  | [] => True
  | (_, place) :: rest => (∀ t ∈ nextOf rest, t ∈ place.accepts) ∧ Linked rest

mutual

/-- **Tokens stand where they are accepted**: in a derivation, and before what its symbol allows next. -/
theorem Tree.linked {s : Symbol} (tree : Tree s) {ls : List (Token × Place)} (hls : Linked ls)
    (hnext : s.allows (nextOf ls) = true) : Linked (tree.leaves ++ ls) := by
  cases tree with
  | leaf token belongs =>
    refine ⟨fun t (ht : nextOf ls = some t) => ?_, hls⟩
    rw [ht] at hnext
    exact of_decide_eq_true hnext
  | node p children => exact children.linked hls p.closes_parts (of_decide_eq_true hnext)
termination_by structural tree

theorem Forest.linked {ss : List Symbol} (forest : Forest ss) {ls : List (Token × Place)}
    {after : List (Option Terminal)} (hls : Linked ls) (hcloses : closes after ss = true)
    (hnext : nextOf ls ∈ after) : Linked (forest.leaves ++ ls) := by
  cases forest with
  | nil => exact hls
  | cons tree more =>
    rw [closes, Bool.and_eq_true, List.all_eq_true] at hcloses
    rw [Forest.leaves, List.append_assoc]
    exact tree.linked (more.linked hls hcloses.2 hnext) (hcloses.1 _ (more.nextOf_mem hnext))
termination_by structural forest

end

/-- A program begins with a token that an item begins with. -/
theorem Tree.starts_program (tree : Tree (.sub .program)) :
    ∀ t ∈ nextOf tree.leaves, t ∈ Place.item.accepts := by
  intro t ht
  have hnext : nextOf (tree.leaves ++ []) ∈ nexts [none] [.sub .program] :=
    tree.nextOf_mem (List.mem_singleton.mpr rfl)
  rw [List.append_nil, Option.mem_def.mp ht] at hnext
  simpa [nexts, Symbol.firsts, Nonterminal.firsts, Symbol.nullable, Nonterminal.nullable] using hnext

/-- All tokens of a program stand where they are accepted. -/
theorem Tree.linked_program (tree : Tree (.sub .program)) : Linked tree.leaves := by
  rw [← List.append_nil tree.leaves]
  exact tree.linked trivial rfl

/-! ### Every derivation is found -/

theorem Production.predict_eq {n : Nonterminal} (p : Production n) {x : Option Terminal}
    (h : x ∈ nexts n.follows p.parts) : predict n x = some p :=
  List.map_inj_left.mp p.predict_parts x h

theorem Scans.terminal_eq {ls : List (Token × Place)} {ahead : Option Token} {cursor : Cursor}
    (h : Scans ls ahead cursor) : ahead.map (·.terminal) = nextOf ls := by
  cases h <;> rfl

mutual

/-- The parser passes over the tokens of a derivation and puts it in the place of its symbol, whatever is
pending after it. -/
theorem Tree.parse_eq {s : Symbol} (tree : Tree s) {ls : List (Token × Place)} {ahead : Option Token}
    {cursor : Cursor} (hscans : Scans (tree.leaves ++ ls) ahead cursor)
    (hnext : s.allows (nextOf ls) = true) (last : Position) :
    ∃ ahead' cursor' last', Scans ls ahead' cursor' ∧
      ∀ (α : Type) (rest : List Symbol) (build : Forest (s :: rest) → α),
        parse (s :: rest) build ahead cursor last =
          parse rest (fun more => build (.cons tree more)) ahead' cursor' last' := by
  cases tree with
  | leaf token belongs =>
    cases hscans with
    | next hread hrest => exact ⟨_, _, _, hrest, fun α rest build => parse_leaf build belongs hread⟩
  | node p children =>
    have hfollows := of_decide_eq_true hnext
    obtain ⟨ahead', cursor', last', hrest, hparse⟩ :=
      children.parse_eq hscans p.closes_parts hfollows last
    refine ⟨ahead', cursor', last', hrest, fun α rest build => ?_⟩
    rw [parse_node build (p.predict_eq (hscans.terminal_eq ▸ children.nextOf_mem hfollows)), hparse]
    simp only [Forest.split_append]
termination_by structural tree

theorem Forest.parse_eq {ss : List Symbol} (forest : Forest ss) {ls : List (Token × Place)}
    {after : List (Option Terminal)} {ahead : Option Token} {cursor : Cursor}
    (hscans : Scans (forest.leaves ++ ls) ahead cursor) (hcloses : closes after ss = true)
    (hnext : nextOf ls ∈ after) (last : Position) :
    ∃ ahead' cursor' last', Scans ls ahead' cursor' ∧
      ∀ (α : Type) (rest : List Symbol) (build : Forest (ss ++ rest) → α),
        parse (ss ++ rest) build ahead cursor last =
          parse rest (fun more => build (forest.append more)) ahead' cursor' last' := by
  cases forest with
  | nil => exact ⟨ahead, cursor, last, hscans, fun α rest build => rfl⟩
  | cons tree more =>
    rw [closes, Bool.and_eq_true, List.all_eq_true] at hcloses
    rw [Forest.leaves, List.append_assoc] at hscans
    obtain ⟨ahead', cursor', last', hmore, htree⟩ :=
      tree.parse_eq hscans (hcloses.1 _ (more.nextOf_mem hnext)) last
    obtain ⟨ahead'', cursor'', last'', hrest, hparse⟩ :=
      more.parse_eq hmore hcloses.2 hnext last'
    exact ⟨ahead'', cursor'', last'', hrest, fun α rest build =>
      (htree α _ build).trans (hparse α rest _)⟩
termination_by structural forest

end

/-- **The parser finds the derivation of a source**: it is the one whose tokens are scanned from the
source. -/
theorem parseProgram_eq_ok_iff {source : String} {tree : Tree (.sub .program)} :
    parseProgram source = .ok tree ↔ ∃ ahead cursor,
      read .item (.start source) = .ok (ahead, cursor) ∧ Scans tree.leaves ahead cursor := by
  refine ⟨exists_scans_of_parseProgram, ?_⟩
  rintro ⟨ahead, cursor, hread, hscans⟩
  rw [← List.append_nil tree.leaves] at hscans
  obtain ⟨ahead', cursor', last', hdone, hparse⟩ := tree.parse_eq hscans rfl ⟨1, 0⟩
  cases hdone with
  | done =>
    unfold parseProgram
    rw [hread]
    exact (hparse _ [] _).trans (parse_nil _)

end RhoScript.Source
