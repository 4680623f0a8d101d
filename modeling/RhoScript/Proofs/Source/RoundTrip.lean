import RhoScript.Proofs.Source.Unparse

/-!
# Reading undoes writing

The words of a node that the productions of a category build derive that node from that category
(`Built.prints`): by induction, one case per production.

Main statement: the source text of a program is read as that program, apart from locations and from the
texts of literals (`readProgram_unparse`).
-/

namespace RhoScript.Source

open Node

/-! ### Lists -/

theorem wordsEach_eq (ns : List Node) : wordsEach ns = ns.map words := by
  induction ns with
  | nil => rfl
  | cons n rest ih => rw [wordsEach, ih, List.map_cons]

theorem wordsElements_map_some (ns : List Node) : wordsElements (ns.map some) = ns.map words := by
  induction ns with
  | nil => rfl
  | cons n rest ih =>
    rw [List.map_cons, wordsElements, ih, wordsOption, List.nil_append, List.map_cons]

/-- What derives lists, member by member, derives the words of all members in a row. -/
theorem derives_row {P : Node → Prop} {Q : List Word → List Node → Prop} {f : Node → List Word}
    (hnil : Q [] []) (hcons : ∀ {n us ns}, P n → Q us ns → Q (f n ++ us) (n :: ns)) {ns : List Node}
    (h : ∀ m ∈ ns, P m) : Q (ns.flatMap f) ns := by
  induction ns with
  | nil => exact hnil
  | cons n rest ih =>
    obtain ⟨hn, hrest⟩ := List.forall_mem_cons.mp h
    exact hcons hn (ih hrest)

theorem derives_items {ns : List Node} (h : ∀ m ∈ ns, Derives (.sub .item) (words m) m) :
    Derives (.sub .items) (wordsEach ns).flatten ns := by
  rw [wordsEach_eq]
  exact derives_row (Q := fun us ns => Derives (.sub .items) us ns) (.node .noItems .nil)
    (fun hn hrest => .node .moreItems (.cons hn (.last hrest))) h

theorem derives_statements {ns : List Node} (h : ∀ m ∈ ns, Derives (.sub .statement) (words m) m) :
    Derives (.sub .statements) (wordsEach ns).flatten ns := by
  rw [wordsEach_eq]
  exact derives_row (Q := fun us ns => Derives (.sub .statements) us ns) (.node .noStatements .nil)
    (fun hn hrest => .node .moreStatements (.cons hn (.last hrest))) h

theorem derives_cases {ns : List Node} (h : ∀ m ∈ ns, Derives (.sub .case) (words m) m) :
    Derives (.sub .cases) (wordsEach ns).flatten ns := by
  rw [wordsEach_eq]
  exact derives_row (Q := fun us ns => Derives (.sub .cases) us ns) (.node .noCases .nil)
    (fun hn hrest => .node .moreCases (.cons hn (.last hrest))) h

/-- With commas, the words of all members but the first are in a row. -/
theorem commas_map_cons (f : Node → List Word) (n : Node) (ns : List Node) :
    commas ((n :: ns).map f) = f n ++ ns.flatMap fun m => .mark .comma :: f m := by
  rw [List.map_cons, commas, List.flatMap_map]

/-- What derives a list from its first member and a row of further ones derives the words of all
members with commas between them. -/
theorem derives_commas {P : Node → Prop} {Q R : List Word → List Node → Prop} {f : Node → List Word}
    (hempty : Q [] []) (hfirst : ∀ {n us ns}, P n → R us ns → Q (f n ++ us) (n :: ns)) (hnil : R [] [])
    (hcons : ∀ {n us ns}, P n → R us ns → R (.mark .comma :: (f n ++ us)) (n :: ns)) {ns : List Node}
    (h : ∀ m ∈ ns, P m) : Q (commas (ns.map f)) ns := by
  cases ns with
  | nil => exact hempty
  | cons n ns =>
    obtain ⟨hn, hns⟩ := List.forall_mem_cons.mp h
    rw [commas_map_cons]
    exact hfirst hn (derives_row hnil hcons hns)

theorem derives_parameters {ns : List Node} (h : ∀ m ∈ ns, Derives (.sub .pattern) (words m) m) :
    Derives (.sub .parameters) (commas (wordsEach ns)) ns := by
  rw [wordsEach_eq]
  exact derives_commas (Q := fun us ns => Derives (.sub .parameters) us ns)
    (R := fun us ns => Derives (.sub .moreParameters) us ns) (.node .noParameters .nil)
    (fun hn hrest => .node .parameters (.cons hn (.last hrest))) (.node .noMoreParameters .nil)
    (fun hn hrest => .node .moreParameters (.mark rfl (.cons hn (.last hrest)))) h

theorem derives_arguments {ns : List Node} (h : ∀ m ∈ ns, Derives (.sub .expression) (words m) m) :
    Derives (.sub .arguments) (commas (wordsEach ns)) ns := by
  rw [wordsEach_eq]
  exact derives_commas (Q := fun us ns => Derives (.sub .arguments) us ns)
    (R := fun us ns => Derives (.sub .moreArguments) us ns) (.node .noArguments .nil)
    (fun hn hrest => .node .arguments (.cons hn (.last hrest))) (.node .noMoreArguments .nil)
    (fun hn hrest => .node .moreArguments (.mark rfl (.cons hn (.last hrest)))) h

theorem derives_moreDeclarators {ns : List Node}
    (h : ∀ m ∈ ns, Derives (.sub .declarator) (words m) m) :
    Derives (.sub .moreDeclarators) (ns.flatMap fun m => .mark .comma :: words m) ns :=
  derives_row (Q := fun us ns => Derives (.sub .moreDeclarators) us ns) (.node .noMoreDeclarators .nil)
    (fun hn hrest => .node .moreDeclarators (.mark rfl (.cons hn (.last hrest)))) h

/-- A node as a member of a list in brackets. -/
def memberNode : (s : Series) → Node → CategoryMeaning (.memberOf s)
  | .specifiers, n | .propertyPatterns, n | .patterns, n | .properties, n | .elements, n => n

theorem memberMeaning_memberNode (s : Series) (n : Node) :
    combine.memberMeaning s (memberNode s n) = n := by
  cases s <;> rfl

theorem derives_members {s : Series} {ws us : List Word} {n : Node} {ns : List Node}
    (hn : Derives (.sub (.memberOf s)) ws (memberNode s n))
    (hrest : Derives (.sub (.seriesRest s)) us ns) :
    Derives (.sub (.series s)) (ws ++ us) (n :: ns) := by
  refine .make (.members s) (.cons hn (.last hrest)) ?_
  exact bareAll_cons (congrArg bare (memberMeaning_memberNode s n)) rfl

theorem derives_series (s : Series) {f : Node → List Word} {ns : List Node}
    (h : ∀ m ∈ ns, Derives (.sub (.memberOf s)) (f m) (memberNode s m)) :
    Derives (.sub (.series s)) (commas (ns.map f)) ns :=
  derives_commas (Q := fun us ns => Derives (.sub (.series s)) us ns)
    (R := fun us ns => Derives (.sub (.seriesRest s)) us ns) (.node (.noMembers s) .nil)
    derives_members (.node (.noMoreMembers s) .nil)
    (fun hn hrest => .node (.moreMembers s) (.mark rfl (.last (derives_members hn hrest)))) h

/-! ### Names and functions -/

theorem derives_signature {params : List Node} {body : Node}
    (hparams : ∀ m ∈ params, Derives (.sub .pattern) (words m) m)
    (hbody : Derives (.sub .block) (words body) body) :
    Derives (.sub .signature)
      (.mark .parenOpen :: (commas (wordsEach params) ++ .mark .parenClose :: words body))
      { params := params, body := body } :=
  .node .signature (.mark rfl (.cons (derives_parameters hparams) (.mark rfl (.last hbody))))

theorem derives_function {id : Option Node} {params : List Node} {body : Node} (isAsync : Bool)
    (hid : ∀ m ∈ id, Named m) (hparams : ∀ m ∈ params, Derives (.sub .pattern) (words m) m)
    (hbody : Derives (.sub .block) (words body) body) :
    Derives (.sub .function)
      (asyncWords isAsync ++ .mark .functionWord :: (wordsOption [] id ++
        .mark .parenOpen :: (commas (wordsEach params) ++ .mark .parenClose :: words body)))
      ⟨isAsync, id, params, body⟩ := by
  have hsignature := derives_signature hparams hbody
  generalize Word.mark .parenOpen :: (commas (wordsEach params) ++ .mark .parenClose :: words body) = us
    at hsignature
  have hnamed : Derives (.sub .functionNamed) (wordsOption [] id ++ us) ⟨false, id, params, body⟩ := by
    cases id with
    | none => exact .node .anonymousFunction (.last hsignature)
    | some name =>
      obtain ⟨loc, x, rfl, hx⟩ := hid name rfl
      exact .make .namedFunction (.word (.name hx) (.last hsignature)) rfl
  have hrest : Derives (.sub .functionRest) (.mark .functionWord :: (wordsOption [] id ++ us))
      ⟨false, id, params, body⟩ := .node .functionRest (.mark rfl (.last hnamed))
  cases isAsync with
  | false => exact .node .plainFunction (.last hrest)
  | true => exact .node .asyncFunction (.mark rfl (.last hrest))

/-! ### Imports -/

theorem derives_specifier {n : Node} (h : IsSpecifier n) :
    Derives (.sub .specifier) (specifierWords n) n := by
  obtain ⟨loc, _, _, rfl, ⟨bloc, x, rfl, hx⟩, iloc, y, rfl, hy⟩ := h
  rw [specifierWords]
  split
  · rename_i heq
    subst heq
    exact .make .specifier (.word (.name hy) (.last (.node .noAsName .nil))) rfl
  · have hasName : Derives (.sub .asName) [.mark .asWord, ⟨.name, x⟩] (some (.identifier none x)) :=
      .make .asName (.mark rfl (.last (.word (.name hx) _))) rfl
    exact .make .specifier (.word (.name hy) (.last hasName)) rfl

theorem derives_group {ns : List Node} (h : IsGroup ns) :
    Derives (.sub .importGroup) (groupWords ns) ns := by
  cases h with
  | @all loc binding h =>
    obtain ⟨bloc, x, rfl, hx⟩ := h
    exact .make .namespaceGroup
      (.mark rfl (.mark rfl (.last (.word (.name hx) _)))) rfl
  | named h =>
    have hseries := derives_series .specifiers fun m hm => derives_specifier (h m hm)
    have hgroup : groupWords ns =
        .mark .braceOpen :: (commas (ns.map specifierWords) ++ [.mark .braceClose]) := by
      unfold groupWords
      split
      · obtain ⟨_, _, _, heq, -⟩ := h _ List.mem_cons_self
        cases heq
      · rfl
    rw [hgroup]
    exact .node .namedGroup (.mark rfl (.cons hseries (.mark rfl .nil)))

theorem isSpelled_string (s : String) : (literalWord (some (.string s))).IsSpelled := by
  rw [literalWord, stringLiteral_ofString]
  exact .string s

theorem literal_string (s : String) (loc : Loc) (raw : Option String) :
    (literalWord (some (.string s))).leaf.literal.bare =
      (Node.literal loc (some (.string s)) raw).bare := by
  rw [literalWord, stringLiteral_ofString, Leaf.literal, Word.leaf, Word.value_string]
  rfl

theorem literal_number {n : Nat} (h : IsShort n) (loc : Loc) (raw : Option String) :
    (Word.leaf ⟨.number, Ground.digitsText n⟩).literal.bare =
      (Node.literal loc (some (.int n)) raw).bare := by
  rw [Leaf.literal, Word.leaf, Word.value_number h]
  rfl

theorem derives_importClause {ns : List Node} (h : IsImport ns) (hne : ns ≠ []) :
    ∃ ws, importWords ns = ws ++ [.mark .fromWord] ∧ Derives (.sub .importClause) ws ns := by
  cases h with
  | group h =>
    refine ⟨groupWords ns, ?_, .node .groupClause (.last (derives_group h))⟩
    unfold importWords
    split
    · exact absurd rfl hne
    · cases h with
      | named h =>
        obtain ⟨_, _, _, heq, -⟩ := h _ List.mem_cons_self
        cases heq
    · cases h with
      | named h =>
        obtain ⟨_, _, _, heq, -⟩ := h _ List.mem_cons_self
        cases heq
    · rfl
  | @default loc binding more hname hmore =>
    obtain ⟨bloc, x, rfl, hx⟩ := hname
    cases more with
    | nil =>
      refine ⟨[⟨.name, x⟩], rfl, ?_⟩
      exact .make .defaultClause (.word (.name hx) (.last (.node .noImportMore .nil))) rfl
    | cons m more =>
      refine ⟨⟨.name, x⟩ :: .mark .comma :: groupWords (m :: more), rfl, ?_⟩
      have hgroup : Derives (.sub .importMore) (.mark .comma :: groupWords (m :: more)) (m :: more) :=
        .node .importMore (.mark rfl (.last (derives_group hmore)))
      exact .make .defaultClause (.word (.name hx) (.last hgroup)) rfl

theorem derives_importRest {ns : List Node} (h : IsImport ns) (s : String) :
    Derives (.sub .importRest)
      (importWords ns ++ [literalWord (some (.string s)), .mark .semicolon])
      (ns, .literal none (some (.string s)) none) := by
  by_cases hne : ns = []
  · subst hne
    refine .make .bareImport (.word (isSpelled_string s) (.mark rfl .nil)) ?_
    exact congrArg (Prod.mk (bareAll [])) (literal_string s none none)
  · obtain ⟨ws, hws, hclause⟩ := derives_importClause h hne
    rw [hws, List.append_assoc]
    refine .make .boundImport
      (.cons hclause (.mark rfl (.word (isSpelled_string s) (.mark rfl .nil)))) ?_
    exact congrArg (Prod.mk (bareAll ns)) (literal_string s none none)

/-! ### Expressions by rank -/

/-- The rank of the operators of a level. -/
def Level.rank : Level → Nat
  | .or => 0
  | .and => 1
  | .equality => 2
  | .relational => 3
  | .additive => 4
  | .multiplicative => 5

/-- The words derive an expression where the rank is needed. -/
def Binds : Nat → List Word → Node → Prop
  | 0, ws, n => Leading .or ws n
  | 1, ws, n => Leading .and ws n
  | 2, ws, n => Leading .equality ws n
  | 3, ws, n => Leading .relational ws n
  | 4, ws, n => Leading .additive ws n
  | 5, ws, n => Leading .multiplicative ws n
  | 6, ws, n => Derives (.sub .unary) ws n
  | 7, ws, n => Accessible ws n
  | _, ws, n => Derives (.sub .primary) ws n

namespace Binds

variable {ws : List Word} {n : Node} {j k : Nat}

theorem lower : (k : Nat) → Binds (k + 1) ws n → Binds k ws n
  | 0, h => Leading.of_operand (l := .or) (Leading.derives h)
  | 1, h => Leading.of_operand (l := .and) (Leading.derives h)
  | 2, h => Leading.of_operand (l := .equality) (Leading.derives h)
  | 3, h => Leading.of_operand (l := .relational) (Leading.derives h)
  | 4, h => Leading.of_operand (l := .additive) (Leading.derives h)
  | 5, h => Leading.of_operand (l := .multiplicative) h
  | 6, h => Accessible.derives h
  | 7, h => Accessible.of_primary h
  | _ + 8, h => h

/-- An expression can stand where a lower rank is needed. -/
theorem of_le (hle : j ≤ k) (h : Binds k ws n) : Binds j ws n := by
  induction hle with
  | refl => exact h
  | step _ ih => exact ih (lower _ h)

theorem derives (h : Binds k ws n) : Derives (.sub .expression) ws n :=
  Leading.derives (of_le (Nat.zero_le k) h)

/-- In parentheses an expression can stand anywhere. -/
theorem parenthesized (h : Binds k ws n) (j : Nat) :
    Binds j (.mark .parenOpen :: (ws ++ [.mark .parenClose])) n := by
  have hprimary : ∀ j, Binds (j + 8) (.mark .parenOpen :: (ws ++ [.mark .parenClose])) n := fun _ =>
    .node .parentheses (.mark rfl (.cons h.derives (.mark rfl .nil)))
  exact of_le (Nat.le_add_right j 8) (hprimary j)

/-- An expression is derived at each place, in parentheses if it binds too weakly. -/
theorem atRank (h : Binds j ws n) (k : Nat) : Binds k (atRank k j ws) n := by
  unfold Source.atRank
  split
  · exact h.parenthesized k
  · rename_i hle
    exact h.of_le (Nat.le_of_not_lt hle)

end Binds

theorem binds_rank {l : Level} {ws : List Word} {n : Node} :
    Binds l.rank ws n ↔ Leading l ws n := by
  cases l <;> exact Iff.rfl

theorem Binds.operand {l : Level} {ws : List Word} {n : Node} (h : Binds (l.rank + 1) ws n) :
    Derives (.sub (.operandOf l)) ws (operandNode l n) := by
  cases l
  case multiplicative => exact h
  all_goals exact Leading.derives h

theorem operatorRank_spelling {l : Level} (o : Operator l) :
    operatorRank o.terminal.spelling = l.rank := by
  cases o <;> rfl

theorem ofSpelling_spelling {t : Terminal} (h : t.spelling?.isSome = true) :
    Word.ofSpelling t.spelling = .mark t := by
  obtain ⟨s, hs⟩ := Option.isSome_iff_exists.mp h
  rw [Word.ofSpelling, Word.mark, Terminal.spelling, hs, Option.getD_some, Terminal.ofSpelling?_eq hs]
  rfl

theorem binds_binary {l : Level} (o : Operator l) (loc : Loc) {a b : Node}
    (ha : Binds (rank a) (words a) a) (hb : Binds (rank b) (words b) b) :
    Binds (rank (binaryNode l loc o.terminal.spelling a b))
      (words (binaryNode l loc o.terminal.spelling a b))
      (binaryNode l loc o.terminal.spelling a b) := by
  have hspelled : o.terminal.spelling?.isSome = true := by cases o <;> rfl
  have hrank : rank (binaryNode l loc o.terminal.spelling a b) = l.rank := by
    rw [← operatorRank_spelling o]
    cases l <;> rfl
  have hwords : words (binaryNode l loc o.terminal.spelling a b) =
      Source.atRank l.rank (rank a) (words a) ++ .mark o.terminal ::
        Source.atRank (l.rank + 1) (rank b) (words b) := by
    rw [← operatorRank_spelling o, ← ofSpelling_spelling hspelled]
    cases l <;> rfl
  rw [hrank, hwords, binds_rank]
  exact Leading.join (binds_rank.mp (ha.atRank l.rank)) o loc (hb.atRank (l.rank + 1)).operand

theorem binds_unary (o : Unary) (loc : Loc) {a : Node} (ha : Binds (rank a) (words a) a) :
    Binds (rank (unaryNode o loc o.terminal.spelling a))
      (words (unaryNode o loc o.terminal.spelling a))
      (unaryNode o loc o.terminal.spelling a) := by
  have hunary := fun ht => Derives.node (.unary o) (.mark ht (.last (ha.atRank 6)))
  cases o <;> exact (hunary rfl).congr rfl

/-! ### One case per production -/

/-- The words of a node derive it from a category, and an expression at its rank. -/
def Prints : Nonterminal → Node → Prop
  | .program, n => Derives (.sub .program) (words n) n
  | .item, n => Derives (.sub .item) (words n) n
  | .block, n => Derives (.sub .block) (words n) n
  | .statement, n => Derives (.sub .statement) (words n) n
  | .ifStatement, n => Derives (.sub .ifStatement) (words n) n
  | .elseBody, n => Derives (.sub .elseBody) (words n) n
  | .declarator, n => Derives (.sub .declarator) (words n) n
  | .case, n => Derives (.sub .case) (words n) n
  | .pattern, n => Derives (.sub .pattern) (words n) n
  | .propertyPattern, n => Derives (.sub .propertyPattern) (words n) n
  | .property, n => Derives (.sub .property) (words n) n
  | .propertyKey, n => Derives (.sub .propertyKey) (words n) n
  | .binary .or, n => Binds (rank n) (words n) n
  | _, _ => True

theorem derives_optional {o : Option Node} (h : ∀ m ∈ o, Prints .expression m) :
    Derives (.sub .optionalExpression) (wordsOption [] o) o := by
  cases o with
  | none => exact .node .noExpression .nil
  | some n => exact .node .someExpression (.last (h n rfl).derives)

/-- The words of a property that is a method. -/
theorem derives_method {loc floc : Loc} {key body : Node} {params : List Node} {isAsync : Bool}
    (hkey : Prints .propertyKey key) (hparams : ∀ m ∈ params, Prints .pattern m)
    (hbody : Prints .block body) :
    Derives (.sub .property) (methodWords (words key) (.functionExpression floc none params body isAsync))
      (.property loc key (.functionExpression floc none params body isAsync) "init" true false false) := by
  have hsignature := derives_signature hparams hbody
  have hrest : Derives (.sub .propertyRest) _ (.method { params := params, body := body }) :=
    .node .methodProperty (.last hsignature)
  rw [methodWords]
  cases isAsync with
  | false =>
    rw [asyncWords, if_neg nofun, List.nil_append]
    exact .make .plainProperty (.cons hkey (.last hrest)) rfl
  | true =>
    rw [asyncWords, if_pos rfl, List.singleton_append]
    exact .make .asyncMethod (.mark rfl (.cons hkey (.last hsignature))) rfl

theorem derives_declaration (d : Declaring) (loc : Loc) {first : Node} {more : List Node}
    (hfirst : Prints .declarator first) (hmore : ∀ m ∈ more, Prints .declarator m) :
    Derives (.sub .statement)
      (words (.variableDeclaration loc (first :: more) d.terminal.spelling))
      (.variableDeclaration loc (first :: more) d.terminal.spelling) := by
  have hspelled : d.terminal.spelling?.isSome = true := by cases d <;> rfl
  rw [words, ofSpelling_spelling hspelled, wordsEach_eq, commas_map_cons, List.append_assoc]
  exact .make (.declaration d) (.mark hspelled (.cons hfirst
    (.cons (derives_moreDeclarators hmore) (.mark rfl .nil)))) rfl

theorem derives_atom (a : Atom) {w : Word} {n : Node} (hw : w.IsSpelled)
    (ha : w.terminal = a.terminal) (hn : (atomNode a w.leaf).bare = n.bare) :
    Derives (.sub .primary) [w] n := by
  obtain ⟨t, text⟩ := w
  subst ha
  exact .make (.atom a) (.word hw .nil) hn

/-- **The words of a node derive it.** -/
theorem Built.prints {c : Nonterminal} {n : Node} (h : Built c n) : Prints c n := by
  induction h with
  | program _ ih => exact .make .program (.last (derives_items ih)) rfl
  | importItem h =>
    exact .make .importItem (.mark rfl (.last (derives_importRest h _))) rfl
  | exportItem hid _ _ hparams hbody =>
    exact .make .exportItem (.mark rfl (.mark rfl (.last (derives_function _ hid hparams hbody)))) rfl
  | statementItem _ ih => exact .node .statementItem (.last ih)
  | block _ ih => exact .make .block (.mark rfl (.cons (derives_statements ih) (.mark rfl .nil))) rfl
  | declaration d _ _ hfirst hmore => exact derives_declaration d _ hfirst hmore
  | @declarator _ _ init _ _ hid hinit =>
    have hinitializer : Derives (.sub .initializer) (wordsOption [.mark .assign] init) init := by
      cases init with
      | none => exact .node .noInitializer .nil
      | some e => exact .node .initializer (.mark rfl (.last (hinit e rfl).derives))
    exact .make .declarator (.cons hid (.last hinitializer)) rfl
  | conditional _ ih => exact .node .conditional (.last ih)
  | @ifStatement _ _ _ alternate _ _ _ htest hconsequent halternate =>
    have hmore : Derives (.sub .alternative) (wordsOption [.mark .elseWord] alternate) alternate := by
      cases alternate with
      | none => exact .node .noAlternative .nil
      | some e => exact .node .alternative (.mark rfl (.last (halternate e rfl)))
    exact .make .ifStatement (.mark rfl (.mark rfl (.cons htest.derives (.mark rfl
      (.cons hconsequent (.last hmore)))))) rfl
  | elseBlock _ ih => exact .node .elseBlock (.last ih)
  | elseIf _ ih => exact .node .elseIf (.last ih)
  | switch _ _ hdiscriminant hcases =>
    exact .make .switch (.mark rfl (.mark rfl (.cons hdiscriminant.derives (.mark rfl (.mark rfl
      (.cons (derives_cases hcases) (.mark rfl .nil))))))) rfl
  | @case _ test _ _ _ htest hbody =>
    have hstatements := derives_statements hbody
    cases test with
    | none => exact .make .defaultCase (.mark rfl (.mark rfl (.last hstatements))) rfl
    | some e =>
      exact .make .testCase (.mark rfl (.cons (htest e rfl).derives (.mark rfl (.last hstatements)))) rfl
  | returns _ ih =>
    exact .make .returns (.mark rfl (.cons (derives_optional ih) (.mark rfl .nil))) rfl
  | @breaks _ label h =>
    have hlabel : Derives (.sub .optionalLabel) (wordsOption [] label) label := by
      cases label with
      | none => exact .node .noLabel .nil
      | some n =>
        obtain ⟨loc, x, rfl, hx⟩ := h n rfl
        exact .make .label (.word (.name hx) .nil) rfl
    exact .make .breaks (.mark rfl (.cons hlabel (.mark rfl .nil))) rfl
  | throws _ ih => exact .make .throws (.mark rfl (.cons ih.derives (.mark rfl .nil))) rfl
  | expression _ ih => exact .make .expression (.cons ih.derives (.mark rfl .nil)) rfl
  | namePattern h =>
    obtain ⟨loc, x, rfl, hx⟩ := h
    exact .make .namePattern (.word (.name hx) .nil) rfl
  | objectPattern _ ih =>
    have hseries := derives_series .propertyPatterns (f := words) ih
    rw [← wordsEach_eq] at hseries
    exact .make .objectPattern (.mark rfl (.cons hseries (.mark rfl .nil))) rfl
  | @arrayPattern _ elements _ ih =>
    have hseries := derives_series .patterns (f := words) ih
    rw [← wordsElements_map_some] at hseries
    exact .make .arrayPattern (.mark rfl (.cons hseries (.mark rfl .nil))) rfl
  | shorthandPattern hx =>
    exact .make .namedPropertyPattern (.word (.name hx) (.last (.node .shorthandPattern .nil))) rfl
  | renamedPattern hkey _ _ hvalue =>
    cases hkey with
    | nameKey h =>
      obtain ⟨loc, x, rfl, hx⟩ := h
      have hrest : Derives (.sub .propertyPatternRest) _ (some _) :=
        .node .renamedPattern (.mark rfl (.last hvalue))
      exact .make .namedPropertyPattern (.word (.name hx) (.last hrest)) rfl
    | stringKey =>
      exact .make .stringPropertyPattern (.word (isSpelled_string _) (.mark rfl (.last hvalue)))
        (propertyNode_same none none (literal_string _ none none) rfl false)
    | numberKey h =>
      exact .make .numberPropertyPattern (.word (.number h) (.mark rfl (.last hvalue)))
        (propertyNode_same none none (literal_number h none none) rfl false)
  | nameKey h =>
    obtain ⟨loc, x, rfl, hx⟩ := h
    exact .make .nameKey (.word (.name hx) .nil) rfl
  | stringKey =>
    exact .make .stringKey (.word (isSpelled_string _) .nil) (literal_string _ none none)
  | numberKey h =>
    exact .make .numberKey (.word (.number h) .nil) (literal_number h none none)
  | valueProperty _ _ hkey hvalue =>
    have hrest : Derives (.sub .propertyRest) _ (.value _) :=
      .node .valueProperty (.mark rfl (.last hvalue.derives))
    exact .make .plainProperty (.cons hkey (.last hrest)) rfl
  | methodProperty _ _ _ hkey hparams hbody => exact derives_method hkey hparams hbody
  | @binary l loc left right o _ _ hleft hright => exact binds_binary o loc hleft hright
  | @unary loc argument o _ ih => exact binds_unary o loc ih
  | member _ hx hobject => exact Accessible.member (hobject.atRank 7) hx _ _
  | call _ _ hcallee harguments =>
    exact Accessible.call (hcallee.atRank 7) (derives_arguments fun m hm => (harguments m hm).derives) _
  | name h =>
    obtain ⟨loc, x, rfl, hx⟩ := h
    exact derives_atom .name (.name hx) rfl rfl
  | string =>
    exact derives_atom .string (isSpelled_string _) rfl (literal_string _ none none)
  | number h =>
    exact derives_atom .number (.number h) rfl (literal_number h none none)
  | @boolean _ b _ =>
    cases b with
    | false => exact derives_atom .false (Word.isSpelled_mark rfl) rfl rfl
    | true => exact derives_atom .true (Word.isSpelled_mark rfl) rfl rfl
  | null => exact derives_atom .null (Word.isSpelled_mark rfl) rfl rfl
  | this => exact derives_atom .this (Word.isSpelled_mark rfl) rfl rfl
  | object _ ih =>
    have hseries := derives_series .properties (f := words) ih
    rw [← wordsEach_eq] at hseries
    exact .make .object (.mark rfl (.cons hseries (.mark rfl .nil))) rfl
  | array _ ih =>
    have hseries := derives_series .elements (f := words) fun m hm => (ih m hm).derives
    rw [← wordsElements_map_some] at hseries
    exact .make .array (.mark rfl (.cons hseries (.mark rfl .nil))) rfl
  | function hid _ _ hparams hbody =>
    exact .make .functionExpression (.last (derives_function _ hid hparams hbody)) rfl

/-- **Reading undoes writing**: the source text of a program that the productions build is read as that
program, apart from locations and from the texts of literals. -/
theorem readProgram_unparse {n : Node} (h : Built .program n) :
    ∃ m, readProgram (unparse n) = .ok m ∧ m.bare = n.bare :=
  readProgram_textOf h.prints

/-- The expression `(x || y) && (await there).then(x - (12 - -y))`. -/
def guardedCall : Node :=
  .logicalExpression none "&&"
    (.logicalExpression none "||" (.identifier none "x") (.identifier none "y"))
    (.callExpression none (.memberExpression none
      (.awaitExpression none (.identifier none "there")) (.identifier none "then") false)
      [.binaryExpression none "-" (.identifier none "x")
        (.binaryExpression none "-" (.literal none (some (.int 12)) none)
          (.unaryExpression none "-" (.identifier none "y") true))])

/-- A pattern for the field `x` and for the only element at `7`. -/
def fields : Node :=
  .objectPattern none [propertyNode none (.identifier none "x") (.identifier none "x") true,
    propertyNode none (.literal none (some (.int 7)) none)
      (.arrayPattern none [some (.identifier none "y")]) false]

/-- An object with one asynchronous method, which returns if `z` is false. -/
def runner : Node :=
  .objectExpression none [.property none (.identifier none "run")
    (.functionExpression none none [.identifier none "z"] (.blockStatement none
      [.ifStatement none (.identifier none "z") (.blockStatement none []) (some
        (.blockStatement none [.returnStatement none none]))]) true) "init" true false false]

/-- A program with operands that need parentheses, a name under another one and an asynchronous method. -/
def bracketed : Node :=
  .program none [
    .importDeclaration none [.importDefaultSpecifier none (.identifier none "E"),
      .importSpecifier none (.identifier none "there") (.identifier none "here")]
      (.literal none (some (.string "a\"b\n")) none),
    .variableDeclaration none [.variableDeclarator none fields (some guardedCall)] "const",
    .expressionStatement none runner]

theorem named_identifier {x : String} (h : IsIdentifier x) : Named (.identifier none x) :=
  ⟨none, x, rfl, h⟩

theorem built_guardedCall : Built .expression guardedCall := by
  have hx : Built .expression (.identifier none "x") := .name (named_identifier (by decide +kernel))
  have hy : Built .expression (.identifier none "y") := .name (named_identifier (by decide +kernel))
  have hthere : Built .expression (.identifier none "there") :=
    .name (named_identifier (by decide +kernel))
  have hdifference : Built .expression (.binaryExpression none "-" (.identifier none "x")
      (.binaryExpression none "-" (.literal none (some (.int 12)) none)
        (.unaryExpression none "-" (.identifier none "y") true))) :=
    .binary .minus hx (.binary .minus (.number (by decide +kernel)) (.unary .negate hy))
  exact .binary .and (.binary .or hx hy) (.call (.member (.unary .await hthere) (by decide +kernel))
    (List.forall_mem_singleton.mpr hdifference))

theorem built_fields : Built .pattern fields := by
  have hy : Built .pattern (.identifier none "y") :=
    .namePattern (named_identifier (by decide +kernel))
  have helement : Built .pattern (.arrayPattern none [some (.identifier none "y")]) :=
    @Built.arrayPattern none [_] (List.forall_mem_singleton.mpr hy)
  exact .objectPattern (List.forall_mem_cons.mpr ⟨.shorthandPattern (by decide +kernel),
    List.forall_mem_singleton.mpr (.renamedPattern (.numberKey (by decide +kernel)) helement)⟩)

theorem built_runner : Built .expression runner := by
  have hz : Named (.identifier none "z") := named_identifier (by decide +kernel)
  have hreturn : Built .elseBody (.blockStatement none [.returnStatement none none]) :=
    .elseBlock (.block (List.forall_mem_singleton.mpr (.returns nofun)))
  have hif : Built .ifStatement (.ifStatement none (.identifier none "z") (.blockStatement none [])
      (some (.blockStatement none [.returnStatement none none]))) :=
    .ifStatement (.name hz) (.block nofun) fun _ hm => Option.mem_some.mp hm ▸ hreturn
  exact .object (List.forall_mem_singleton.mpr (.methodProperty
    (.nameKey (named_identifier (by decide +kernel)))
    (List.forall_mem_singleton.mpr (.namePattern hz))
    (.block (List.forall_mem_singleton.mpr (.conditional hif)))))

theorem built_bracketed : Built .program bracketed := by
  have himport : IsImport [.importDefaultSpecifier none (.identifier none "E"),
      .importSpecifier none (.identifier none "there") (.identifier none "here")] :=
    .default (named_identifier (by decide +kernel)) (.named (List.forall_mem_singleton.mpr
      ⟨none, _, _, rfl, named_identifier (by decide +kernel), named_identifier (by decide +kernel)⟩))
  have hdeclarator : Built .declarator (.variableDeclarator none fields (some guardedCall)) :=
    .declarator built_fields fun _ hm => Option.mem_some.mp hm ▸ built_guardedCall
  exact .program (List.forall_mem_cons.mpr ⟨.importItem himport, List.forall_mem_cons.mpr
    ⟨.statementItem (.declaration .constant hdeclarator nofun), List.forall_mem_singleton.mpr
      (.statementItem (.expression built_runner))⟩⟩)

/-- What reading gives for this program. -/
theorem readProgram_bracketed : Built .program bracketed ∧
    unparse bracketed = "import E , \x7b here as there \x7d from \"a\\\"b\\n\" ; " ++
      "const \x7b x , 7 : [ y ] \x7d = ( x || y ) && ( await there ) . then ( x - ( 12 - - y ) ) ; " ++
      "\x7b async run ( z ) \x7b if ( z ) \x7b \x7d else \x7b return ; \x7d \x7d \x7d ; " ∧
    ∃ m, readProgram (unparse bracketed) = .ok m ∧ m.bare = bracketed.bare :=
  ⟨built_bracketed, by decide +kernel, readProgram_unparse built_bracketed⟩

end RhoScript.Source
