import RhoScript.Lowering.Expression
import RhoScript.Proofs.Source.Derivations
import RhoScript.Proofs.Source.Faithful
import RhoScript.Proofs.Source.Formation

/-!
# Which words can be names

A word is read as a keyword only at places that accept the keyword, and as a name at all other places that
accept names. So whether a keyword can be a name depends on the places where names of its role are read.
Names of bindings, functions and imports are read where no keyword is accepted. A name that stands as an
expression is read where all keywords are accepted that an expression can begin with
(`Tree.atoms_offered`), and nothing but these words is kept out of it.

Main statement: the words that occur as names in a role, in some source that is read, are exactly the names
that are none of the keywords of that role (`exists_name_iff`).
-/

namespace RhoScript

open Lowering (name?)

/-! ### Roles -/

/-- What an identifier is there for. -/
inductive Role where
  | expression
  /-- A pattern that is bound, or a parameter. -/
  | binding
  | functionName
  /-- The local name of an import. -/
  | importLocal
deriving DecidableEq, Repr, Inhabited

/-- The keywords that are no names in a role: for expressions those that an operand can begin with. -/
def Role.keywords : Role → List String
  | .expression => ["function", "async", "await", "true", "false", "null", "this"]
  | .binding | .functionName | .importLocal => []

namespace Node

/-- The value of a property. -/
def propertyValue? : Node → Option Node
  | .property _ _ value _ _ _ _ => some value
  | _ => none

/-- The nodes that a node has as expressions. The value of a property belongs to the object around it, since
in a pattern it is no expression. -/
def expressions : Node → List Node
  | .variableDeclarator _ _ init => init.toList
  | .expressionStatement _ expression => [expression]
  | .ifStatement _ test _ _ => [test]
  | .switchStatement _ discriminant _ => [discriminant]
  | .switchCase _ test _ => test.toList
  | .returnStatement _ argument => argument.toList
  | .throwStatement _ argument | .awaitExpression _ argument
  | .unaryExpression _ _ argument _ => [argument]
  | .callExpression _ callee arguments => callee :: arguments
  | .memberExpression _ object member computed => object :: if computed then [member] else []
  | .binaryExpression _ _ left right | .logicalExpression _ _ left right => [left, right]
  | .objectExpression _ properties => properties.filterMap propertyValue?
  | .property _ key _ _ _ _ computed => if computed then [key] else []
  | .arrayExpression _ elements => elements.filterMap id
  | _ => []

/-- The nodes that a node binds. -/
def bindings : Node → List Node
  | .functionDeclaration _ _ params _ _ | .functionExpression _ _ params _ _ => params
  | .variableDeclarator _ id _ => [id]
  | .objectPattern _ properties => properties.filterMap propertyValue?
  | .arrayPattern _ elements => elements.filterMap id
  | _ => []

/-- The nodes of a node that stand in a role. -/
def inRole (n : Node) : Role → List Node
  | .expression => n.expressions
  | .binding => n.bindings
  | .functionName => match n with
    | .functionDeclaration _ id _ _ _ | .functionExpression _ id _ _ _ => id.toList
    | _ => []
  | .importLocal => match n with
    | .importDefaultSpecifier _ binding | .importSpecifier _ binding _
    | .importNamespaceSpecifier _ binding => [binding]
    | _ => []

/-- The names of the identifiers that stand in a role anywhere in a tree. -/
def namesAs (role : Role) (n : Node) : List String :=
  n.nodes.flatMap fun m => (m.inRole role).filterMap name?

theorem mem_namesAs {role : Role} {n : Node} {x : String} :
    x ∈ n.namesAs role ↔ ∃ m ∈ n.nodes, ∃ e ∈ m.inRole role, name? e = some x := by
  simp [namesAs]

/-- What stands in a role of a node is one of its children, or a child of these. -/
theorem inRole_subset (n : Node) (role : Role) :
    n.inRole role ⊆ n.children ++ n.children.flatMap children := by
  have hvalues (properties : List Node) :
      properties.filterMap propertyValue? ⊆ properties.flatMap children := by
    intro v hv
    obtain ⟨p, hp, hv⟩ := List.mem_filterMap.mp hv
    refine List.mem_flatMap.mpr ⟨p, hp, ?_⟩
    cases p <;> cases hv
    exact List.mem_cons_of_mem _ List.mem_cons_self
  cases role with
  | expression =>
    cases n
    case objectExpression => exact List.subset_append_of_subset_right _ (hvalues _)
    all_goals refine List.subset_append_of_subset_left _ ?_
    case memberExpression computed => cases computed <;> simp [inRole, expressions, children]
    case property computed => cases computed <;> simp [inRole, expressions, children]
    all_goals simp [inRole, expressions, children]
  | binding =>
    cases n
    case objectPattern => exact List.subset_append_of_subset_right _ (hvalues _)
    all_goals refine List.subset_append_of_subset_left _ ?_
    all_goals simp [inRole, bindings, children]
  | functionName =>
    refine List.subset_append_of_subset_left _ ?_
    cases n <;> simp [inRole, children]
  | importLocal =>
    refine List.subset_append_of_subset_left _ ?_
    cases n <;> simp [inRole, children]

theorem mem_nodes_of_mem_inRole {n e : Node} {role : Role} (h : e ∈ n.inRole role) : e ∈ n.nodes := by
  have hself {m : Node} : m ∈ m.nodes := mem_nodes.mpr (.inl rfl)
  obtain hchild | hchild := List.mem_append.mp (inRole_subset n role h)
  · exact mem_nodes.mpr (.inr ⟨e, hchild, hself⟩)
  · obtain ⟨p, hp, he⟩ := List.mem_flatMap.mp hchild
    exact mem_nodes.mpr (.inr ⟨p, hp, mem_nodes.mpr (.inr ⟨e, he, hself⟩)⟩)

end Node

namespace Source

open Node

/-! ### Words at a place -/

/-- The word is a name where it is read at the place. -/
structure IsNameAt (place : Place) (x : String) : Prop where
  accepted : .name ∈ place.accepts
  text : IsNameText x.toList
  word : ∀ t ∈ place.accepts, t.spelling? ≠ some x

/-- A token that is a name has the text of a name at the place where it is read. -/
theorem isNameAt_of_read {place : Place} {c c' : Cursor} {token : Token}
    (h : read place c = .ok (some token, c')) (hname : token.terminal = .name) :
    IsNameAt place token.text := by
  obtain ⟨n, -, hlexeme, htext, -⟩ := read_eq_ok_some h
  rw [hname] at hlexeme
  have hisName : IsNameText token.text.toList := by
    rw [htext, String.toList_ofList]
    exact .of_lexeme? hlexeme
  unfold lexeme? at hlexeme
  split at hlexeme
  · cases hlexeme
  split at hlexeme
  · cases hlexeme
  split at hlexeme
  · rename_i hnames
    obtain ⟨hword, rfl⟩ := Prod.mk.inj (Option.some.inj hlexeme)
    refine ⟨hnames.1, hisName, fun t ht hspelling => ?_⟩
    rw [htext] at hspelling
    have hfound := wordTerminal_spelling ht hspelling
    rw [String.toList_ofList, hword] at hfound
    rw [← hfound] at hspelling
    cases hspelling
  · exact absurd rfl (spelling?_of_longest? hlexeme)

/-- All tokens that are scanned have been read, each at its place. -/
theorem Scans.exists_read {ls : List (Token × Place)} {ahead : Option Token} {cursor : Cursor}
    (h : Scans ls ahead cursor) {place : Place} {c : Cursor} (hread : read place c = .ok (ahead, cursor)) :
    ∀ x ∈ readAt place ls, ∃ c c', read x.1 c = .ok (some x.2, c') := by
  induction h generalizing place c with
  | done => exact List.forall_mem_nil _
  | next hnext _ ih => exact List.forall_mem_cons.mpr ⟨⟨c, _, hread⟩, ih hnext⟩

/-! ### What places offer -/

/-- The terminals that are offered before a symbol. Before a primary expression these are all that an
operand can begin with, since an operator may come first. -/
def Symbol.offered : Symbol → List Terminal
  | .sub .primary => Place.operandStarts
  | s => s.firsts

/-- The terminals that are offered before pending symbols, if `after` are offered after them. -/
def offered (after : List Terminal) : List Symbol → List Terminal
  | [] => after
  | s :: rest => s.offered ++ if s.nullable then offered after rest else []

/-- Each of the symbols allows what is offered after it, if `after` are offered after them all. -/
def offers (after : List Terminal) : List Symbol → Bool
  | [] => true
  | s :: rest => (offered after rest).all (fun t => s.allows (some t)) && offers after rest

namespace Production

/-- What is offered before the parts of a production is offered before its category. -/
theorem offered_parts {n : Nonterminal} (p : Production n) :
    (offered [] p.parts).all (· ∈ (Symbol.sub n).offered) = true := by
  cases p
  case declaration d => cases d <;> rfl
  case binary l => cases l <;> rfl
  case moreOperands l o => cases o <;> rfl
  case unary o => cases o <;> rfl
  case atom a => cases a <;> rfl
  case members s => cases s <;> rfl
  all_goals rfl

/-- Within a production every symbol allows what is offered after it. -/
theorem offers_parts {n : Nonterminal} (p : Production n) :
    offers (n.follows.filterMap id) p.parts = true := by
  cases p
  case declaration d => cases d <;> rfl
  case binary l => cases l <;> rfl
  case moreOperands l o => cases o <;> rfl
  case unary o => cases o <;> rfl
  case atom a => cases a <;> rfl
  case members s => cases s <;> rfl
  case moreMembers s => cases s <;> rfl
  all_goals rfl

end Production

theorem mem_offered_cases {t : Terminal} {after : List Terminal} {ss : List Symbol}
    (h : t ∈ offered after ss) : t ∈ offered [] ss ∨ allNullable ss = true ∧ t ∈ after := by
  induction ss with
  | nil => exact .inr ⟨rfl, h⟩
  | cons s rest ih =>
    rw [offered, List.mem_append] at h ⊢
    rw [allNullable, List.all_cons]
    obtain h | h := h
    · exact .inl (.inl h)
    · split at h
      · rename_i hs
        rw [hs, Bool.true_and, if_pos rfl]
        exact (ih h).imp_left .inr
      · cases h

theorem Production.mem_offered {n : Nonterminal} (p : Production n) {t : Terminal}
    {after : List Terminal} (h : t ∈ offered after p.parts) : t ∈ offered after [.sub n] := by
  rw [offered, List.mem_append]
  obtain h | ⟨hnull, h⟩ := mem_offered_cases h
  · exact .inl (of_decide_eq_true (List.all_eq_true.mp p.offered_parts t h))
  · rw [Symbol.nullable, p.nullable_of_allNullable hnull, if_pos rfl]
    exact .inr h

theorem offered_mono {after after' : List Terminal} (h : after ⊆ after') (ss : List Symbol) :
    offered after ss ⊆ offered after' ss := by
  intro t ht
  induction ss with
  | nil => exact h ht
  | cons s rest ih =>
    rw [offered, List.mem_append] at ht ⊢
    refine ht.imp_right fun ht => ?_
    split at ht
    · rename_i hs
      rw [if_pos hs]
      exact ih ht
    · cases ht

theorem offers_anti {after after' : List Terminal} (h : after ⊆ after') {ss : List Symbol}
    (hoffers : offers after' ss = true) : offers after ss = true := by
  induction ss with
  | nil => rfl
  | cons s rest ih =>
    rw [offers, Bool.and_eq_true, List.all_eq_true] at hoffers ⊢
    exact ⟨fun t ht => hoffers.1 t (offered_mono h rest ht), ih hoffers.2⟩

/-- The place after some tokens, if they begin at a place. -/
def placeAfter (place : Place) (ls : List (Token × Place)) : Place := ls.foldl (fun _ l => l.2) place

theorem placeAfter_append (place : Place) (ls ms : List (Token × Place)) :
    placeAfter place (ls ++ ms) = placeAfter (placeAfter place ls) ms :=
  List.foldl_append

theorem readAt_append (place : Place) (ls ms : List (Token × Place)) :
    readAt place (ls ++ ms) = readAt place ls ++ readAt (placeAfter place ls) ms := by
  induction ls generalizing place with
  | nil => rfl
  | cons l rest ih => exact congrArg ((place, l.1) :: ·) (ih l.2)

/-- The token is a name among those that are read, at a place where every terminal is accepted that an
operand can begin with. -/
def ReadAsOperand (reads : List (Place × Token)) (token : Token) : Prop :=
  token.terminal = .name ∧
    ∃ place, (place, token) ∈ reads ∧ ∀ t ∈ Place.operandStarts, t ∈ place.accepts

theorem ReadAsOperand.mono {reads reads' : List (Place × Token)} {token : Token}
    (h : ReadAsOperand reads token) (hsub : reads ⊆ reads') : ReadAsOperand reads' token := by
  obtain ⟨hname, place, hmem, hstarts⟩ := h
  exact ⟨hname, place, hsub hmem, hstarts⟩

theorem Production.atoms_readAsOperand {n : Nonterminal} (p : Production n) (children : Forest p.parts)
    {place : Place} {after : List Terminal} (hplace : ∀ t ∈ offered after [.sub n], t ∈ place.accepts) :
    ∀ token ∈ p.atoms children.tokens, ReadAsOperand (readAt place children.leaves) token := by
  cases p
  case atom a =>
    cases a
    case name =>
      obtain _ | ⟨⟨token, belongs⟩, _ | _⟩ := children
      refine List.forall_mem_singleton.mpr ⟨belongs, place, List.mem_cons_self, fun t ht => ?_⟩
      exact hplace t (List.mem_append_left _ ht)
    all_goals exact List.forall_mem_nil _
  all_goals exact List.forall_mem_nil _

mutual

/-- **Names that stand as expressions are read where operands begin**: if a place accepts what is offered
before a symbol, then in each derivation from it these names are read at such places, and the place after
the derivation accepts what is offered there. -/
theorem Tree.atoms_offered {s : Symbol} (tree : Tree s) {place : Place} {after : List Terminal}
    (hplace : ∀ t ∈ offered after [s], t ∈ place.accepts)
    (hafter : ∀ t ∈ after, s.allows (some t) = true) :
    (∀ token ∈ tree.atoms, ReadAsOperand (readAt place tree.leaves) token) ∧
      ∀ t ∈ after, t ∈ (placeAfter place tree.leaves).accepts := by
  cases tree with
  | leaf token belongs =>
    exact ⟨List.forall_mem_nil _, fun t ht => of_decide_eq_true (hafter t ht)⟩
  | @node n p children =>
    have hfollows : after ⊆ n.follows.filterMap id := fun t ht =>
      List.mem_filterMap.mpr ⟨some t, of_decide_eq_true (hafter t ht), rfl⟩
    obtain ⟨hatoms, hlast⟩ := children.atoms_offered (fun t ht => hplace t (p.mem_offered ht))
      (offers_anti hfollows p.offers_parts)
    refine ⟨List.forall_mem_append.mpr ⟨?_, hatoms⟩, hlast⟩
    exact p.atoms_readAsOperand children hplace
termination_by structural tree

theorem Forest.atoms_offered {ss : List Symbol} (forest : Forest ss) {place : Place}
    {after : List Terminal} (hplace : ∀ t ∈ offered after ss, t ∈ place.accepts)
    (hoffers : offers after ss = true) :
    (∀ token ∈ forest.atoms, ReadAsOperand (readAt place forest.leaves) token) ∧
      ∀ t ∈ after, t ∈ (placeAfter place forest.leaves).accepts := by
  cases forest with
  | nil => exact ⟨List.forall_mem_nil _, hplace⟩
  | @cons s rest tree more =>
    rw [offers, Bool.and_eq_true, List.all_eq_true] at hoffers
    have hfirst : ∀ t ∈ offered (offered after rest) [s], t ∈ place.accepts := hplace
    obtain ⟨hatoms, hnext⟩ := tree.atoms_offered hfirst hoffers.1
    obtain ⟨hatoms', hlast⟩ := more.atoms_offered hnext hoffers.2
    rw [Forest.leaves, readAt_append, placeAfter_append]
    refine ⟨List.forall_mem_append.mpr ⟨fun token htoken => ?_, fun token htoken => ?_⟩, hlast⟩
    · exact (hatoms token htoken).mono (List.subset_append_left _ _)
    · exact (hatoms' token htoken).mono (List.subset_append_right _ _)
termination_by structural forest

end

/-- The names that stand as expressions in a source are names where operands begin. -/
theorem isNameAt_of_mem_atoms {source : String} {tree : Tree (.sub .program)}
    (h : parseProgram source = .ok tree) {token : Token} (htoken : token ∈ tree.atoms) :
    ∃ place, IsNameAt place token.text ∧ ∀ t ∈ Place.operandStarts, t ∈ place.accepts := by
  obtain ⟨ahead, cursor, hread, hscans⟩ := exists_scans_of_parseProgram h
  have hitem : ∀ t ∈ offered [] [.sub .program], t ∈ Place.item.accepts := by
    have hall : (offered [] [.sub .program]).all (· ∈ Place.item.accepts) = true := rfl
    simpa using hall
  obtain ⟨hatoms, -⟩ := tree.atoms_offered hitem (List.forall_mem_nil _)
  obtain ⟨hname, place, hmem, hstarts⟩ := hatoms token htoken
  obtain ⟨c, c', hplace⟩ := hscans.exists_read hread _ hmem
  exact ⟨place, isNameAt_of_read hplace hname, hstarts⟩

/-! ### Names that stand as expressions -/

section Formed

variable {N : String → Prop} {c : Nonterminal} {n : Node}

theorem Formed.name_of_expression (h : Formed N .expression n) {x : String} (hx : name? n = some x) :
    N x := by
  cases h
  case name h =>
    cases hx
    exact h
  case binary l _ _ _ _ _ _ => cases l <;> cases hx
  case unary o _ _ _ _ => cases o <;> cases hx
  all_goals cases hx

theorem Formed.value_of_property (h : Formed N .property n) :
    ∀ v ∈ n.propertyValue?, Formed N .expression v := by
  cases h with
  | property _ hvalue => exact forall_mem_some hvalue

/-- What stands as an expression is formed as one. -/
theorem Formed.expressions (h : Formed N c n) : ∀ e ∈ n.expressions, Formed N .expression e := by
  induction h with
  | statementItem _ ih | conditional _ ih | elseBlock _ ih | elseIf _ ih => exact ih
  | declarator _ hinit => exact forall_mem_toList hinit
  | ifStatement htest => exact List.forall_mem_singleton.mpr htest
  | switch hdiscriminant => exact List.forall_mem_singleton.mpr hdiscriminant
  | case htest => exact forall_mem_toList htest
  | returns h => exact forall_mem_toList h
  | throws h => exact List.forall_mem_singleton.mpr h
  | expression h => exact List.forall_mem_singleton.mpr h
  | @binary l _ _ _ _ hleft hright => cases l <;> exact forall_mem_pair hleft hright
  | @unary o _ _ _ h => cases o <;> exact List.forall_mem_singleton.mpr h
  | member hobject => exact List.forall_mem_singleton.mpr hobject
  | call hcallee harguments => exact List.forall_mem_cons.mpr ⟨hcallee, harguments⟩
  | object h =>
    intro v hv
    obtain ⟨p, hp, hv⟩ := List.mem_filterMap.mp hv
    exact (h p hp).value_of_property v hv
  | array h => exact forall_mem_elements h
  | _ => exact List.forall_mem_nil _

/-- A name that stands as an expression in a source is that of a token that does. -/
theorem exists_token_of_mem_namesAs {source : String} {program : Node} {x : String}
    (h : readProgram source = .ok program) (hx : x ∈ program.namesAs .expression) :
    ∃ tree, parseProgram source = .ok tree ∧ ∃ token ∈ tree.atoms, token.text = x := by
  obtain ⟨tree, v, hparse, hvalue, rfl⟩ := exists_tree_of_readProgram h
  have hformed : Formed (fun x => ∃ token ∈ tree.atoms, token.text = x) .program v.meaning :=
    tree.value_forms hvalue fun token htoken => ⟨token, htoken, rfl⟩
  obtain ⟨m, hm, e, he, hname⟩ := mem_namesAs.mp hx
  have hexpressions := hformed.everywhere (fun m hm => ?_) Formed.expressions m hm e he
  · exact ⟨tree, hparse, hexpressions.name_of_expression hname⟩
  · cases m
    case identifier | literal | thisExpression => exact List.forall_mem_nil _
    all_goals cases hm

end Formed

/-! ### Keywords -/

theorem isNameText_of_mem_namesAs {source : String} {program : Node} {role : Role} {x : String}
    (h : readProgram source = .ok program) (hx : x ∈ program.namesAs role) : IsNameText x.toList := by
  obtain ⟨m, hm, e, he, hname⟩ := mem_namesAs.mp hx
  have hnames := isNameText_of_readProgram h e (mem_nodes_trans (mem_nodes_of_mem_inRole he) hm)
  cases e
  case identifier loc y =>
    cases hname
    exact hnames loc _ rfl
  all_goals cases hname

theorem not_mem_keywords_of_mem_namesAs {source : String} {program : Node} {role : Role} {x : String}
    (h : readProgram source = .ok program) (hx : x ∈ program.namesAs role) : x ∉ role.keywords := by
  cases role with
  | expression =>
    intro hkeyword
    obtain ⟨tree, hparse, token, htoken, rfl⟩ := exists_token_of_mem_namesAs h hx
    obtain ⟨place, hname, hstarts⟩ := isNameAt_of_mem_atoms hparse htoken
    have hspelled : Role.expression.keywords.all
        (fun k => Place.operandStarts.any (·.spelling? = some k)) = true := by decide
    have hstart := List.all_eq_true.mp hspelled _ hkeyword
    obtain ⟨t, ht, hspelling⟩ := List.any_eq_true.mp hstart
    exact hname.word t (hstarts t ht) (of_decide_eq_true hspelling)
  | binding | functionName | importLocal => exact List.not_mem_nil

end Source

/-! ### Specimens -/

namespace Role

open Source

/-- A place where names of the role are read. -/
def place : Role → Place
  | .expression => .operandOr .semicolon
  | .binding => .pattern
  | .functionName => .functionName
  | .importLocal => .importStart

/-- The words of a source with a name in the role. -/
def words (x : String) : Role → List Word
  | .expression => [.mark .returnWord, ⟨.name, x⟩, .mark .semicolon]
  | .binding => [.mark .letWord, ⟨.name, x⟩, .mark .semicolon]
  | .functionName =>
    [.mark .exportWord, .mark .defaultWord, .mark .functionWord, ⟨.name, x⟩, .mark .parenOpen,
      .mark .parenClose, .mark .braceOpen, .mark .braceClose]
  | .importLocal =>
    [.mark .importWord, ⟨.name, x⟩, .mark .fromWord, ⟨.string, Ground.stringText ""⟩, .mark .semicolon]

/-- The tokens of these words, by number. -/
def token (x : String) (role : Role) (i : Nat) : Token :=
  (spread ⟨1, 0⟩ (role.words x)).getD i default

end Role

namespace Source

/-- An operand with no operator of the level after it. -/
def alone (l : Level) (operand : Tree (.sub (.operandOf l))) : Tree (.sub (.binary l)) :=
  .node (.binary l) (.cons operand (.cons (.node (.noMoreOperands l) .nil) .nil))

/-- A name as an expression. -/
def nameTree (token : Token) (h : token.terminal = .name) : Tree (.sub .expression) :=
  alone .or <| alone .and <| alone .equality <| alone .relational <| alone .additive <|
    alone .multiplicative <| .node .operand (.cons
      (.node (.atom .name) (.cons (.leaf token h) .nil)) (.cons (.node .noAccesses .nil) .nil))

/-- An item with a name in the role. -/
def specimenItem (x : String) : Role → Tree (.sub .item)
  | .expression =>
    let token := Role.expression.token x
    .node .statementItem (.cons (.node .returns (.cons (.leaf (token 0) rfl)
      (.cons (.node .someExpression (.cons (nameTree (token 1) rfl) .nil))
        (.cons (.leaf (token 2) rfl) .nil)))) .nil)
  | .binding =>
    let token := Role.binding.token x
    .node .statementItem (.cons (.node (.declaration .block) (.cons (.leaf (token 0) rfl)
      (.cons (.node .declarator (.cons (.node .namePattern (.cons (.leaf (token 1) rfl) .nil))
        (.cons (.node .noInitializer .nil) .nil)))
        (.cons (.node .noMoreDeclarators .nil) (.cons (.leaf (token 2) rfl) .nil))))) .nil)
  | .functionName =>
    let token := Role.functionName.token x
    .node .exportItem (.cons (.leaf (token 0) rfl) (.cons (.leaf (token 1) rfl)
      (.cons (.node .plainFunction (.cons (.node .functionRest (.cons (.leaf (token 2) rfl)
        (.cons (.node .namedFunction (.cons (.leaf (token 3) rfl) (.cons (.node .signature
          (.cons (.leaf (token 4) rfl) (.cons (.node .noParameters .nil)
            (.cons (.leaf (token 5) rfl) (.cons (.node .block (.cons (.leaf (token 6) rfl)
              (.cons (.node .noStatements .nil) (.cons (.leaf (token 7) rfl) .nil)))) .nil)))))
          .nil))) .nil))) .nil)) .nil)))
  | .importLocal =>
    let token := Role.importLocal.token x
    .node .importItem (.cons (.leaf (token 0) rfl) (.cons (.node .boundImport
      (.cons (.node .defaultClause (.cons (.leaf (token 1) rfl) (.cons (.node .noImportMore .nil) .nil)))
        (.cons (.leaf (token 2) rfl) (.cons (.leaf (token 3) rfl) (.cons (.leaf (token 4) rfl) .nil)))))
      .nil))

/-- The derivation of a source with a name in the role. -/
def specimen (x : String) (role : Role) : Tree (.sub .program) :=
  .node .program (.cons (.node .moreItems (.cons (specimenItem x role)
    (.cons (.node .noItems .nil) .nil))) .nil)

theorem tokens_specimen (x : String) (role : Role) :
    (specimen x role).tokens = spread ⟨1, 0⟩ (role.words x) := by
  cases role <;>
    simp [specimen, specimenItem, nameTree, alone, Tree.tokens, Forest.tokens, Role.token, Role.words,
      spread]

theorem exists_program_specimen (x : String) (role : Role) :
    ∃ program, (specimen x role).program = .ok program ∧ x ∈ program.namesAs role := by
  cases role with
  | expression =>
    refine ⟨_, rfl, ?_⟩
    exact List.mem_cons_self
  | binding =>
    refine ⟨_, rfl, ?_⟩
    exact List.mem_cons_self
  | functionName =>
    refine ⟨_, rfl, ?_⟩
    exact List.mem_cons_self
  | importLocal =>
    have hstring : (Role.importLocal.token x 3).value = .ok (some (.string "")) := Word.value_string ""
    simp only [specimen, specimenItem, Tree.program, Tree.value, Forest.values, hstring]
    refine ⟨_, rfl, ?_⟩
    exact List.mem_cons_self

/-- All words of a specimen are spelled, but for the name. -/
theorem isSpelled_of_mem_words {x : String} {role : Role} :
    ∀ w ∈ role.words x, w.IsSpelled ∨ w = ⟨.name, x⟩ := by
  have mark (t : Terminal) (ht : t.spelling?.isSome = true) :
      (Word.mark t).IsSpelled ∨ Word.mark t = ⟨.name, x⟩ := .inl (Word.isSpelled_mark ht)
  cases role with
  | expression => simp [Role.words, mark .returnWord rfl, mark .semicolon rfl]
  | binding => simp [Role.words, mark .letWord rfl, mark .semicolon rfl]
  | functionName =>
    simp [Role.words, mark .exportWord rfl, mark .defaultWord rfl, mark .functionWord rfl,
      mark .parenOpen rfl, mark .parenClose rfl, mark .braceOpen rfl, mark .braceClose rfl]
  | importLocal =>
    simp [Role.words, mark .importWord rfl, mark .fromWord rfl, Word.IsSpelled.string,
      mark .semicolon rfl]

/-- The name in a specimen is read at the place of its role. -/
theorem place_of_mem_readAt {x : String} {role : Role} :
    ∀ y ∈ readAt .item (specimen x role).leaves, y.2.terminal = .name → y.1 = role.place := by
  cases role <;>
    simp [specimen, specimenItem, nameTree, alone, Tree.leaves, Forest.leaves, readAt, Role.token,
      Role.words, Role.place, spread, Word.token, Word.mark]

/-- A name that is none of the keywords of a role is a name where names of the role are read. -/
theorem isNameAt_place {role : Role} {x : String} (hname : IsNameText x.toList)
    (hx : x ∉ role.keywords) : IsNameAt role.place x where
  accepted := by cases role <;> decide
  text := hname
  word t ht hspelling := by
    have hall : role.place.accepts.all (fun t => t.spelling?.all fun s =>
        s ∈ role.keywords || !s.toList.head?.any isNameStart) = true := by
      cases role <;> decide
    have hcases := List.all_eq_true.mp hall t ht
    obtain ⟨c, rest, htext, hc, -⟩ := hname
    rw [hspelling, Option.all_some, htext] at hcases
    simp [hx, hc] at hcases

/-- A specimen is found in the text of its words, if the name is one at the place of its role. -/
theorem parseProgram_specimen {role : Role} {x : String} (h : IsNameAt role.place x) :
    parseProgram (String.ofList (textOf (role.words x))) = .ok (specimen x role) := by
  have hsolid : ∀ w ∈ role.words x, w.IsSolid := by
    intro w hw
    obtain hspelled | rfl := isSpelled_of_mem_words w hw
    · exact hspelled.isSolid
    · exact h.text.exists_isSolid
  have htokens := (specimen x role).map_leaves.trans (tokens_specimen x role)
  refine parseProgram_eq_ok_iff.mpr (exists_scans_of_found hsolid htokens (fun y hy rest => ?_) ?_)
  · have hword : y.2.word ∈ role.words x := by
      rw [← map_word_spread ⟨1, 0⟩ (role.words x), ← htokens, ← map_readAt .item]
      exact List.mem_map_of_mem (List.mem_map_of_mem hy)
    obtain hspelled | hname := isSpelled_of_mem_words _ hword
    · have haccepts := (specimen x role).linked_program.accepts_of_mem_readAt
        (specimen x role).starts_program y hy
      exact lexeme?_word hspelled haccepts rest
    · obtain ⟨hterminal, htext⟩ := Word.mk.inj hname
      rw [place_of_mem_readAt y hy hterminal, hterminal, htext]
      exact lexeme?_name h.accepted h.text h.word ((ends_blank _ rest).name h.text)
  · rw [Cursor.start, String.toList_ofList]
    exact skipLayout_textOf hsolid _

/-- **Which words can be names**: a word occurs as a name in a role, in some source that is read, if and only
if it is a name and none of the keywords of that role. So no name that stands as an expression is one of the
keywords that an operand can begin with; all other keywords can be names of expressions, and every keyword
can be the name of a binding, of a function and of an import. -/
theorem exists_name_iff (role : Role) (x : String) :
    (∃ source program, readProgram source = .ok program ∧ x ∈ program.namesAs role) ↔
      IsNameText x.toList ∧ x ∉ role.keywords := by
  constructor
  · rintro ⟨source, program, hread, hx⟩
    exact ⟨isNameText_of_mem_namesAs hread hx, not_mem_keywords_of_mem_namesAs hread hx⟩
  · rintro ⟨hname, hx⟩
    obtain ⟨program, hprogram, hmem⟩ := exists_program_specimen x role
    refine ⟨String.ofList (textOf (role.words x)), program, ?_, hmem⟩
    rw [readProgram, parseProgram_specimen (isNameAt_place hname hx)]
    simp only [hprogram]

/-- The name of a binding is the keyword `await`, which is no name in expressions. -/
theorem keyword_is_bound :
    ∃ program, readProgram "const await = 1;" = .ok program ∧ "await" ∈ program.namesAs .binding :=
  exists_readProgram_of_readWithin 50 "const await = 1;" (fun n => "await" ∈ n.namesAs .binding)
    (by decide +kernel)

end Source

end RhoScript
