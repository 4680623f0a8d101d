import RhoScript.Proofs.Source.Placement

/-!
# How syntax trees are formed

A production forms a node of the nodes of its parts. So the grammar says which kinds of nodes stand where
in the tree of a source: statements in blocks, patterns in declarators, leaves as keys, and so on.
`Formed N` are the nodes that are formed in this way if all names that stand as expressions have the
property `N`.

Main statements: the value of a derivation is formed, with the names of its operands
(`Tree.value_forms`), and what holds of every node that is formed holds everywhere in a tree that is
(`Formed.everywhere`).
-/

namespace RhoScript.Source

open Node

/-! ### Nodes that are formed -/

/-- The nodes that the productions of a category form, if the names that stand as expressions have the
property `N`. Expressions of all levels are one category. -/
inductive Formed (N : String → Prop) : Nonterminal → Node → Prop
  | program {loc : Loc} {items : List Node} : (∀ m ∈ items, Formed N .item m) →
      Formed N .program (.program loc items)
  | importItem {loc : Loc} {specifiers : List Node} {source : Node} :
      (∀ m ∈ specifiers, Formed N .specifier m) → source.isLeaf = true →
      Formed N .item (.importDeclaration loc specifiers source)
  | defaultSpecifier {loc nloc : Loc} {x : String} :
      Formed N .specifier (.importDefaultSpecifier loc (.identifier nloc x))
  | namespaceSpecifier {loc nloc : Loc} {x : String} :
      Formed N .specifier (.importNamespaceSpecifier loc (.identifier nloc x))
  | namedSpecifier {loc nloc mloc : Loc} {x y : String} :
      Formed N .specifier (.importSpecifier loc (.identifier nloc x) (.identifier mloc y))
  | exportItem {loc : Loc} {f : Node} : Formed N .function f →
      Formed N .item (.exportDefaultDeclaration loc f)
  | declaredFunction {loc : Loc} {id : Option Node} {params : List Node} {body : Node} {isAsync : Bool} :
      (∀ m ∈ id, m.isLeaf = true) → (∀ m ∈ params, Formed N .pattern m) → Formed N .block body →
      Formed N .function (.functionDeclaration loc id params body isAsync)
  | statementItem {n : Node} : Formed N .statement n → Formed N .item n
  | block {loc : Loc} {body : List Node} : (∀ m ∈ body, Formed N .statement m) →
      Formed N .block (.blockStatement loc body)
  | declaration {loc : Loc} {declarators : List Node} {kind : String} :
      (∀ m ∈ declarators, Formed N .declarator m) →
      Formed N .statement (.variableDeclaration loc declarators kind)
  | declarator {loc : Loc} {id : Node} {init : Option Node} : Formed N .pattern id →
      (∀ m ∈ init, Formed N .expression m) → Formed N .declarator (.variableDeclarator loc id init)
  | conditional {n : Node} : Formed N .ifStatement n → Formed N .statement n
  | ifStatement {loc : Loc} {test consequent : Node} {alternate : Option Node} :
      Formed N .expression test → Formed N .block consequent →
      (∀ m ∈ alternate, Formed N .elseBody m) →
      Formed N .ifStatement (.ifStatement loc test consequent alternate)
  | elseBlock {n : Node} : Formed N .block n → Formed N .elseBody n
  | elseIf {n : Node} : Formed N .ifStatement n → Formed N .elseBody n
  | switch {loc : Loc} {discriminant : Node} {cases : List Node} : Formed N .expression discriminant →
      (∀ m ∈ cases, Formed N .case m) → Formed N .statement (.switchStatement loc discriminant cases)
  | case {loc : Loc} {test : Option Node} {body : List Node} : (∀ m ∈ test, Formed N .expression m) →
      (∀ m ∈ body, Formed N .statement m) → Formed N .case (.switchCase loc test body)
  | returns {loc : Loc} {argument : Option Node} : (∀ m ∈ argument, Formed N .expression m) →
      Formed N .statement (.returnStatement loc argument)
  | breaks {loc : Loc} {label : Option Node} : (∀ m ∈ label, m.isLeaf = true) →
      Formed N .statement (.breakStatement loc label)
  | throws {loc : Loc} {argument : Node} : Formed N .expression argument →
      Formed N .statement (.throwStatement loc argument)
  | expression {loc : Loc} {e : Node} : Formed N .expression e →
      Formed N .statement (.expressionStatement loc e)
  | namePattern {loc : Loc} {x : String} : Formed N .pattern (.identifier loc x)
  | objectPattern {loc : Loc} {properties : List Node} :
      (∀ m ∈ properties, Formed N .propertyPattern m) → Formed N .pattern (.objectPattern loc properties)
  | arrayPattern {loc : Loc} {elements : List Node} : (∀ m ∈ elements, Formed N .pattern m) →
      Formed N .pattern (.arrayPattern loc (elements.map some))
  | propertyPattern {loc : Loc} {key value : Node} {shorthand : Bool} : key.isLeaf = true →
      Formed N .pattern value → Formed N .propertyPattern (propertyNode loc key value shorthand)
  | property {loc : Loc} {key value : Node} {method : Bool} : key.isLeaf = true →
      Formed N .expression value →
      Formed N .property (.property loc key value "init" method false false)
  | binary {l : Level} {loc : Loc} {operator : String} {left right : Node} :
      Formed N .expression left → Formed N .expression right →
      Formed N .expression (binaryNode l loc operator left right)
  | unary {o : Unary} {loc : Loc} {operator : String} {argument : Node} :
      Formed N .expression argument → Formed N .expression (unaryNode o loc operator argument)
  | member {loc : Loc} {object name : Node} : Formed N .expression object → name.isLeaf = true →
      Formed N .expression (.memberExpression loc object name false)
  | call {loc : Loc} {callee : Node} {arguments : List Node} : Formed N .expression callee →
      (∀ m ∈ arguments, Formed N .expression m) →
      Formed N .expression (.callExpression loc callee arguments)
  | name {loc : Loc} {x : String} : N x → Formed N .expression (.identifier loc x)
  | literal {loc : Loc} {value : Option Ground} {raw : Option String} :
      Formed N .expression (.literal loc value raw)
  | this {loc : Loc} : Formed N .expression (.thisExpression loc)
  | object {loc : Loc} {properties : List Node} : (∀ m ∈ properties, Formed N .property m) →
      Formed N .expression (.objectExpression loc properties)
  | array {loc : Loc} {elements : List Node} : (∀ m ∈ elements, Formed N .expression m) →
      Formed N .expression (.arrayExpression loc (elements.map some))
  | function {loc : Loc} {id : Option Node} {params : List Node} {body : Node} {isAsync : Bool} :
      (∀ m ∈ id, m.isLeaf = true) → (∀ m ∈ params, Formed N .pattern m) → Formed N .block body →
      Formed N .expression (.functionExpression loc id params body isAsync)

variable {N : String → Prop}

/-! ### What holds everywhere -/

theorem forall_mem_some {P : Node → Prop} {a : Node} (ha : P a) : ∀ m ∈ some a, P m :=
  fun _ hm => Option.mem_some.mp hm ▸ ha

theorem forall_mem_toList {P : Node → Prop} {o : Option Node} (h : ∀ m ∈ o, P m) :
    ∀ m ∈ o.toList, P m :=
  fun m hm => h m (Option.mem_toList.mp hm)

theorem forall_mem_elements {P : Node → Prop} {ns : List Node} (h : ∀ m ∈ ns, P m) :
    ∀ m ∈ (ns.map some).filterMap id, P m := by
  simpa using h

/-- **What holds of all that is formed holds everywhere in it**, if it holds of leaves. -/
theorem Formed.everywhere {P : Node → Prop} (hleaf : ∀ m : Node, m.isLeaf = true → P m)
    (hP : ∀ {c : Nonterminal} {m : Node}, Formed N c m → P m) {c : Nonterminal} {n : Node}
    (h : Formed N c n) : n.Everywhere P := by
  have leaf {m : Node} (hm : m.isLeaf = true) : m.Everywhere P := by
    refine everywhere_iff.mpr ⟨hleaf m hm, ?_⟩
    rw [children_of_isLeaf hm]
    exact nofun
  have node {c : Nonterminal} {m : Node} (hm : Formed N c m)
      (hchildren : ∀ k ∈ m.children, k.Everywhere P) : m.Everywhere P :=
    everywhere_iff.mpr ⟨hP hm, hchildren⟩
  have parts {id : Option Node} {params : List Node} {body : Node} (hid : ∀ m ∈ id, m.isLeaf = true)
      (hparams : ∀ m ∈ params, m.Everywhere P) (hbody : body.Everywhere P) :
      ∀ m ∈ id.toList ++ params ++ [body], m.Everywhere P :=
    List.forall_mem_append.mpr ⟨List.forall_mem_append.mpr
      ⟨forall_mem_toList fun m hm => leaf (hid m hm), hparams⟩, List.forall_mem_singleton.mpr hbody⟩
  induction h with
  | program h ih => exact node (.program h) ih
  | importItem h hsource ih =>
    exact node (.importItem h hsource)
      (List.forall_mem_append.mpr ⟨ih, List.forall_mem_singleton.mpr (leaf hsource)⟩)
  | defaultSpecifier => exact node .defaultSpecifier (List.forall_mem_singleton.mpr (leaf rfl))
  | namespaceSpecifier => exact node .namespaceSpecifier (List.forall_mem_singleton.mpr (leaf rfl))
  | namedSpecifier => exact node .namedSpecifier (forall_mem_pair (leaf rfl) (leaf rfl))
  | exportItem h ih => exact node (.exportItem h) (List.forall_mem_singleton.mpr ih)
  | declaredFunction hid hparams hbody ihparams ihbody =>
    exact node (.declaredFunction hid hparams hbody) (parts hid ihparams ihbody)
  | statementItem _ ih => exact ih
  | block h ih => exact node (.block h) ih
  | declaration h ih => exact node (.declaration h) ih
  | declarator hid hinit ihid ihinit =>
    exact node (.declarator hid hinit) (List.forall_mem_cons.mpr ⟨ihid, forall_mem_toList ihinit⟩)
  | conditional _ ih => exact ih
  | ifStatement htest hconsequent halternate ihtest ihconsequent ihalternate =>
    exact node (.ifStatement htest hconsequent halternate) (List.forall_mem_cons.mpr
      ⟨ihtest, List.forall_mem_cons.mpr ⟨ihconsequent, forall_mem_toList ihalternate⟩⟩)
  | elseBlock _ ih => exact ih
  | elseIf _ ih => exact ih
  | switch hdiscriminant hcases ihdiscriminant ihcases =>
    exact node (.switch hdiscriminant hcases) (List.forall_mem_cons.mpr ⟨ihdiscriminant, ihcases⟩)
  | case htest hbody ihtest ihbody =>
    exact node (.case htest hbody) (List.forall_mem_append.mpr ⟨forall_mem_toList ihtest, ihbody⟩)
  | returns h ih => exact node (.returns h) (forall_mem_toList ih)
  | breaks h => exact node (.breaks h) (forall_mem_toList fun m hm => leaf (h m hm))
  | throws h ih => exact node (.throws h) (List.forall_mem_singleton.mpr ih)
  | expression h ih => exact node (.expression h) (List.forall_mem_singleton.mpr ih)
  | namePattern => exact leaf rfl
  | objectPattern h ih => exact node (.objectPattern h) ih
  | arrayPattern h ih => exact node (.arrayPattern h) (forall_mem_elements ih)
  | propertyPattern hkey hvalue ih =>
    exact node (.propertyPattern hkey hvalue) (forall_mem_pair (leaf hkey) ih)
  | property hkey hvalue ih => exact node (.property hkey hvalue) (forall_mem_pair (leaf hkey) ih)
  | @binary l _ _ _ _ hleft hright ihleft ihright =>
    refine node (.binary hleft hright) ?_
    cases l <;> exact forall_mem_pair ihleft ihright
  | @unary o _ _ _ h ih =>
    refine node (.unary h) ?_
    cases o <;> exact List.forall_mem_singleton.mpr ih
  | member hobject hname ih => exact node (.member hobject hname) (forall_mem_pair ih (leaf hname))
  | call hcallee harguments ihcallee iharguments =>
    exact node (.call hcallee harguments) (List.forall_mem_cons.mpr ⟨ihcallee, iharguments⟩)
  | name _ | literal | this => exact leaf rfl
  | object h ih => exact node (.object h) ih
  | array h ih => exact node (.array h) (forall_mem_elements ih)
  | function hid hparams hbody ihparams ihbody =>
    exact node (.function hid hparams hbody) (parts hid ihparams ihbody)

/-! ### What categories form -/

/-- The parts of a function are formed. -/
structure FunctionParts.Formed (N : String → Prop) (f : FunctionParts) : Prop where
  id : ∀ m ∈ f.id, m.isLeaf = true
  params : ∀ m ∈ f.params, Source.Formed N .pattern m
  body : Source.Formed N .block f.body

/-- What an access adds to an expression is formed. -/
def Access.Forms (N : String → Prop) : Access → Prop
  | .member name _ => name.isLeaf = true
  | .call arguments _ => ∀ m ∈ arguments, Formed N .expression m

/-- What follows the key of a property is formed. -/
def PropertyRest.Forms (N : String → Prop) : PropertyRest → Prop
  | .value node => Formed N .expression node
  | .method f => f.Formed N

/-- What a category contributes is formed. -/
def Forms (N : String → Prop) : (n : Nonterminal) → CategoryMeaning n → Prop
  | .items, ns => ∀ m ∈ ns, Formed N .item m
  | .importClause, ns | .importMore, ns | .importGroup, ns | .series .specifiers, ns
  | .seriesRest .specifiers, ns => ∀ m ∈ ns, Formed N .specifier m
  | .parameters, ns | .moreParameters, ns | .series .patterns, ns | .seriesRest .patterns, ns =>
    ∀ m ∈ ns, Formed N .pattern m
  | .statements, ns => ∀ m ∈ ns, Formed N .statement m
  | .moreDeclarators, ns => ∀ m ∈ ns, Formed N .declarator m
  | .cases, ns => ∀ m ∈ ns, Formed N .case m
  | .arguments, ns | .moreArguments, ns | .series .elements, ns | .seriesRest .elements, ns =>
    ∀ m ∈ ns, Formed N .expression m
  | .series .propertyPatterns, ns | .seriesRest .propertyPatterns, ns =>
    ∀ m ∈ ns, Formed N .propertyPattern m
  | .series .properties, ns | .seriesRest .properties, ns => ∀ m ∈ ns, Formed N .property m
  | .importRest, rest => (∀ m ∈ rest.1, Formed N .specifier m) ∧ rest.2.isLeaf = true
  | .asName, o => ∀ m ∈ o, ∃ loc x, m = .identifier loc x
  | .optionalLabel, o => ∀ m ∈ o, m.isLeaf = true
  | .alternative, o => ∀ m ∈ o, Formed N .elseBody m
  | .initializer, o | .optionalExpression, o => ∀ m ∈ o, Formed N .expression m
  | .propertyPatternRest, o => ∀ m ∈ o, Formed N .pattern m
  | .function, f | .functionRest, f | .functionNamed, f | .signature, f => f.Formed N
  | .binaryRest _, fs => ∀ f ∈ fs, Formed N .expression f.operand
  | .accesses, as => ∀ a ∈ as, a.Forms N
  | .propertyRest, rest => rest.Forms N
  | .propertyKey, n => n.isLeaf = true
  | .binary _, n | .unary, n | .primary, n => Formed N .expression n
  | .program, n => Formed N .program n
  | .item, n => Formed N .item n
  | .specifier, n => Formed N .specifier n
  | .block, n => Formed N .block n
  | .statement, n => Formed N .statement n
  | .ifStatement, n => Formed N .ifStatement n
  | .elseBody, n => Formed N .elseBody n
  | .declarator, n => Formed N .declarator n
  | .case, n => Formed N .case n
  | .pattern, n => Formed N .pattern n
  | .propertyPattern, n => Formed N .propertyPattern n
  | .property, n => Formed N .property n

/-- What a symbol contributes is formed; a token always is. -/
def SymbolForms (N : String → Prop) : (s : Symbol) → Meaning s → Prop
  | .tok _ _, _ => True
  | .sub n, meaning => Forms N n meaning

/-- All values in a row are formed. -/
inductive Values.Form (N : String → Prop) : {ss : List Symbol} → Values ss → Prop
  | nil : Values.Form N .nil
  | cons {s : Symbol} {rest : List Symbol} {first : Value s} {more : Values rest} :
      SymbolForms N s first.meaning → Values.Form N more → Values.Form N (.cons first more)

theorem forms_joinOperands (l : Level) (start : Position) {left : Node} {fs : List FurtherOperand}
    (hleft : Formed N .expression left) (hfs : ∀ f ∈ fs, Formed N .expression f.operand) :
    Formed N .expression (joinOperands l start left fs) := by
  induction fs generalizing left with
  | nil => exact hleft
  | cons f rest ih =>
    obtain ⟨hf, hrest⟩ := List.forall_mem_cons.mp hfs
    exact ih (.binary hleft hf) hrest

theorem forms_joinAccesses (start : Position) {object : Node} {as : List Access}
    (hobject : Formed N .expression object) (has : ∀ a ∈ as, a.Forms N) :
    Formed N .expression (joinAccesses start object as) := by
  induction as generalizing object with
  | nil => exact hobject
  | cons a rest ih =>
    obtain ⟨ha, hrest⟩ := List.forall_mem_cons.mp has
    cases a with
    | member name stop => exact ih (.member hobject ha) hrest
    | call arguments stop => exact ih (.call hobject ha) hrest

theorem forms_operandMeaning (l : Level) {meaning : CategoryMeaning (.operandOf l)}
    (h : Forms N (.operandOf l) meaning) : Formed N .expression (combine.operandMeaning l meaning) := by
  cases l <;> exact h

theorem FunctionParts.Formed.expression {f : FunctionParts} (h : f.Formed N) (loc : Loc) :
    Source.Formed N .expression (f.expression loc) :=
  .function h.id h.params h.body

theorem FunctionParts.Formed.declaration {f : FunctionParts} (h : f.Formed N) (loc : Loc) :
    Source.Formed N .function (f.declaration loc) :=
  .declaredFunction h.id h.params h.body

/-- A specifier binds the local name, which is the imported one if no other is given. -/
theorem formed_specifier (loc : Loc) {asName : Option Node} (name : Leaf)
    (h : ∀ m ∈ asName, ∃ loc x, m = .identifier loc x) :
    Formed N .specifier (.importSpecifier loc (asName.getD name.identifier) name.identifier) := by
  cases asName with
  | none => exact .namedSpecifier
  | some m =>
    obtain ⟨_, _, rfl⟩ := h m rfl
    exact .namedSpecifier

/-- A property of a pattern, whose key is also its value if no other is given. -/
theorem formed_namedPattern (loc : Loc) {value : Option Node} (name : Leaf)
    (h : ∀ m ∈ value, Formed N .pattern m) :
    Formed N .propertyPattern
      (propertyNode loc name.identifier (value.getD name.identifier) value.isNone) := by
  cases value with
  | none => exact .propertyPattern rfl .namePattern
  | some m => exact .propertyPattern rfl (h m rfl)

/-- A property with a value or a method. -/
theorem formed_propertyRest (loc : Loc) {key : Node} (hkey : key.isLeaf = true) (rest : PropertyRest) :
    rest.Forms N → Formed N .property (match rest with
      | .value node => propertyNode loc key node false
      | .method f => methodNode loc key f) := by
  intro hrest
  cases rest with
  | value node => exact .property hkey hrest
  | method f => exact .property hkey (FunctionParts.Formed.expression hrest loc)

/-- The names that a production makes stand as expressions. -/
def Production.ownNames : {n : Nonterminal} → (p : Production n) → Values p.parts → List String
  | _, .atom .name, .cons leaf .nil => [leaf.meaning.token.text]
  | _, _, _ => []

theorem formed_atom (a : Atom) (leaf : Value (.tok a.terminal .operator))
    (h : ∀ x ∈ (Production.atom a).ownNames (.cons leaf .nil), N x) :
    Formed N .expression (atomNode a leaf.meaning) := by
  cases a
  case name => exact .name (h _ List.mem_cons_self)
  case this => exact .this
  all_goals exact .literal

/-! ### Productions -/

/-- A production forms a node of what its parts form. -/
theorem combine_forms {n : Nonterminal} (p : Production n) (span : Option Span)
    (values : Values p.parts) (h : values.Form N) (hnames : ∀ x ∈ p.ownNames values, N x) :
    Forms N n (combine p span values) := by
  cases p with
  | program =>
    obtain _ | ⟨hitems, _ | _⟩ := h
    exact .program hitems
  | noItems => exact nofun
  | moreItems =>
    obtain _ | ⟨hitem, _ | ⟨hitems, _ | _⟩⟩ := h
    exact List.forall_mem_cons.mpr ⟨hitem, hitems⟩
  | importItem =>
    obtain _ | ⟨_, _ | ⟨hrest, _ | _⟩⟩ := h
    exact .importItem hrest.1 hrest.2
  | exportItem =>
    obtain _ | ⟨_, _ | ⟨_, _ | ⟨hfunction, _ | _⟩⟩⟩ := h
    exact .exportItem (FunctionParts.Formed.declaration hfunction _)
  | statementItem =>
    obtain _ | ⟨hstatement, _ | _⟩ := h
    exact .statementItem hstatement
  | bareImport =>
    obtain _ | ⟨_, _⟩ := h
    exact ⟨nofun, rfl⟩
  | boundImport =>
    obtain _ | ⟨hclause, _ | ⟨_, _ | ⟨_, _⟩⟩⟩ := h
    exact ⟨hclause, rfl⟩
  | defaultClause =>
    obtain _ | ⟨_, _ | ⟨hmore, _ | _⟩⟩ := h
    exact List.forall_mem_cons.mpr ⟨.defaultSpecifier, hmore⟩
  | groupClause =>
    obtain _ | ⟨hgroup, _ | _⟩ := h
    exact hgroup
  | noImportMore => exact nofun
  | importMore =>
    obtain _ | ⟨_, _ | ⟨hgroup, _ | _⟩⟩ := h
    exact hgroup
  | namedGroup =>
    obtain _ | ⟨_, _ | ⟨hspecifiers, _⟩⟩ := h
    exact hspecifiers
  | namespaceGroup =>
    obtain _ | ⟨_, _ | ⟨_, _ | ⟨_, _ | _⟩⟩⟩ := h
    exact List.forall_mem_singleton.mpr .namespaceSpecifier
  | specifier =>
    obtain _ | ⟨_, _ | ⟨hasName, _ | _⟩⟩ := h
    exact formed_specifier _ _ hasName
  | noAsName => exact nofun
  | asName =>
    obtain _ | ⟨_, _ | ⟨_, _ | _⟩⟩ := h
    exact forall_mem_some ⟨_, _, rfl⟩
  | asyncFunction =>
    obtain _ | ⟨_, _ | ⟨hfunction, _ | _⟩⟩ := h
    exact ⟨hfunction.id, hfunction.params, hfunction.body⟩
  | plainFunction =>
    obtain _ | ⟨hfunction, _ | _⟩ := h
    exact hfunction
  | functionRest =>
    obtain _ | ⟨_, _ | ⟨hfunction, _ | _⟩⟩ := h
    exact hfunction
  | namedFunction =>
    obtain _ | ⟨_, _ | ⟨hsignature, _ | _⟩⟩ := h
    exact ⟨forall_mem_some rfl, hsignature.params, hsignature.body⟩
  | anonymousFunction =>
    obtain _ | ⟨hsignature, _ | _⟩ := h
    exact hsignature
  | signature =>
    obtain _ | ⟨_, _ | ⟨hparameters, _ | ⟨_, _ | ⟨hblock, _ | _⟩⟩⟩⟩ := h
    exact ⟨nofun, hparameters, hblock⟩
  | noParameters => exact nofun
  | parameters =>
    obtain _ | ⟨hpattern, _ | ⟨hmore, _ | _⟩⟩ := h
    exact List.forall_mem_cons.mpr ⟨hpattern, hmore⟩
  | noMoreParameters => exact nofun
  | moreParameters =>
    obtain _ | ⟨_, _ | ⟨hpattern, _ | ⟨hmore, _ | _⟩⟩⟩ := h
    exact List.forall_mem_cons.mpr ⟨hpattern, hmore⟩
  | block =>
    obtain _ | ⟨_, _ | ⟨hstatements, _⟩⟩ := h
    exact .block hstatements
  | noStatements => exact nofun
  | moreStatements =>
    obtain _ | ⟨hstatement, _ | ⟨hmore, _ | _⟩⟩ := h
    exact List.forall_mem_cons.mpr ⟨hstatement, hmore⟩
  | declaration d =>
    obtain _ | ⟨_, _ | ⟨hdeclarator, _ | ⟨hmore, _⟩⟩⟩ := h
    exact .declaration (List.forall_mem_cons.mpr ⟨hdeclarator, hmore⟩)
  | conditional =>
    obtain _ | ⟨hstatement, _ | _⟩ := h
    exact .conditional hstatement
  | switch =>
    obtain _ | ⟨_, _ | ⟨_, _ | ⟨hdiscriminant, _ | ⟨_, _ | ⟨_, _ | ⟨hcases, _⟩⟩⟩⟩⟩⟩ := h
    exact .switch hdiscriminant hcases
  | returns =>
    obtain _ | ⟨_, _ | ⟨hargument, _⟩⟩ := h
    exact .returns hargument
  | breaks =>
    obtain _ | ⟨_, _ | ⟨hlabel, _⟩⟩ := h
    exact .breaks hlabel
  | throws =>
    obtain _ | ⟨_, _ | ⟨hargument, _⟩⟩ := h
    exact .throws hargument
  | expression =>
    obtain _ | ⟨hexpression, _⟩ := h
    exact .expression hexpression
  | ifStatement =>
    obtain _ | ⟨_, _ | ⟨_, _ | ⟨htest, _ | ⟨_, _ | ⟨hblock, _ | ⟨hmore, _ | _⟩⟩⟩⟩⟩⟩ := h
    exact .ifStatement htest hblock hmore
  | noAlternative => exact nofun
  | alternative =>
    obtain _ | ⟨_, _ | ⟨hbody, _ | _⟩⟩ := h
    exact forall_mem_some hbody
  | elseBlock =>
    obtain _ | ⟨hblock, _ | _⟩ := h
    exact .elseBlock hblock
  | elseIf =>
    obtain _ | ⟨hstatement, _ | _⟩ := h
    exact .elseIf hstatement
  | noMoreDeclarators => exact nofun
  | moreDeclarators =>
    obtain _ | ⟨_, _ | ⟨hdeclarator, _ | ⟨hmore, _ | _⟩⟩⟩ := h
    exact List.forall_mem_cons.mpr ⟨hdeclarator, hmore⟩
  | declarator =>
    obtain _ | ⟨hpattern, _ | ⟨hinit, _ | _⟩⟩ := h
    exact .declarator hpattern hinit
  | noInitializer => exact nofun
  | initializer =>
    obtain _ | ⟨_, _ | ⟨hexpression, _ | _⟩⟩ := h
    exact forall_mem_some hexpression
  | noCases => exact nofun
  | moreCases =>
    obtain _ | ⟨hcase, _ | ⟨hmore, _ | _⟩⟩ := h
    exact List.forall_mem_cons.mpr ⟨hcase, hmore⟩
  | testCase =>
    obtain _ | ⟨_, _ | ⟨htest, _ | ⟨_, _ | ⟨hstatements, _ | _⟩⟩⟩⟩ := h
    exact .case (forall_mem_some htest) hstatements
  | defaultCase =>
    obtain _ | ⟨_, _ | ⟨_, _ | ⟨hstatements, _ | _⟩⟩⟩ := h
    exact .case nofun hstatements
  | noExpression => exact nofun
  | someExpression =>
    obtain _ | ⟨hexpression, _ | _⟩ := h
    exact forall_mem_some hexpression
  | noLabel => exact nofun
  | label =>
    obtain _ | ⟨_, _ | _⟩ := h
    exact forall_mem_some rfl
  | namePattern =>
    obtain _ | ⟨_, _ | _⟩ := h
    exact .namePattern
  | objectPattern =>
    obtain _ | ⟨_, _ | ⟨hproperties, _⟩⟩ := h
    exact .objectPattern hproperties
  | arrayPattern =>
    obtain _ | ⟨_, _ | ⟨helements, _⟩⟩ := h
    exact .arrayPattern helements
  | namedPropertyPattern =>
    obtain _ | ⟨_, _ | ⟨hrest, _ | _⟩⟩ := h
    exact formed_namedPattern _ _ hrest
  | stringPropertyPattern =>
    obtain _ | ⟨_, _ | ⟨_, _ | ⟨hpattern, _ | _⟩⟩⟩ := h
    exact .propertyPattern rfl hpattern
  | numberPropertyPattern =>
    obtain _ | ⟨_, _ | ⟨_, _ | ⟨hpattern, _ | _⟩⟩⟩ := h
    exact .propertyPattern rfl hpattern
  | shorthandPattern => exact nofun
  | renamedPattern =>
    obtain _ | ⟨_, _ | ⟨hpattern, _ | _⟩⟩ := h
    exact forall_mem_some hpattern
  | binary l =>
    obtain _ | ⟨hoperand, _ | ⟨hmore, _ | _⟩⟩ := h
    exact forms_joinOperands l _ (forms_operandMeaning l hoperand) hmore
  | noMoreOperands _ => exact nofun
  | @moreOperands l o =>
    obtain _ | ⟨_, _ | ⟨hoperand, _ | ⟨hmore, _ | _⟩⟩⟩ := h
    exact List.forall_mem_cons.mpr ⟨forms_operandMeaning l hoperand, hmore⟩
  | unary o =>
    obtain _ | ⟨_, _ | ⟨hargument, _ | _⟩⟩ := h
    exact .unary hargument
  | operand =>
    obtain _ | ⟨hprimary, _ | ⟨haccesses, _ | _⟩⟩ := h
    exact forms_joinAccesses _ hprimary haccesses
  | noAccesses => exact nofun
  | member =>
    obtain _ | ⟨_, _ | ⟨_, _ | ⟨hmore, _ | _⟩⟩⟩ := h
    exact List.forall_mem_cons.mpr ⟨rfl, hmore⟩
  | call =>
    obtain _ | ⟨_, _ | ⟨harguments, _ | ⟨_, _ | ⟨hmore, _ | _⟩⟩⟩⟩ := h
    exact List.forall_mem_cons.mpr ⟨harguments, hmore⟩
  | noArguments => exact nofun
  | arguments =>
    obtain _ | ⟨hexpression, _ | ⟨hmore, _ | _⟩⟩ := h
    exact List.forall_mem_cons.mpr ⟨hexpression, hmore⟩
  | noMoreArguments => exact nofun
  | moreArguments =>
    obtain _ | ⟨_, _ | ⟨hexpression, _ | ⟨hmore, _ | _⟩⟩⟩ := h
    exact List.forall_mem_cons.mpr ⟨hexpression, hmore⟩
  | atom a =>
    obtain _ | ⟨_, _ | _⟩ := h
    exact formed_atom a _ hnames
  | object =>
    obtain _ | ⟨_, _ | ⟨hproperties, _⟩⟩ := h
    exact .object hproperties
  | array =>
    obtain _ | ⟨_, _ | ⟨helements, _⟩⟩ := h
    exact .array helements
  | functionExpression =>
    obtain _ | ⟨hfunction, _ | _⟩ := h
    exact FunctionParts.Formed.expression hfunction _
  | parentheses =>
    obtain _ | ⟨_, _ | ⟨hexpression, _⟩⟩ := h
    exact hexpression
  | asyncMethod =>
    obtain _ | ⟨_, _ | ⟨hkey, _ | ⟨hsignature, _ | _⟩⟩⟩ := h
    exact .property hkey (.function hsignature.id hsignature.params hsignature.body)
  | plainProperty =>
    obtain _ | ⟨hkey, _ | ⟨hrest, _ | _⟩⟩ := h
    exact formed_propertyRest _ hkey _ hrest
  | nameKey =>
    obtain _ | ⟨_, _ | _⟩ := h
    exact rfl
  | stringKey =>
    obtain _ | ⟨_, _ | _⟩ := h
    exact rfl
  | numberKey =>
    obtain _ | ⟨_, _ | _⟩ := h
    exact rfl
  | valueProperty =>
    obtain _ | ⟨_, _ | ⟨hexpression, _ | _⟩⟩ := h
    exact hexpression
  | methodProperty =>
    obtain _ | ⟨hsignature, _ | _⟩ := h
    exact hsignature
  | noMembers s => exact by cases s <;> exact nofun
  | members s =>
    obtain _ | ⟨hmember, _ | ⟨hrest, _ | _⟩⟩ := h
    cases s <;> exact List.forall_mem_cons.mpr ⟨hmember, hrest⟩
  | noMoreMembers s => exact by cases s <;> exact nofun
  | moreMembers s =>
    obtain _ | ⟨_, _ | ⟨hmembers, _ | _⟩⟩ := h
    cases s <;> exact hmembers

/-! ### Derivations -/

/-- The tokens that a production makes names which stand as expressions. -/
def Production.atoms {n : Nonterminal} (p : Production n) (tokens : List Token) : List Token :=
  match p with
  | .atom .name => tokens
  | _ => []

mutual

/-- The tokens of a tree that are names which stand as expressions. -/
def Tree.atoms : {s : Symbol} → Tree s → List Token
  | _, .leaf _ _ => []
  | _, .node p children => p.atoms children.tokens ++ children.atoms

/-- The tokens of a forest that are names which stand as expressions. -/
def Forest.atoms : {ss : List Symbol} → Forest ss → List Token
  | _, .nil => []
  | _, .cons tree more => tree.atoms ++ more.atoms

end

/-- The names that a production makes stand as expressions are those of its tokens. -/
theorem Production.forall_ownNames {n : Nonterminal} (p : Production n) {children : Forest p.parts}
    {values : Values p.parts} (hvalues : children.values = .ok values)
    (h : ∀ token ∈ p.atoms children.tokens, N token.text) : ∀ x ∈ p.ownNames values, N x := by
  cases p
  case atom a =>
    cases a
    case name =>
      obtain _ | ⟨⟨token, belongs⟩, _ | _⟩ := children
      obtain ⟨v, us, hvalue, hnil, rfl⟩ := Forest.values_cons_eq_ok_iff.mp hvalues
      obtain ⟨value, -, rfl⟩ := Tree.value_leaf_eq_ok_iff.mp hvalue
      cases hnil
      exact List.forall_mem_singleton.mpr (h token List.mem_cons_self)
    all_goals exact nofun
  all_goals exact nofun

mutual

/-- **The value of a derivation is formed**, with the names that stand as expressions in it. -/
theorem Tree.value_forms {s : Symbol} (tree : Tree s) {v : Value s} (h : tree.value = .ok v)
    (hN : ∀ token ∈ tree.atoms, N token.text) : SymbolForms N s v.meaning := by
  cases tree with
  | leaf token belongs => trivial
  | node p children =>
    rw [Tree.atoms, List.forall_mem_append] at hN
    obtain ⟨values, hvalues, rfl⟩ := Tree.value_node_eq_ok_iff.mp h
    exact combine_forms p _ values (children.values_form hvalues hN.2)
      (p.forall_ownNames hvalues hN.1)
termination_by structural tree

theorem Forest.values_form {ss : List Symbol} (forest : Forest ss) {vs : Values ss}
    (h : forest.values = .ok vs) (hN : ∀ token ∈ forest.atoms, N token.text) : vs.Form N := by
  cases forest with
  | nil =>
    cases h
    exact .nil
  | cons tree more =>
    rw [Forest.atoms, List.forall_mem_append] at hN
    obtain ⟨value, values, hvalue, hvalues, rfl⟩ := Forest.values_cons_eq_ok_iff.mp h
    exact .cons (tree.value_forms hvalue hN.1) (more.values_form hvalues hN.2)
termination_by structural forest

end

end RhoScript.Source
