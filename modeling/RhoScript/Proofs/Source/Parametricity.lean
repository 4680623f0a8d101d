import RhoScript.Proofs.Node.Congruence
import RhoScript.Proofs.Source.Words

/-!
# What productions keep

A production puts the nodes of its parts together and looks at none of them, and it only uses where
tokens stand to locate the nodes that it makes. So it keeps every congruence: if the values of its parts
are related, apart from where they stand, then so is what it makes of them (`combine_related`).

Main statement: a derivation can be planted on other tokens of the same words, and has a value there
that is related to its own by every congruence (`Tree.exists_planted`).
-/

namespace RhoScript.Source

open Node

/-! ### Related values -/

/-- Leaves have the same text and value. -/
structure Leaf.Same (l m : Leaf) : Prop where
  text : l.token.text = m.token.text
  value : l.value = m.value

section Related

variable (R : Node → Node → Prop)

/-- Functions are made of related parts. -/
structure FunctionParts.Related (f g : FunctionParts) : Prop where
  isAsync : f.isAsync = g.isAsync
  id : Option.Rel R f.id g.id
  params : List.Forall₂ R f.params g.params
  body : R f.body g.body

/-- The same operator is before related operands. -/
structure FurtherOperand.Related (f g : FurtherOperand) : Prop where
  operator : f.operator = g.operator
  operand : R f.operand g.operand

/-- Member accesses of related names, or calls with related arguments. -/
inductive Access.Related : Access → Access → Prop
  | member {a b : Node} {stop stop' : Position} :
      R a b → Access.Related (.member a stop) (.member b stop')
  | call {as bs : List Node} {stop stop' : Position} :
      List.Forall₂ R as bs → Access.Related (.call as stop) (.call bs stop')

/-- Related values, or methods with related functions, follow the keys of properties. -/
inductive PropertyRest.Related : PropertyRest → PropertyRest → Prop
  | value {a b : Node} : R a b → PropertyRest.Related (.value a) (.value b)
  | method {f g : FunctionParts} : f.Related R g → PropertyRest.Related (.method f) (.method g)

/-- What a category contributes is related. -/
def Related : (n : Nonterminal) → CategoryMeaning n → CategoryMeaning n → Prop
  | .items, ns, ms | .importClause, ns, ms | .importMore, ns, ms | .importGroup, ns, ms
  | .parameters, ns, ms | .moreParameters, ns, ms | .statements, ns, ms | .moreDeclarators, ns, ms
  | .cases, ns, ms | .arguments, ns, ms | .moreArguments, ns, ms | .series _, ns, ms
  | .seriesRest _, ns, ms => List.Forall₂ R ns ms
  | .importRest, r, s => List.Forall₂ R r.1 s.1 ∧ R r.2 s.2
  | .asName, o, o' | .alternative, o, o' | .initializer, o, o' | .optionalExpression, o, o'
  | .optionalLabel, o, o' | .propertyPatternRest, o, o' => Option.Rel R o o'
  | .function, f, g | .functionRest, f, g | .functionNamed, f, g | .signature, f, g => f.Related R g
  | .binaryRest _, fs, gs => List.Forall₂ (FurtherOperand.Related R) fs gs
  | .accesses, as, bs => List.Forall₂ (Access.Related R) as bs
  | .propertyRest, r, s => r.Related R s
  | .program, n, m | .item, n, m | .specifier, n, m | .block, n, m | .statement, n, m
  | .ifStatement, n, m | .elseBody, n, m | .declarator, n, m | .case, n, m | .pattern, n, m
  | .propertyPattern, n, m | .binary _, n, m | .unary, n, m | .primary, n, m | .property, n, m
  | .propertyKey, n, m => R n m

/-- What a symbol contributes is related; tokens must have the same text and value. -/
def SymbolRelated : (s : Symbol) → Meaning s → Meaning s → Prop
  | .tok _ _, l, m => l.Same m
  | .sub n, a, b => Related R n a b

/-- Values in a row are related. -/
inductive Values.Related : {ss : List Symbol} → Values ss → Values ss → Prop
  | nil : Values.Related .nil .nil
  | cons {s : Symbol} {rest : List Symbol} {first first' : Value s} {more more' : Values rest} :
      SymbolRelated R s first.meaning first'.meaning → Values.Related more more' →
      Values.Related (.cons first more) (.cons first' more')

end Related

/-! ### Nodes -/

section Nodes

variable {R : Node → Node → Prop}

theorem Leaf.Same.identifier (hR : Congruence R) {l m : Leaf} (h : l.Same m) :
    R l.identifier m.identifier := by
  rw [Leaf.identifier, Leaf.identifier, h.text]
  exact hR.identifier

theorem Leaf.Same.literal (hR : Congruence R) {l m : Leaf} (h : l.Same m) : R l.literal m.literal := by
  rw [Leaf.literal, Leaf.literal, h.text, h.value]
  exact hR.literal

theorem forall₂_map_some {as bs : List Node} (h : List.Forall₂ R as bs) :
    List.Forall₂ (Option.Rel R) (as.map some) (bs.map some) := by
  rw [List.forall₂_map_left_iff, List.forall₂_map_right_iff]
  exact h.imp fun _ _ => .some

theorem getD_related {o o' : Option Node} {a b : Node} (ho : Option.Rel R o o') (h : R a b) :
    R (o.getD a) (o'.getD b) ∧ o.isNone = o'.isNone := by
  cases ho with
  | none => exact ⟨h, rfl⟩
  | some h => exact ⟨h, rfl⟩

theorem binaryNode_related (hR : Congruence R) (l : Level) (loc loc' : Loc) (operator : String)
    {a a' b b' : Node} (ha : R a a') (hb : R b b') :
    R (binaryNode l loc operator a b) (binaryNode l loc' operator a' b') := by
  cases l
  case or | and => exact hR.logicalExpression ha hb
  all_goals exact hR.binaryExpression ha hb

theorem joinOperands_related (hR : Congruence R) (l : Level) {start start' : Position} {a a' : Node}
    {fs fs' : List FurtherOperand} (ha : R a a')
    (hfs : List.Forall₂ (FurtherOperand.Related R) fs fs') :
    R (joinOperands l start a fs) (joinOperands l start' a' fs') := by
  induction hfs generalizing a a' with
  | nil => exact ha
  | cons hf _ ih =>
    rw [joinOperands, joinOperands, hf.operator]
    exact ih (binaryNode_related hR l _ _ _ ha hf.operand)

theorem joinAccesses_related (hR : Congruence R) {start start' : Position} {a a' : Node}
    {as as' : List Access} (ha : R a a') (has : List.Forall₂ (Access.Related R) as as') :
    R (joinAccesses start a as) (joinAccesses start' a' as') := by
  induction has generalizing a a' with
  | nil => exact ha
  | cons hx _ ih =>
    cases hx with
    | member h =>
      rw [joinAccesses, joinAccesses]
      exact ih (hR.memberExpression ha h)
    | call h =>
      rw [joinAccesses, joinAccesses]
      exact ih (hR.callExpression ha h)

theorem FunctionParts.Related.expression (hR : Congruence R) {f g : FunctionParts}
    (h : f.Related R g) (loc loc' : Loc) : R (f.expression loc) (g.expression loc') := by
  rw [FunctionParts.expression, FunctionParts.expression, h.isAsync]
  exact hR.functionExpression h.id h.params h.body

theorem FunctionParts.Related.declaration (hR : Congruence R) {f g : FunctionParts}
    (h : f.Related R g) (loc loc' : Loc) : R (f.declaration loc) (g.declaration loc') := by
  rw [FunctionParts.declaration, FunctionParts.declaration, h.isAsync]
  exact hR.functionDeclaration h.id h.params h.body

theorem FunctionParts.Related.async {f g : FunctionParts} (h : f.Related R g) :
    FunctionParts.Related R { f with isAsync := true } { g with isAsync := true } :=
  ⟨rfl, h.id, h.params, h.body⟩

theorem shorthand_related (hR : Congruence R) (loc loc' : Loc) {key key' : Node}
    {rest rest' : Option Node} (hkey : R key key') (hrest : Option.Rel R rest rest') :
    R (propertyNode loc key (rest.getD key) rest.isNone)
      (propertyNode loc' key' (rest'.getD key') rest'.isNone) := by
  obtain ⟨hvalue, hnone⟩ := getD_related hrest hkey
  rw [hnone]
  exact hR.property hkey hvalue

theorem methodNode_related (hR : Congruence R) (loc loc' : Loc) {key key' : Node}
    {f g : FunctionParts} (hkey : R key key') (h : f.Related R g) :
    R (methodNode loc key f) (methodNode loc' key' g) :=
  hR.property hkey (h.expression hR loc loc')

theorem propertyRest_related (hR : Congruence R) (loc loc' : Loc) {key key' : Node}
    {rest rest' : PropertyRest} (hkey : R key key') :
    rest.Related R rest' →
    R (match rest with
        | .value node => propertyNode loc key node false
        | .method f => methodNode loc key f)
      (match rest' with
        | .value node => propertyNode loc' key' node false
        | .method f => methodNode loc' key' f) := by
  intro hrest
  cases hrest with
  | value h => exact hR.property hkey h
  | method h => exact methodNode_related hR loc loc' hkey h

theorem declaration_related (hR : Congruence R) (loc loc' : Loc) {kind kind' : String}
    {ds ds' : List Node} (hkind : kind = kind') (hds : List.Forall₂ R ds ds') :
    R (.variableDeclaration loc ds kind) (.variableDeclaration loc' ds' kind') :=
  hkind ▸ hR.variableDeclaration hds

theorem operandMeaning_related (l : Level) {a b : CategoryMeaning (.operandOf l)}
    (h : Related R (.operandOf l) a b) :
    R (combine.operandMeaning l a) (combine.operandMeaning l b) := by
  cases l <;> exact h

theorem memberMeaning_related (s : Series) {a b : CategoryMeaning (.memberOf s)}
    (h : Related R (.memberOf s) a b) :
    R (combine.memberMeaning s a) (combine.memberMeaning s b) := by
  cases s <;> exact h

theorem atomNode_related (hR : Congruence R) (a : Atom) {l m : Leaf} (h : l.Same m) :
    R (atomNode a l) (atomNode a m) := by
  cases a
  case name => exact h.identifier hR
  case this => exact hR.thisExpression
  all_goals exact h.literal hR

theorem unaryNode_related (hR : Congruence R) (o : Unary) (loc loc' : Loc)
    {operator operator' : String} {a a' : Node} (ho : operator = operator') (ha : R a a') :
    R (unaryNode o loc operator a) (unaryNode o loc' operator' a') := by
  subst ho
  cases o
  case await => exact hR.awaitExpression ha
  all_goals exact hR.unaryExpression ha

/-! ### Productions -/

/-- **Productions keep congruences**: what a production makes of related values is related, wherever the
tokens stand. -/
theorem combine_related (hR : Congruence R) {n : Nonterminal} (p : Production n)
    (span span' : Option Span) (vs vs' : Values p.parts) (h : vs.Related R vs') :
    Related R n (combine p span vs) (combine p span' vs') := by
  cases p with
  | program =>
    obtain _ | ⟨hitems, _ | _⟩ := h
    exact hR.program hitems
  | noItems => exact .nil
  | moreItems =>
    obtain _ | ⟨hitem, _ | ⟨hitems, _ | _⟩⟩ := h
    exact .cons hitem hitems
  | importItem =>
    obtain _ | ⟨_, _ | ⟨hrest, _ | _⟩⟩ := h
    exact hR.importDeclaration hrest.1 hrest.2
  | exportItem =>
    obtain _ | ⟨_, _ | ⟨_, _ | ⟨hfunction, _ | _⟩⟩⟩ := h
    exact hR.exportDefaultDeclaration (hfunction.declaration hR _ _)
  | statementItem =>
    obtain _ | ⟨hstatement, _ | _⟩ := h
    exact hstatement
  | bareImport =>
    obtain _ | ⟨hsource, _⟩ := h
    exact ⟨.nil, hsource.literal hR⟩
  | boundImport =>
    obtain _ | ⟨hclause, _ | ⟨_, _ | ⟨hsource, _⟩⟩⟩ := h
    exact ⟨hclause, hsource.literal hR⟩
  | defaultClause =>
    obtain _ | ⟨hname, _ | ⟨hmore, _ | _⟩⟩ := h
    exact .cons (hR.importDefaultSpecifier (hname.identifier hR)) hmore
  | groupClause =>
    obtain _ | ⟨hgroup, _ | _⟩ := h
    exact hgroup
  | noImportMore => exact .nil
  | importMore =>
    obtain _ | ⟨_, _ | ⟨hgroup, _ | _⟩⟩ := h
    exact hgroup
  | namedGroup =>
    obtain _ | ⟨_, _ | ⟨hspecifiers, _⟩⟩ := h
    exact hspecifiers
  | namespaceGroup =>
    obtain _ | ⟨_, _ | ⟨_, _ | ⟨hname, _ | _⟩⟩⟩ := h
    exact .cons (hR.importNamespaceSpecifier (hname.identifier hR)) .nil
  | specifier =>
    obtain _ | ⟨hname, _ | ⟨hasName, _ | _⟩⟩ := h
    exact hR.importSpecifier (getD_related hasName (hname.identifier hR)).1 (hname.identifier hR)
  | noAsName => exact .none
  | asName =>
    obtain _ | ⟨_, _ | ⟨hname, _ | _⟩⟩ := h
    exact .some (hname.identifier hR)
  | asyncFunction =>
    obtain _ | ⟨_, _ | ⟨hfunction, _ | _⟩⟩ := h
    exact hfunction.async
  | plainFunction =>
    obtain _ | ⟨hfunction, _ | _⟩ := h
    exact hfunction
  | functionRest =>
    obtain _ | ⟨_, _ | ⟨hfunction, _ | _⟩⟩ := h
    exact hfunction
  | namedFunction =>
    obtain _ | ⟨hname, _ | ⟨hsignature, _ | _⟩⟩ := h
    exact ⟨hsignature.isAsync, .some (hname.identifier hR), hsignature.params, hsignature.body⟩
  | anonymousFunction =>
    obtain _ | ⟨hsignature, _ | _⟩ := h
    exact hsignature
  | signature =>
    obtain _ | ⟨_, _ | ⟨hparameters, _ | ⟨_, _ | ⟨hblock, _ | _⟩⟩⟩⟩ := h
    exact ⟨rfl, .none, hparameters, hblock⟩
  | noParameters => exact .nil
  | parameters =>
    obtain _ | ⟨hpattern, _ | ⟨hmore, _ | _⟩⟩ := h
    exact .cons hpattern hmore
  | noMoreParameters => exact .nil
  | moreParameters =>
    obtain _ | ⟨_, _ | ⟨hpattern, _ | ⟨hmore, _ | _⟩⟩⟩ := h
    exact .cons hpattern hmore
  | block =>
    obtain _ | ⟨_, _ | ⟨hstatements, _⟩⟩ := h
    exact hR.blockStatement hstatements
  | noStatements => exact .nil
  | moreStatements =>
    obtain _ | ⟨hstatement, _ | ⟨hmore, _ | _⟩⟩ := h
    exact .cons hstatement hmore
  | declaration d =>
    obtain _ | ⟨hword, _ | ⟨hdeclarator, _ | ⟨hmore, _⟩⟩⟩ := h
    exact declaration_related hR _ _ hword.text (.cons hdeclarator hmore)
  | conditional =>
    obtain _ | ⟨hstatement, _ | _⟩ := h
    exact hstatement
  | switch =>
    obtain _ | ⟨_, _ | ⟨_, _ | ⟨hdiscriminant, _ | ⟨_, _ | ⟨_, _ | ⟨hcases, _⟩⟩⟩⟩⟩⟩ := h
    exact hR.switchStatement hdiscriminant hcases
  | returns =>
    obtain _ | ⟨_, _ | ⟨hargument, _⟩⟩ := h
    exact hR.returnStatement hargument
  | breaks =>
    obtain _ | ⟨_, _ | ⟨hlabel, _⟩⟩ := h
    exact hR.breakStatement hlabel
  | throws =>
    obtain _ | ⟨_, _ | ⟨hargument, _⟩⟩ := h
    exact hR.throwStatement hargument
  | expression =>
    obtain _ | ⟨hexpression, _⟩ := h
    exact hR.expressionStatement hexpression
  | ifStatement =>
    obtain _ | ⟨_, _ | ⟨_, _ | ⟨htest, _ | ⟨_, _ | ⟨hblock, _ | ⟨hmore, _ | _⟩⟩⟩⟩⟩⟩ := h
    exact hR.ifStatement htest hblock hmore
  | noAlternative => exact .none
  | alternative =>
    obtain _ | ⟨_, _ | ⟨hbody, _ | _⟩⟩ := h
    exact .some hbody
  | elseBlock =>
    obtain _ | ⟨hblock, _ | _⟩ := h
    exact hblock
  | elseIf =>
    obtain _ | ⟨hstatement, _ | _⟩ := h
    exact hstatement
  | noMoreDeclarators => exact .nil
  | moreDeclarators =>
    obtain _ | ⟨_, _ | ⟨hdeclarator, _ | ⟨hmore, _ | _⟩⟩⟩ := h
    exact .cons hdeclarator hmore
  | declarator =>
    obtain _ | ⟨hpattern, _ | ⟨hinit, _ | _⟩⟩ := h
    exact hR.variableDeclarator hpattern hinit
  | noInitializer => exact .none
  | initializer =>
    obtain _ | ⟨_, _ | ⟨hexpression, _ | _⟩⟩ := h
    exact .some hexpression
  | noCases => exact .nil
  | moreCases =>
    obtain _ | ⟨hcase, _ | ⟨hmore, _ | _⟩⟩ := h
    exact .cons hcase hmore
  | testCase =>
    obtain _ | ⟨_, _ | ⟨htest, _ | ⟨_, _ | ⟨hstatements, _ | _⟩⟩⟩⟩ := h
    exact hR.switchCase (.some htest) hstatements
  | defaultCase =>
    obtain _ | ⟨_, _ | ⟨_, _ | ⟨hstatements, _ | _⟩⟩⟩ := h
    exact hR.switchCase .none hstatements
  | noExpression => exact .none
  | someExpression =>
    obtain _ | ⟨hexpression, _ | _⟩ := h
    exact .some hexpression
  | noLabel => exact .none
  | label =>
    obtain _ | ⟨hname, _ | _⟩ := h
    exact .some (hname.identifier hR)
  | namePattern =>
    obtain _ | ⟨hname, _ | _⟩ := h
    exact hname.identifier hR
  | objectPattern =>
    obtain _ | ⟨_, _ | ⟨hproperties, _⟩⟩ := h
    exact hR.objectPattern hproperties
  | arrayPattern =>
    obtain _ | ⟨_, _ | ⟨helements, _⟩⟩ := h
    exact hR.arrayPattern (forall₂_map_some helements)
  | namedPropertyPattern =>
    obtain _ | ⟨hname, _ | ⟨hrest, _ | _⟩⟩ := h
    exact shorthand_related hR _ _ (hname.identifier hR) hrest
  | stringPropertyPattern =>
    obtain _ | ⟨hkey, _ | ⟨_, _ | ⟨hpattern, _ | _⟩⟩⟩ := h
    exact hR.property (hkey.literal hR) hpattern
  | numberPropertyPattern =>
    obtain _ | ⟨hkey, _ | ⟨_, _ | ⟨hpattern, _ | _⟩⟩⟩ := h
    exact hR.property (hkey.literal hR) hpattern
  | shorthandPattern => exact .none
  | renamedPattern =>
    obtain _ | ⟨_, _ | ⟨hpattern, _ | _⟩⟩ := h
    exact .some hpattern
  | binary l =>
    obtain _ | ⟨hoperand, _ | ⟨hmore, _ | _⟩⟩ := h
    exact joinOperands_related hR l (operandMeaning_related l hoperand) hmore
  | noMoreOperands _ => exact .nil
  | @moreOperands l o =>
    obtain _ | ⟨hoperator, _ | ⟨hoperand, _ | ⟨hmore, _ | _⟩⟩⟩ := h
    exact .cons ⟨hoperator.text, operandMeaning_related l hoperand⟩ hmore
  | unary o =>
    obtain _ | ⟨hoperator, _ | ⟨hargument, _ | _⟩⟩ := h
    exact unaryNode_related hR o _ _ hoperator.text hargument
  | operand =>
    obtain _ | ⟨hprimary, _ | ⟨haccesses, _ | _⟩⟩ := h
    exact joinAccesses_related hR hprimary haccesses
  | noAccesses => exact .nil
  | member =>
    obtain _ | ⟨_, _ | ⟨hname, _ | ⟨hmore, _ | _⟩⟩⟩ := h
    exact .cons (.member (hname.identifier hR)) hmore
  | call =>
    obtain _ | ⟨_, _ | ⟨harguments, _ | ⟨_, _ | ⟨hmore, _ | _⟩⟩⟩⟩ := h
    exact .cons (.call harguments) hmore
  | noArguments => exact .nil
  | arguments =>
    obtain _ | ⟨hexpression, _ | ⟨hmore, _ | _⟩⟩ := h
    exact .cons hexpression hmore
  | noMoreArguments => exact .nil
  | moreArguments =>
    obtain _ | ⟨_, _ | ⟨hexpression, _ | ⟨hmore, _ | _⟩⟩⟩ := h
    exact .cons hexpression hmore
  | atom a =>
    obtain _ | ⟨hleaf, _ | _⟩ := h
    exact atomNode_related hR a hleaf
  | object =>
    obtain _ | ⟨_, _ | ⟨hproperties, _⟩⟩ := h
    exact hR.objectExpression hproperties
  | array =>
    obtain _ | ⟨_, _ | ⟨helements, _⟩⟩ := h
    exact hR.arrayExpression (forall₂_map_some helements)
  | functionExpression =>
    obtain _ | ⟨hfunction, _ | _⟩ := h
    exact hfunction.expression hR _ _
  | parentheses =>
    obtain _ | ⟨_, _ | ⟨hexpression, _⟩⟩ := h
    exact hexpression
  | asyncMethod =>
    obtain _ | ⟨_, _ | ⟨hkey, _ | ⟨hsignature, _ | _⟩⟩⟩ := h
    exact methodNode_related hR _ _ hkey hsignature.async
  | plainProperty =>
    obtain _ | ⟨hkey, _ | ⟨hrest, _ | _⟩⟩ := h
    exact propertyRest_related hR _ _ hkey hrest
  | nameKey =>
    obtain _ | ⟨hname, _ | _⟩ := h
    exact hname.identifier hR
  | stringKey =>
    obtain _ | ⟨hkey, _ | _⟩ := h
    exact hkey.literal hR
  | numberKey =>
    obtain _ | ⟨hkey, _ | _⟩ := h
    exact hkey.literal hR
  | valueProperty =>
    obtain _ | ⟨_, _ | ⟨hexpression, _ | _⟩⟩ := h
    exact .value hexpression
  | methodProperty =>
    obtain _ | ⟨hsignature, _ | _⟩ := h
    exact .method hsignature
  | noMembers _ => exact .nil
  | members s =>
    obtain _ | ⟨hmember, _ | ⟨hrest, _ | _⟩⟩ := h
    exact .cons (memberMeaning_related s hmember) hrest
  | noMoreMembers _ => exact .nil
  | moreMembers s =>
    obtain _ | ⟨_, _ | ⟨hmembers, _ | _⟩⟩ := h
    exact hmembers

end Nodes

/-! ### Derivations on other tokens -/

/-- A token without its positions, and the place after it. -/
def seat (x : Token × Place) : Word × Place := (x.1.word, x.2)

theorem Token.value_eq_of_word_eq {t u : Token} (h : t.word = u.word) : t.value = u.value := by
  obtain ⟨hterminal, htext⟩ := Word.mk.inj h
  rw [Token.value, Token.value, hterminal, htext]

mutual

/-- **Derivations are planted on other tokens**: on tokens of the same words at the same places a
symbol has a derivation with a value that is related to the one it had. -/
theorem Tree.exists_planted {s : Symbol} (tree : Tree s) {ls : List (Token × Place)}
    (h : ls.map seat = tree.leaves.map seat) :
    ∃ tree' : Tree s, tree'.leaves = ls ∧ ∀ v, tree.value = .ok v → ∃ v', tree'.value = .ok v' ∧
      ∀ R, Congruence R → SymbolRelated R s v.meaning v'.meaning := by
  cases tree with
  | leaf token belongs =>
    obtain ⟨⟨token', place⟩, rfl, hseat⟩ := List.map_eq_singleton_iff.mp h
    obtain ⟨hword, rfl⟩ := Prod.mk.inj hseat
    have hterminal := congrArg Word.terminal hword
    refine ⟨.leaf token' (hterminal.trans belongs), rfl, fun v hv => ?_⟩
    obtain ⟨value, hvalue, rfl⟩ := Tree.value_leaf_eq_ok_iff.mp hv
    refine ⟨_, Tree.value_leaf_eq_ok_iff.mpr ⟨value, ?_, rfl⟩, fun R _ =>
      ⟨(congrArg Word.text hword).symm, rfl⟩⟩
    rw [Token.value_eq_of_word_eq hword, hvalue]
  | node p children =>
    obtain ⟨forest, hleaves, hvalues⟩ := children.exists_planted h
    refine ⟨.node p forest, hleaves, fun v hv => ?_⟩
    obtain ⟨vs, hchildren, rfl⟩ := Tree.value_node_eq_ok_iff.mp hv
    obtain ⟨vs', hvs', hrelated⟩ := hvalues vs hchildren
    exact ⟨_, Tree.value_node_eq_ok_iff.mpr ⟨vs', hvs', rfl⟩, fun R hR =>
      combine_related hR p _ _ vs vs' (hrelated R hR)⟩
termination_by structural tree

theorem Forest.exists_planted {ss : List Symbol} (forest : Forest ss) {ls : List (Token × Place)}
    (h : ls.map seat = forest.leaves.map seat) :
    ∃ forest' : Forest ss, forest'.leaves = ls ∧ ∀ vs, forest.values = .ok vs →
      ∃ vs', forest'.values = .ok vs' ∧ ∀ R, Congruence R → vs.Related R vs' := by
  cases forest with
  | nil =>
    obtain rfl := List.map_eq_nil_iff.mp h
    refine ⟨.nil, rfl, fun vs hvs => ?_⟩
    cases hvs
    exact ⟨.nil, rfl, fun _ _ => .nil⟩
  | cons tree more =>
    rw [Forest.leaves, List.map_append] at h
    obtain ⟨first, rest, rfl, hfirst, hrest⟩ := List.map_eq_append_iff.mp h
    obtain ⟨tree', rfl, hvalue⟩ := tree.exists_planted hfirst
    obtain ⟨more', rfl, hvalues⟩ := more.exists_planted hrest
    refine ⟨.cons tree' more', rfl, fun vs hvs => ?_⟩
    obtain ⟨v, us, htree, hmore, rfl⟩ := Forest.values_cons_eq_ok_iff.mp hvs
    obtain ⟨v', hv', hfirst⟩ := hvalue v htree
    obtain ⟨us', hus', hrest⟩ := hvalues us hmore
    exact ⟨_, Forest.values_cons_eq_ok_iff.mpr ⟨v', us', hv', hus', rfl⟩, fun R hR =>
      .cons (hfirst R hR) (hrest R hR)⟩
termination_by structural forest

end

end RhoScript.Source
