import RhoScript.Proofs.Source.Parametricity

/-!
# Syntax trees without locations

The bare form of a syntax tree has no locations and no texts of literals. To have equal bare forms is a
congruence (`congruence_bareEq`). So what a production makes of the values of its parts has a bare form
that only depends on the bare forms of these (`combine_same`): where tokens stand matters for the
locations in a syntax tree, and for nothing else.
-/

namespace RhoScript

namespace Node

mutual

/-- The node without locations and without the texts of its literals. -/
def bare : Node → Node
  | .program _ body => .program none (bareAll body)
  | .importDeclaration _ specifiers source => .importDeclaration none (bareAll specifiers) source.bare
  | .importDefaultSpecifier _ binding => .importDefaultSpecifier none binding.bare
  | .importSpecifier _ binding imported => .importSpecifier none binding.bare imported.bare
  | .importNamespaceSpecifier _ binding => .importNamespaceSpecifier none binding.bare
  | .exportDefaultDeclaration _ declaration => .exportDefaultDeclaration none declaration.bare
  | .functionDeclaration _ id params body isAsync =>
    .functionDeclaration none (bareOption id) (bareAll params) body.bare isAsync
  | .functionExpression _ id params body isAsync =>
    .functionExpression none (bareOption id) (bareAll params) body.bare isAsync
  | .blockStatement _ body => .blockStatement none (bareAll body)
  | .variableDeclaration _ declarations kind => .variableDeclaration none (bareAll declarations) kind
  | .variableDeclarator _ id init => .variableDeclarator none id.bare (bareOption init)
  | .expressionStatement _ expression => .expressionStatement none expression.bare
  | .ifStatement _ test consequent alternate =>
    .ifStatement none test.bare consequent.bare (bareOption alternate)
  | .switchStatement _ discriminant cases => .switchStatement none discriminant.bare (bareAll cases)
  | .switchCase _ test consequent => .switchCase none (bareOption test) (bareAll consequent)
  | .returnStatement _ argument => .returnStatement none (bareOption argument)
  | .breakStatement _ label => .breakStatement none (bareOption label)
  | .throwStatement _ argument => .throwStatement none argument.bare
  | .callExpression _ callee arguments => .callExpression none callee.bare (bareAll arguments)
  | .memberExpression _ object member computed =>
    .memberExpression none object.bare member.bare computed
  | .awaitExpression _ argument => .awaitExpression none argument.bare
  | .binaryExpression _ operator left right => .binaryExpression none operator left.bare right.bare
  | .logicalExpression _ operator left right => .logicalExpression none operator left.bare right.bare
  | .unaryExpression _ operator argument isPrefix =>
    .unaryExpression none operator argument.bare isPrefix
  | .thisExpression _ => .thisExpression none
  | .identifier _ name => .identifier none name
  | .literal _ value _ => .literal none value none
  | .objectExpression _ properties => .objectExpression none (bareAll properties)
  | .property _ key value kind method shorthand computed =>
    .property none key.bare value.bare kind method shorthand computed
  | .arrayExpression _ elements => .arrayExpression none (bareElements elements)
  | .objectPattern _ properties => .objectPattern none (bareAll properties)
  | .arrayPattern _ elements => .arrayPattern none (bareElements elements)
  | .unsupported _ type => .unsupported none type
termination_by structural n => n

/-- The bare forms of nodes. -/
def bareAll : List Node → List Node
  | [] => []
  | n :: rest => n.bare :: bareAll rest
termination_by structural ns => ns

/-- The bare form of a node that may be missing. -/
def bareOption : Option Node → Option Node
  | none => none
  | some n => some n.bare
termination_by structural o => o

/-- The bare forms of nodes that may be missing. -/
def bareElements : List (Option Node) → List (Option Node)
  | [] => []
  | o :: rest => bareOption o :: bareElements rest
termination_by structural os => os

end

theorem bareAll_eq (ns : List Node) : bareAll ns = ns.map bare := by
  induction ns with
  | nil => rfl
  | cons n rest ih => rw [bareAll, ih, List.map_cons]

theorem bareElements_eq (es : List (Option Node)) : bareElements es = es.map bareOption := by
  induction es with
  | nil => rfl
  | cons e rest ih => rw [bareElements, ih, List.map_cons]

end Node

namespace Source

open Node

/-! ### What categories contribute -/

/-- What a function is made of, without locations. -/
def FunctionParts.bare (f : FunctionParts) : FunctionParts where
  isAsync := f.isAsync
  id := bareOption f.id
  params := bareAll f.params
  body := f.body.bare

/-- An operator with its right operand, without locations. -/
def FurtherOperand.bare (f : FurtherOperand) : FurtherOperand := ⟨f.operator, f.operand.bare, default⟩

/-- A member access or a call, without locations. -/
def Access.bare : Access → Access
  | .member name _ => .member name.bare default
  | .call arguments _ => .call (bareAll arguments) default

/-- What follows the key of a property, without locations. -/
def PropertyRest.bare : PropertyRest → PropertyRest
  | .value node => .value node.bare
  | .method f => .method f.bare

/-- What a category contributes, without locations. -/
def bareMeaning : (n : Nonterminal) → CategoryMeaning n → CategoryMeaning n
  | .items, ns | .importClause, ns | .importMore, ns | .importGroup, ns | .parameters, ns
  | .moreParameters, ns | .statements, ns | .moreDeclarators, ns | .cases, ns | .arguments, ns
  | .moreArguments, ns | .series _, ns | .seriesRest _, ns => bareAll ns
  | .importRest, rest => (bareAll rest.1, rest.2.bare)
  | .asName, o | .alternative, o | .initializer, o | .optionalExpression, o | .optionalLabel, o
  | .propertyPatternRest, o => bareOption o
  | .function, f | .functionRest, f | .functionNamed, f | .signature, f => f.bare
  | .binaryRest _, fs => fs.map FurtherOperand.bare
  | .accesses, as => as.map Access.bare
  | .propertyRest, rest => rest.bare
  | .program, n | .item, n | .specifier, n | .block, n | .statement, n | .ifStatement, n
  | .elseBody, n | .declarator, n | .case, n | .pattern, n | .propertyPattern, n | .binary _, n
  | .unary, n | .primary, n | .property, n | .propertyKey, n => n.bare

/-- Symbols contribute the same, apart from locations. -/
def Same : (s : Symbol) → Meaning s → Meaning s → Prop
  | .tok _ _, l, m => l.Same m
  | .sub n, a, b => bareMeaning n a = bareMeaning n b

/-- Values in a row are the same, apart from locations. -/
inductive Values.Same : {ss : List Symbol} → Values ss → Values ss → Prop
  | nil : Values.Same .nil .nil
  | cons {s : Symbol} {rest : List Symbol} {first first' : Value s} {more more' : Values rest} :
      Source.Same s first.meaning first'.meaning → Values.Same more more' →
      Values.Same (.cons first more) (.cons first' more')

/-! ### Bare forms as a congruence -/

/-- The bare forms are equal. -/
abbrev BareEq (a b : Node) : Prop := a.bare = b.bare

/-- Lists are related member by member if their images are equal. -/
theorem forall₂_iff_map_eq {α β : Type} {R : α → α → Prop} {f : α → β}
    (h : ∀ a b, R a b ↔ f a = f b) {as bs : List α} :
    List.Forall₂ R as bs ↔ as.map f = bs.map f := by
  rw [← List.forall₂_eq_eq_eq, List.forall₂_map_left_iff, List.forall₂_map_right_iff]
  exact ⟨fun hs => hs.imp fun a b => (h a b).mp, fun hs => hs.imp fun a b => (h a b).mpr⟩

theorem forall₂_bareEq_iff {as bs : List Node} :
    List.Forall₂ BareEq as bs ↔ bareAll as = bareAll bs := by
  rw [bareAll_eq, bareAll_eq]
  exact forall₂_iff_map_eq fun _ _ => Iff.rfl

theorem optionRel_bareEq_iff (o o' : Option Node) :
    Option.Rel BareEq o o' ↔ bareOption o = bareOption o' := by
  cases o <;> cases o' <;> simp [bareOption]

theorem forall₂_elements_iff {es es' : List (Option Node)} :
    List.Forall₂ (Option.Rel BareEq) es es' ↔ bareElements es = bareElements es' := by
  rw [bareElements_eq, bareElements_eq]
  exact forall₂_iff_map_eq optionRel_bareEq_iff

theorem congruence_bareEq : Congruence BareEq := by
  constructor
  all_goals
    intros
    simp_all only [BareEq, bare, forall₂_bareEq_iff, optionRel_bareEq_iff, forall₂_elements_iff]

/-! ### What categories contribute, related -/

theorem FunctionParts.related_iff {f g : FunctionParts} : f.Related BareEq g ↔ f.bare = g.bare := by
  constructor
  · rintro ⟨hasync, hid, hparams, hbody⟩
    simp [FunctionParts.bare, hasync, (optionRel_bareEq_iff _ _).mp hid, forall₂_bareEq_iff.mp hparams, hbody]
  · intro h
    simp only [FunctionParts.bare, FunctionParts.mk.injEq] at h
    exact ⟨h.1, (optionRel_bareEq_iff _ _).mpr h.2.1, forall₂_bareEq_iff.mpr h.2.2.1, h.2.2.2⟩

theorem FurtherOperand.related_iff (f g : FurtherOperand) :
    f.Related BareEq g ↔ f.bare = g.bare := by
  constructor
  · rintro ⟨hoperator, hoperand⟩
    rw [FurtherOperand.bare, FurtherOperand.bare, hoperator, hoperand]
  · intro h
    simp only [FurtherOperand.bare, FurtherOperand.mk.injEq] at h
    exact ⟨h.1, h.2.1⟩

theorem Access.related_iff (a b : Access) : a.Related BareEq b ↔ a.bare = b.bare := by
  constructor
  · intro h
    cases h with
    | member h => rw [Access.bare, Access.bare, h]
    | call h => rw [Access.bare, Access.bare, forall₂_bareEq_iff.mp h]
  · intro h
    cases a <;> cases b <;> simp only [Access.bare, Access.member.injEq, Access.call.injEq, and_true,
      reduceCtorEq] at h
    · exact .member h
    · exact .call (forall₂_bareEq_iff.mpr h)

theorem PropertyRest.related_iff {r s : PropertyRest} : r.Related BareEq s ↔ r.bare = s.bare := by
  constructor
  · intro h
    cases h with
    | value h => rw [PropertyRest.bare, PropertyRest.bare, h]
    | method h => rw [PropertyRest.bare, PropertyRest.bare, FunctionParts.related_iff.mp h]
  · intro h
    cases r <;> cases s <;> simp only [PropertyRest.bare, PropertyRest.value.injEq,
      PropertyRest.method.injEq, reduceCtorEq] at h
    · exact .value h
    · exact .method (FunctionParts.related_iff.mpr h)

/-- What a category contributes is related by equal bare forms if it has the same bare form. -/
theorem related_iff {n : Nonterminal} {a b : CategoryMeaning n} :
    Related BareEq n a b ↔ bareMeaning n a = bareMeaning n b := by
  cases n
  case importRest =>
    rw [bareMeaning, bareMeaning, Prod.mk.injEq, ← forall₂_bareEq_iff]
    exact Iff.rfl
  case asName | alternative | initializer | optionalExpression | optionalLabel
      | propertyPatternRest => exact optionRel_bareEq_iff a b
  case function | functionRest | functionNamed | signature => exact FunctionParts.related_iff
  case binaryRest => exact forall₂_iff_map_eq FurtherOperand.related_iff
  case accesses => exact forall₂_iff_map_eq Access.related_iff
  case propertyRest => exact PropertyRest.related_iff
  case items | importClause | importMore | importGroup | parameters | moreParameters | statements
      | moreDeclarators | cases | arguments | moreArguments | series | seriesRest =>
    exact forall₂_bareEq_iff
  all_goals exact Iff.rfl

theorem symbolRelated_iff {s : Symbol} {a b : Meaning s} :
    SymbolRelated BareEq s a b ↔ Same s a b := by
  cases s with
  | tok t place => exact Iff.rfl
  | sub n => exact related_iff

theorem Values.Same.related {ss : List Symbol} {vs vs' : Values ss} (h : vs.Same vs') :
    vs.Related BareEq vs' := by
  induction h with
  | nil => exact .nil
  | cons h _ ih => exact .cons (symbolRelated_iff.mpr h) ih

/-- **Locations do not matter**: what a production makes of its parts has a bare form that depends on
those of the parts. -/
theorem combine_same {n : Nonterminal} (p : Production n) (span span' : Option Span)
    (vs vs' : Values p.parts) (h : vs.Same vs') :
    bareMeaning n (combine p span vs) = bareMeaning n (combine p span' vs') :=
  related_iff.mp (combine_related congruence_bareEq p span span' vs vs' h.related)

/-! ### Nodes -/

theorem bareAll_cons {a b : Node} {as bs : List Node} (h : a.bare = b.bare)
    (hs : bareAll as = bareAll bs) : bareAll (a :: as) = bareAll (b :: bs) := by
  rw [bareAll, bareAll, h, hs]

theorem binaryNode_same (l : Level) {loc loc' : Loc} {operator : String} {a a' b b' : Node}
    (ha : a.bare = a'.bare) (hb : b.bare = b'.bare) :
    (binaryNode l loc operator a b).bare = (binaryNode l loc' operator a' b').bare :=
  binaryNode_related congruence_bareEq l loc loc' operator ha hb

theorem joinOperands_same (l : Level) {start start' : Position} {a a' : Node}
    {fs fs' : List FurtherOperand} (ha : a.bare = a'.bare)
    (hfs : fs.map FurtherOperand.bare = fs'.map FurtherOperand.bare) :
    (joinOperands l start a fs).bare = (joinOperands l start' a' fs').bare :=
  joinOperands_related congruence_bareEq l ha
    ((forall₂_iff_map_eq FurtherOperand.related_iff).mpr hfs)

theorem joinAccesses_same {start start' : Position} {a a' : Node} {as as' : List Access}
    (ha : a.bare = a'.bare) (has : as.map Access.bare = as'.map Access.bare) :
    (joinAccesses start a as).bare = (joinAccesses start' a' as').bare :=
  joinAccesses_related congruence_bareEq ha
    ((forall₂_iff_map_eq Access.related_iff).mpr has)

theorem propertyNode_same (loc loc' : Loc) {key key' value value' : Node} (hkey : key.bare = key'.bare)
    (hvalue : value.bare = value'.bare) (shorthand : Bool) :
    (propertyNode loc key value shorthand).bare = (propertyNode loc' key' value' shorthand).bare :=
  congruence_bareEq.property hkey hvalue

end Source

end RhoScript
