import Mathlib.Data.List.Forall2
import RhoScript.Proofs.Node.Relocated

/-!
# Relations that nodes keep

A congruence is a relation of trees that relates nodes of one form if it relates their parts, wherever
the nodes are located. A node of an unknown type is of no form. The least congruence is `Relocated`, but
for these. A property of trees is a relation that does not look at the second tree.
-/

namespace RhoScript.Node

/-- The relation is kept by all forms of nodes, whatever their locations. -/
structure Congruence (R : Node → Node → Prop) : Prop where
  program {loc loc' : Loc} {body body' : List Node} :
    List.Forall₂ R body body' → R (.program loc body) (.program loc' body')
  importDeclaration {loc loc' : Loc} {specifiers specifiers' : List Node} {source source' : Node} :
    List.Forall₂ R specifiers specifiers' → R source source' →
    R (.importDeclaration loc specifiers source) (.importDeclaration loc' specifiers' source')
  importDefaultSpecifier {loc loc' : Loc} {binding binding' : Node} :
    R binding binding' →
    R (.importDefaultSpecifier loc binding) (.importDefaultSpecifier loc' binding')
  importSpecifier {loc loc' : Loc} {binding binding' imported imported' : Node} :
    R binding binding' → R imported imported' →
    R (.importSpecifier loc binding imported) (.importSpecifier loc' binding' imported')
  importNamespaceSpecifier {loc loc' : Loc} {binding binding' : Node} :
    R binding binding' →
    R (.importNamespaceSpecifier loc binding) (.importNamespaceSpecifier loc' binding')
  exportDefaultDeclaration {loc loc' : Loc} {declaration declaration' : Node} :
    R declaration declaration' →
    R (.exportDefaultDeclaration loc declaration) (.exportDefaultDeclaration loc' declaration')
  functionDeclaration {loc loc' : Loc} {id id' : Option Node} {params params' : List Node}
      {body body' : Node} {isAsync : Bool} :
    Option.Rel R id id' → List.Forall₂ R params params' → R body body' →
    R (.functionDeclaration loc id params body isAsync)
      (.functionDeclaration loc' id' params' body' isAsync)
  functionExpression {loc loc' : Loc} {id id' : Option Node} {params params' : List Node}
      {body body' : Node} {isAsync : Bool} :
    Option.Rel R id id' → List.Forall₂ R params params' → R body body' →
    R (.functionExpression loc id params body isAsync)
      (.functionExpression loc' id' params' body' isAsync)
  blockStatement {loc loc' : Loc} {body body' : List Node} :
    List.Forall₂ R body body' → R (.blockStatement loc body) (.blockStatement loc' body')
  variableDeclaration {loc loc' : Loc} {declarations declarations' : List Node} {kind : String} :
    List.Forall₂ R declarations declarations' →
    R (.variableDeclaration loc declarations kind) (.variableDeclaration loc' declarations' kind)
  variableDeclarator {loc loc' : Loc} {id id' : Node} {init init' : Option Node} :
    R id id' → Option.Rel R init init' →
    R (.variableDeclarator loc id init) (.variableDeclarator loc' id' init')
  expressionStatement {loc loc' : Loc} {expression expression' : Node} :
    R expression expression' →
    R (.expressionStatement loc expression) (.expressionStatement loc' expression')
  ifStatement {loc loc' : Loc} {test test' consequent consequent' : Node}
      {alternate alternate' : Option Node} :
    R test test' → R consequent consequent' → Option.Rel R alternate alternate' →
    R (.ifStatement loc test consequent alternate) (.ifStatement loc' test' consequent' alternate')
  switchStatement {loc loc' : Loc} {discriminant discriminant' : Node} {cases cases' : List Node} :
    R discriminant discriminant' → List.Forall₂ R cases cases' →
    R (.switchStatement loc discriminant cases) (.switchStatement loc' discriminant' cases')
  switchCase {loc loc' : Loc} {test test' : Option Node} {consequent consequent' : List Node} :
    Option.Rel R test test' → List.Forall₂ R consequent consequent' →
    R (.switchCase loc test consequent) (.switchCase loc' test' consequent')
  returnStatement {loc loc' : Loc} {argument argument' : Option Node} :
    Option.Rel R argument argument' →
    R (.returnStatement loc argument) (.returnStatement loc' argument')
  breakStatement {loc loc' : Loc} {label label' : Option Node} :
    Option.Rel R label label' → R (.breakStatement loc label) (.breakStatement loc' label')
  throwStatement {loc loc' : Loc} {argument argument' : Node} :
    R argument argument' → R (.throwStatement loc argument) (.throwStatement loc' argument')
  callExpression {loc loc' : Loc} {callee callee' : Node} {arguments arguments' : List Node} :
    R callee callee' → List.Forall₂ R arguments arguments' →
    R (.callExpression loc callee arguments) (.callExpression loc' callee' arguments')
  memberExpression {loc loc' : Loc} {object object' property property' : Node} {computed : Bool} :
    R object object' → R property property' →
    R (.memberExpression loc object property computed)
      (.memberExpression loc' object' property' computed)
  awaitExpression {loc loc' : Loc} {argument argument' : Node} :
    R argument argument' → R (.awaitExpression loc argument) (.awaitExpression loc' argument')
  binaryExpression {loc loc' : Loc} {operator : String} {left left' right right' : Node} :
    R left left' → R right right' →
    R (.binaryExpression loc operator left right) (.binaryExpression loc' operator left' right')
  logicalExpression {loc loc' : Loc} {operator : String} {left left' right right' : Node} :
    R left left' → R right right' →
    R (.logicalExpression loc operator left right) (.logicalExpression loc' operator left' right')
  unaryExpression {loc loc' : Loc} {operator : String} {argument argument' : Node}
      {isPrefix : Bool} :
    R argument argument' →
    R (.unaryExpression loc operator argument isPrefix)
      (.unaryExpression loc' operator argument' isPrefix)
  thisExpression {loc loc' : Loc} : R (.thisExpression loc) (.thisExpression loc')
  identifier {loc loc' : Loc} {name : String} : R (.identifier loc name) (.identifier loc' name)
  literal {loc loc' : Loc} {value : Option Ground} {raw : Option String} :
    R (.literal loc value raw) (.literal loc' value raw)
  objectExpression {loc loc' : Loc} {properties properties' : List Node} :
    List.Forall₂ R properties properties' →
    R (.objectExpression loc properties) (.objectExpression loc' properties')
  property {loc loc' : Loc} {key key' value value' : Node} {kind : String}
      {method shorthand computed : Bool} :
    R key key' → R value value' →
    R (.property loc key value kind method shorthand computed)
      (.property loc' key' value' kind method shorthand computed)
  arrayExpression {loc loc' : Loc} {elements elements' : List (Option Node)} :
    List.Forall₂ (Option.Rel R) elements elements' →
    R (.arrayExpression loc elements) (.arrayExpression loc' elements')
  objectPattern {loc loc' : Loc} {properties properties' : List Node} :
    List.Forall₂ R properties properties' →
    R (.objectPattern loc properties) (.objectPattern loc' properties')
  arrayPattern {loc loc' : Loc} {elements elements' : List (Option Node)} :
    List.Forall₂ (Option.Rel R) elements elements' →
    R (.arrayPattern loc elements) (.arrayPattern loc' elements')

theorem congruence_relocated : Congruence Relocated := by
  constructor
  all_goals
    intros
    constructor
    all_goals assumption

/-! ### Properties of the first tree -/

theorem forall_of_forall₂ {P : Node → Prop} {as bs : List Node}
    (h : List.Forall₂ (fun a _ => P a) as bs) : ∀ a ∈ as, P a := by
  induction h with
  | nil => exact nofun
  | cons ha _ ih => exact List.forall_mem_cons.mpr ⟨ha, ih⟩

theorem forall_of_optionRel {P : Node → Prop} {o o' : Option Node}
    (h : Option.Rel (fun a _ => P a) o o') : ∀ a ∈ o.toList, P a := by
  cases h with
  | none => exact nofun
  | some ha => simpa using ha

theorem forall_of_elements {P : Node → Prop} {es es' : List (Option Node)}
    (h : List.Forall₂ (Option.Rel fun a _ => P a) es es') : ∀ a ∈ es.filterMap id, P a := by
  induction h with
  | nil => exact nofun
  | cons ho _ ih =>
    cases ho with
    | none => exact ih
    | some ha => exact List.forall_mem_cons.mpr ⟨ha, ih⟩

end RhoScript.Node
