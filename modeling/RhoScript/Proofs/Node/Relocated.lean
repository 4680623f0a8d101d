import Mathlib.Data.List.Forall2
import RhoScript.Node

/-!
# Trees that differ in locations only

`Relocated a b` says that the trees are equal but for the locations of their nodes.
-/

namespace RhoScript

namespace Node

/-- The trees are equal but for the locations of their nodes. -/
inductive Relocated : Node → Node → Prop
  | program {loc loc' : Loc} {body body' : List Node} :
      List.Forall₂ Relocated body body' →
      Relocated (.program loc body) (.program loc' body')
  | importDeclaration {loc loc' : Loc} {specifiers specifiers' : List Node}
      {source source' : Node} :
      List.Forall₂ Relocated specifiers specifiers' → Relocated source source' →
      Relocated (.importDeclaration loc specifiers source)
        (.importDeclaration loc' specifiers' source')
  | importDefaultSpecifier {loc loc' : Loc} {binding binding' : Node} :
      Relocated binding binding' →
      Relocated (.importDefaultSpecifier loc binding) (.importDefaultSpecifier loc' binding')
  | importSpecifier {loc loc' : Loc} {binding binding' imported imported' : Node} :
      Relocated binding binding' → Relocated imported imported' →
      Relocated (.importSpecifier loc binding imported) (.importSpecifier loc' binding' imported')
  | importNamespaceSpecifier {loc loc' : Loc} {binding binding' : Node} :
      Relocated binding binding' →
      Relocated (.importNamespaceSpecifier loc binding) (.importNamespaceSpecifier loc' binding')
  | exportDefaultDeclaration {loc loc' : Loc} {declaration declaration' : Node} :
      Relocated declaration declaration' →
      Relocated (.exportDefaultDeclaration loc declaration)
        (.exportDefaultDeclaration loc' declaration')
  | functionDeclaration {loc loc' : Loc} {id id' : Option Node} {params params' : List Node}
      {body body' : Node} {isAsync : Bool} :
      Option.Rel Relocated id id' → List.Forall₂ Relocated params params' → Relocated body body' →
      Relocated (.functionDeclaration loc id params body isAsync)
        (.functionDeclaration loc' id' params' body' isAsync)
  | functionExpression {loc loc' : Loc} {id id' : Option Node} {params params' : List Node}
      {body body' : Node} {isAsync : Bool} :
      Option.Rel Relocated id id' → List.Forall₂ Relocated params params' → Relocated body body' →
      Relocated (.functionExpression loc id params body isAsync)
        (.functionExpression loc' id' params' body' isAsync)
  | blockStatement {loc loc' : Loc} {body body' : List Node} :
      List.Forall₂ Relocated body body' →
      Relocated (.blockStatement loc body) (.blockStatement loc' body')
  | variableDeclaration {loc loc' : Loc} {declarations declarations' : List Node} {kind : String} :
      List.Forall₂ Relocated declarations declarations' →
      Relocated (.variableDeclaration loc declarations kind)
        (.variableDeclaration loc' declarations' kind)
  | variableDeclarator {loc loc' : Loc} {id id' : Node} {init init' : Option Node} :
      Relocated id id' → Option.Rel Relocated init init' →
      Relocated (.variableDeclarator loc id init) (.variableDeclarator loc' id' init')
  | expressionStatement {loc loc' : Loc} {expression expression' : Node} :
      Relocated expression expression' →
      Relocated (.expressionStatement loc expression) (.expressionStatement loc' expression')
  | ifStatement {loc loc' : Loc} {test test' consequent consequent' : Node}
      {alternate alternate' : Option Node} :
      Relocated test test' → Relocated consequent consequent' →
      Option.Rel Relocated alternate alternate' →
      Relocated (.ifStatement loc test consequent alternate)
        (.ifStatement loc' test' consequent' alternate')
  | switchStatement {loc loc' : Loc} {discriminant discriminant' : Node}
      {cases cases' : List Node} :
      Relocated discriminant discriminant' → List.Forall₂ Relocated cases cases' →
      Relocated (.switchStatement loc discriminant cases)
        (.switchStatement loc' discriminant' cases')
  | switchCase {loc loc' : Loc} {test test' : Option Node} {consequent consequent' : List Node} :
      Option.Rel Relocated test test' → List.Forall₂ Relocated consequent consequent' →
      Relocated (.switchCase loc test consequent) (.switchCase loc' test' consequent')
  | returnStatement {loc loc' : Loc} {argument argument' : Option Node} :
      Option.Rel Relocated argument argument' →
      Relocated (.returnStatement loc argument) (.returnStatement loc' argument')
  | breakStatement {loc loc' : Loc} {label label' : Option Node} :
      Option.Rel Relocated label label' →
      Relocated (.breakStatement loc label) (.breakStatement loc' label')
  | throwStatement {loc loc' : Loc} {argument argument' : Node} :
      Relocated argument argument' →
      Relocated (.throwStatement loc argument) (.throwStatement loc' argument')
  | callExpression {loc loc' : Loc} {callee callee' : Node} {arguments arguments' : List Node} :
      Relocated callee callee' → List.Forall₂ Relocated arguments arguments' →
      Relocated (.callExpression loc callee arguments) (.callExpression loc' callee' arguments')
  | memberExpression {loc loc' : Loc} {object object' property property' : Node} {computed : Bool} :
      Relocated object object' → Relocated property property' →
      Relocated (.memberExpression loc object property computed)
        (.memberExpression loc' object' property' computed)
  | awaitExpression {loc loc' : Loc} {argument argument' : Node} :
      Relocated argument argument' →
      Relocated (.awaitExpression loc argument) (.awaitExpression loc' argument')
  | binaryExpression {loc loc' : Loc} {operator : String} {left left' right right' : Node} :
      Relocated left left' → Relocated right right' →
      Relocated (.binaryExpression loc operator left right)
        (.binaryExpression loc' operator left' right')
  | logicalExpression {loc loc' : Loc} {operator : String} {left left' right right' : Node} :
      Relocated left left' → Relocated right right' →
      Relocated (.logicalExpression loc operator left right)
        (.logicalExpression loc' operator left' right')
  | unaryExpression {loc loc' : Loc} {operator : String} {argument argument' : Node}
      {isPrefix : Bool} :
      Relocated argument argument' →
      Relocated (.unaryExpression loc operator argument isPrefix)
        (.unaryExpression loc' operator argument' isPrefix)
  | thisExpression {loc loc' : Loc} :
      Relocated (.thisExpression loc) (.thisExpression loc')
  | identifier {loc loc' : Loc} {name : String} :
      Relocated (.identifier loc name) (.identifier loc' name)
  | literal {loc loc' : Loc} {value : Option Ground} {raw : Option String} :
      Relocated (.literal loc value raw) (.literal loc' value raw)
  | objectExpression {loc loc' : Loc} {properties properties' : List Node} :
      List.Forall₂ Relocated properties properties' →
      Relocated (.objectExpression loc properties) (.objectExpression loc' properties')
  | property {loc loc' : Loc} {key key' value value' : Node} {kind : String}
      {method shorthand computed : Bool} :
      Relocated key key' → Relocated value value' →
      Relocated (.property loc key value kind method shorthand computed)
        (.property loc' key' value' kind method shorthand computed)
  | arrayExpression {loc loc' : Loc} {elements elements' : List (Option Node)} :
      List.Forall₂ (Option.Rel Relocated) elements elements' →
      Relocated (.arrayExpression loc elements) (.arrayExpression loc' elements')
  | objectPattern {loc loc' : Loc} {properties properties' : List Node} :
      List.Forall₂ Relocated properties properties' →
      Relocated (.objectPattern loc properties) (.objectPattern loc' properties')
  | arrayPattern {loc loc' : Loc} {elements elements' : List (Option Node)} :
      List.Forall₂ (Option.Rel Relocated) elements elements' →
      Relocated (.arrayPattern loc elements) (.arrayPattern loc' elements')
  | unsupported {loc loc' : Loc} {type : String} :
      Relocated (.unsupported loc type) (.unsupported loc' type)

theorem Relocated.tag_eq {a b : Node} (h : Relocated a b) : a.tag = b.tag := by
  cases h <;> rfl

theorem Relocated.type_eq {a b : Node} (h : Relocated a b) : a.type = b.type := by
  cases h <;> rfl

end Node

end RhoScript
