import RhoScript.Ground
import RhoScript.Diagnostic

/-!
# Syntax trees

The nodes follow the ESTree vocabulary for ECMAScript, as far as the compiler knows it. A tree that
comes from a JSON document may have any node at any place, so the type does not say which kinds may
stand where. A kind outside the vocabulary keeps only its name.
-/

namespace RhoScript

/-- Where a node stands, if that is known. -/
abbrev Loc := Option SourceLocation

/-- A node of a syntax tree. -/
inductive Node where
  /-- A whole module. -/
  | program (loc : Loc) (body : List Node)
  /-- An import of specifiers from a source. -/
  | importDeclaration (loc : Loc) (specifiers : List Node) (source : Node)
  /-- The default export under a local name. -/
  | importDefaultSpecifier (loc : Loc) (binding : Node)
  /-- A named export under a local name. -/
  | importSpecifier (loc : Loc) (binding imported : Node)
  /-- All exports together under a local name. -/
  | importNamespaceSpecifier (loc : Loc) (binding : Node)
  /-- A default export. -/
  | exportDefaultDeclaration (loc : Loc) (declaration : Node)
  /-- A function as a statement; as a default export it may lack a name. -/
  | functionDeclaration (loc : Loc) (id : Option Node) (params : List Node) (body : Node)
      (isAsync : Bool)
  /-- A function as a value, and the function of a method. -/
  | functionExpression (loc : Loc) (id : Option Node) (params : List Node) (body : Node)
      (isAsync : Bool)
  /-- Statements between braces. -/
  | blockStatement (loc : Loc) (body : List Node)
  /-- Declarators after `const`, `let` or `var`. -/
  | variableDeclaration (loc : Loc) (declarations : List Node) (kind : String)
  /-- A pattern and its initial value. -/
  | variableDeclarator (loc : Loc) (id : Node) (init : Option Node)
  /-- An expression as a statement. -/
  | expressionStatement (loc : Loc) (expression : Node)
  /-- A conditional statement. -/
  | ifStatement (loc : Loc) (test consequent : Node) (alternate : Option Node)
  /-- A choice among cases. -/
  | switchStatement (loc : Loc) (discriminant : Node) (cases : List Node)
  /-- A case, or the default if there is no test. -/
  | switchCase (loc : Loc) (test : Option Node) (consequent : List Node)
  /-- The end of a function, with its value. -/
  | returnStatement (loc : Loc) (argument : Option Node)
  /-- The end of a statement around, of the labelled one if there is a label. -/
  | breakStatement (loc : Loc) (label : Option Node)
  /-- The raising of an exception. -/
  | throwStatement (loc : Loc) (argument : Node)
  /-- A function applied to arguments. -/
  | callExpression (loc : Loc) (callee : Node) (arguments : List Node)
  /-- A member of an object, named or computed. -/
  | memberExpression (loc : Loc) (object property : Node) (computed : Bool)
  /-- The value that a promise will have. -/
  | awaitExpression (loc : Loc) (argument : Node)
  /-- An operator that evaluates both operands. -/
  | binaryExpression (loc : Loc) (operator : String) (left right : Node)
  /-- An operator that may leave out its right operand. -/
  | logicalExpression (loc : Loc) (operator : String) (left right : Node)
  /-- An operator with one operand. -/
  | unaryExpression (loc : Loc) (operator : String) (argument : Node) (isPrefix : Bool)
  /-- The word `this`. -/
  | thisExpression (loc : Loc)
  /-- A name. -/
  | identifier (loc : Loc) (name : String)
  /-- A literal; `null` has no ground value. -/
  | literal (loc : Loc) (value : Option Ground) (raw : Option String)
  /-- An object. -/
  | objectExpression (loc : Loc) (properties : List Node)
  /-- A key with its value, in an object or in a pattern for one. -/
  | property (loc : Loc) (key value : Node) (kind : String) (method shorthand computed : Bool)
  /-- An array, possibly with holes. -/
  | arrayExpression (loc : Loc) (elements : List (Option Node))
  /-- A pattern for the properties of an object. -/
  | objectPattern (loc : Loc) (properties : List Node)
  /-- An array pattern, possibly with holes. -/
  | arrayPattern (loc : Loc) (elements : List (Option Node))
  /-- A node of a kind outside the vocabulary. -/
  | unsupported (loc : Loc) (type : String)

namespace Node

instance : Inhabited Node := ⟨.thisExpression none⟩

/-- Where a node stands. -/
def loc : Node → Loc
  | .program loc .. | .importDeclaration loc .. | .importDefaultSpecifier loc ..
  | .importSpecifier loc .. | .importNamespaceSpecifier loc .. | .exportDefaultDeclaration loc ..
  | .functionDeclaration loc .. | .functionExpression loc .. | .blockStatement loc ..
  | .variableDeclaration loc .. | .variableDeclarator loc .. | .expressionStatement loc ..
  | .ifStatement loc .. | .switchStatement loc .. | .switchCase loc .. | .returnStatement loc ..
  | .breakStatement loc .. | .throwStatement loc .. | .callExpression loc ..
  | .memberExpression loc .. | .awaitExpression loc .. | .binaryExpression loc ..
  | .logicalExpression loc .. | .unaryExpression loc .. | .thisExpression loc ..
  | .identifier loc .. | .literal loc .. | .objectExpression loc .. | .property loc ..
  | .arrayExpression loc .. | .objectPattern loc .. | .arrayPattern loc ..
  | .unsupported loc .. => loc

/-- The position that messages cite for a node: its start, or line 0 and column 0. -/
def position (n : Node) : Position :=
  match n.loc with
  | some loc => loc.start
  | none => ⟨0, 0⟩

/-- The name of a node's kind; all kinds outside the vocabulary have one name. -/
def tag : Node → String
  | .program .. => "Program"
  | .importDeclaration .. => "ImportDeclaration"
  | .importDefaultSpecifier .. => "ImportDefaultSpecifier"
  | .importSpecifier .. => "ImportSpecifier"
  | .importNamespaceSpecifier .. => "ImportNamespaceSpecifier"
  | .exportDefaultDeclaration .. => "ExportDefaultDeclaration"
  | .functionDeclaration .. => "FunctionDeclaration"
  | .functionExpression .. => "FunctionExpression"
  | .blockStatement .. => "BlockStatement"
  | .variableDeclaration .. => "VariableDeclaration"
  | .variableDeclarator .. => "VariableDeclarator"
  | .expressionStatement .. => "ExpressionStatement"
  | .ifStatement .. => "IfStatement"
  | .switchStatement .. => "SwitchStatement"
  | .switchCase .. => "SwitchCase"
  | .returnStatement .. => "ReturnStatement"
  | .breakStatement .. => "BreakStatement"
  | .throwStatement .. => "ThrowStatement"
  | .callExpression .. => "CallExpression"
  | .memberExpression .. => "MemberExpression"
  | .awaitExpression .. => "AwaitExpression"
  | .binaryExpression .. => "BinaryExpression"
  | .logicalExpression .. => "LogicalExpression"
  | .unaryExpression .. => "UnaryExpression"
  | .thisExpression .. => "ThisExpression"
  | .identifier .. => "Identifier"
  | .literal .. => "Literal"
  | .objectExpression .. => "ObjectExpression"
  | .property .. => "Property"
  | .arrayExpression .. => "ArrayExpression"
  | .objectPattern .. => "ObjectPattern"
  | .arrayPattern .. => "ArrayPattern"
  | .unsupported .. => "UnsupportedNode"

/-- The type that a node says it has. -/
def type : Node → String
  | .unsupported _ type => type
  | n => n.tag

end Node

end RhoScript
