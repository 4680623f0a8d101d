import RhoScript.Node
import RhoScript.Source.Literal
import RhoScript.Source.Tree

/-!
# From derivations to syntax trees

A derivation is evaluated from the leaves up, each production combining the values of its parts. The
value of a category is what the syntax tree needs of it: a node, a list of nodes, or the parts of a
node that is completed further out. With every value goes the span of its tokens; a node is located
at the span of the production that makes it, so parentheses count for what encloses them and not for
the expression inside.

The literals of a source are evaluated from left to right, and the first that has no value is the
error of the whole.
-/

namespace RhoScript.Source

/-- From where to where tokens reach. -/
structure Span where
  start : Position
  stop : Position
deriving DecidableEq, Repr, Inhabited

namespace Span

/-- The span of two adjacent parts, each possibly without tokens. -/
def join : Option Span → Option Span → Option Span
  | none, b => b
  | a, none => a
  | some a, some b => some ⟨a.start, b.stop⟩

/-- The location of a node with that span. -/
def loc (s : Span) : Loc := some ⟨s.start, some s.stop⟩

end Span

/-- The location of a node whose tokens have that span. -/
def locOf (span : Option Span) : Loc := span.bind Span.loc

/-- A token and the value of its literal. -/
structure Leaf where
  token : Token
  value : Option Ground
deriving Inhabited

namespace Leaf

/-- The span of a token. -/
def span (l : Leaf) : Span := ⟨l.token.start, l.token.stop⟩

/-- The identifier that a token names. -/
def identifier (l : Leaf) : Node := .identifier l.span.loc l.token.text

/-- The literal that a token denotes. -/
def literal (l : Leaf) : Node := .literal l.span.loc l.value (some l.token.text)

end Leaf

/-- What a function is made of. -/
structure FunctionParts where
  isAsync : Bool := false
  id : Option Node := none
  params : List Node
  body : Node
deriving Inhabited

namespace FunctionParts

/-- The function as an expression. -/
def expression (f : FunctionParts) (loc : Loc) : Node :=
  .functionExpression loc f.id f.params f.body f.isAsync

/-- The function as a declaration. -/
def declaration (f : FunctionParts) (loc : Loc) : Node :=
  .functionDeclaration loc f.id f.params f.body f.isAsync

end FunctionParts

/-- An operator with its right operand. -/
structure FurtherOperand where
  operator : String
  operand : Node
  stop : Position
deriving Inhabited

/-- A member access or a call, and where it ends. -/
inductive Access where
  | member (property : Node) (stop : Position)
  | call (arguments : List Node) (stop : Position)
deriving Inhabited

/-- What follows the key of a property. -/
inductive PropertyRest where
  | value (node : Node)
  | method (f : FunctionParts)
deriving Inhabited

/-- What a category contributes to the syntax tree. -/
@[reducible] def CategoryMeaning : Nonterminal → Type
  | .items | .importClause | .importMore | .importGroup | .parameters | .moreParameters
  | .statements | .moreDeclarators | .cases | .arguments | .moreArguments | .series _
  | .seriesRest _ => List Node
  | .importRest => List Node × Node
  | .asName | .alternative | .initializer | .optionalExpression | .optionalLabel
  | .propertyPatternRest => Option Node
  | .function | .functionRest | .functionNamed | .signature => FunctionParts
  | .binaryRest _ => List FurtherOperand
  | .accesses => List Access
  | .propertyRest => PropertyRest
  | .program | .item | .specifier | .block | .statement | .ifStatement | .elseBody | .declarator
  | .case | .pattern | .propertyPattern | .binary _ | .unary | .primary | .property
  | .propertyKey => Node

/-- What a symbol contributes to the syntax tree. -/
@[reducible] def Meaning : Symbol → Type
  | .tok _ _ => Leaf
  | .sub n => CategoryMeaning n

/-- A value and the span of its tokens. -/
structure Value (s : Symbol) where
  span : Option Span
  meaning : Meaning s

/-- The values of symbols in a row. -/
inductive Values : List Symbol → Type where
  | nil : Values []
  | cons {s : Symbol} {rest : List Symbol} (first : Value s) (more : Values rest) :
      Values (s :: rest)

/-- The span of values in a row. -/
def Values.span : {ss : List Symbol} → Values ss → Option Span
  | _, .nil => none
  | _, .cons first more => Span.join first.span more.span

/-! ### Expressions -/

/-- An operator of the level between two operands. -/
def binaryNode (l : Level) (loc : Loc) (operator : String) (left right : Node) : Node :=
  match l with
  | .or | .and => .logicalExpression loc operator left right
  | _ => .binaryExpression loc operator left right

/-- Operands joined from left to right, the first beginning at the given position. -/
def joinOperands (l : Level) (start : Position) : Node → List FurtherOperand → Node
  | left, [] => left
  | left, f :: rest =>
    joinOperands l start (binaryNode l (Span.mk start f.stop).loc f.operator left f.operand) rest

/-- Accesses applied from left to right, to an object that begins at the given position. -/
def joinAccesses (start : Position) : Node → List Access → Node
  | object, [] => object
  | object, .member property stop :: rest =>
    joinAccesses start (.memberExpression (Span.mk start stop).loc object property false) rest
  | callee, .call arguments stop :: rest =>
    joinAccesses start (.callExpression (Span.mk start stop).loc callee arguments) rest

/-- Where a value begins. -/
def startOf (span : Option Span) : Position :=
  match span with
  | some s => s.start
  | none => ⟨1, 0⟩

/-- Where a value ends. -/
def stopOf (span : Option Span) : Position :=
  match span with
  | some s => s.stop
  | none => ⟨1, 0⟩

/-- The node of an atom. -/
def atomNode (a : Atom) (leaf : Leaf) : Node :=
  match a with
  | .name => leaf.identifier
  | .this => .thisExpression leaf.span.loc
  | _ => leaf.literal

/-- An operator before its operand. -/
def unaryNode (o : Unary) (loc : Loc) (operator : String) (argument : Node) : Node :=
  match o with
  | .await => .awaitExpression loc argument
  | _ => .unaryExpression loc operator argument true

/-- A property that is a method. Its function is located at the whole property. -/
def methodNode (loc : Loc) (key : Node) (f : FunctionParts) : Node :=
  .property loc key (f.expression loc) "init" true false false

/-- A property with a value. -/
def propertyNode (loc : Loc) (key value : Node) (shorthand : Bool) : Node :=
  .property loc key value "init" false shorthand false

/-! ### Productions -/

/-- What a production makes of the values of its parts, if its tokens have the given span. -/
def combine {n : Nonterminal} (p : Production n) (span : Option Span) (values : Values p.parts) :
    CategoryMeaning n :=
  let loc := locOf span
  match n, p, values with
  | _, .program, .cons items .nil =>
    .program (span.elim (some ⟨⟨1, 0⟩, none⟩) Span.loc) items.meaning
  | _, .noItems, _ => []
  | _, .moreItems, .cons item (.cons items .nil) => item.meaning :: items.meaning
  | _, .importItem, .cons _ (.cons rest .nil) =>
    .importDeclaration loc rest.meaning.1 rest.meaning.2
  | _, .exportItem, .cons _ (.cons _ (.cons function .nil)) =>
    .exportDefaultDeclaration loc (function.meaning.declaration (locOf function.span))
  | _, .statementItem, .cons statement .nil => statement.meaning
  | _, .bareImport, .cons source _ => ([], source.meaning.literal)
  | _, .boundImport, .cons clause (.cons _ (.cons source _)) =>
    (clause.meaning, source.meaning.literal)
  | _, .defaultClause, .cons name (.cons more .nil) =>
    .importDefaultSpecifier name.meaning.span.loc name.meaning.identifier :: more.meaning
  | _, .groupClause, .cons group .nil => group.meaning
  | _, .noImportMore, _ => []
  | _, .importMore, .cons _ (.cons group .nil) => group.meaning
  | _, .namedGroup, .cons _ (.cons specifiers _) => specifiers.meaning
  | _, .namespaceGroup, .cons _ (.cons _ (.cons name .nil)) =>
    [.importNamespaceSpecifier loc name.meaning.identifier]
  | _, .specifier, .cons name (.cons asName .nil) =>
    .importSpecifier loc (asName.meaning.getD name.meaning.identifier) name.meaning.identifier
  | _, .noAsName, _ => none
  | _, .asName, .cons _ (.cons name .nil) => some name.meaning.identifier
  | _, .asyncFunction, .cons _ (.cons function .nil) => { function.meaning with isAsync := true }
  | _, .plainFunction, .cons function .nil => function.meaning
  | _, .functionRest, .cons _ (.cons function .nil) => function.meaning
  | _, .namedFunction, .cons name (.cons signature .nil) =>
    { signature.meaning with id := some name.meaning.identifier }
  | _, .anonymousFunction, .cons signature .nil => signature.meaning
  | _, .signature, .cons _ (.cons parameters (.cons _ (.cons block .nil))) =>
    { params := parameters.meaning, body := block.meaning }
  | _, .noParameters, _ => []
  | _, .parameters, .cons pattern (.cons more .nil) => pattern.meaning :: more.meaning
  | _, .noMoreParameters, _ => []
  | _, .moreParameters, .cons _ (.cons pattern (.cons more .nil)) =>
    pattern.meaning :: more.meaning
  | _, .block, .cons _ (.cons statements _) => .blockStatement loc statements.meaning
  | _, .noStatements, _ => []
  | _, .moreStatements, .cons statement (.cons more .nil) => statement.meaning :: more.meaning
  | _, .declaration d, .cons word (.cons declarator (.cons more _)) =>
    .variableDeclaration loc (declarator.meaning :: more.meaning) word.meaning.token.text
  | _, .conditional, .cons statement .nil => statement.meaning
  | _, .switch, .cons _ (.cons _ (.cons discriminant (.cons _ (.cons _ (.cons cases _))))) =>
    .switchStatement loc discriminant.meaning cases.meaning
  | _, .returns, .cons _ (.cons argument _) => .returnStatement loc argument.meaning
  | _, .breaks, .cons _ (.cons label _) => .breakStatement loc label.meaning
  | _, .throws, .cons _ (.cons argument _) => .throwStatement loc argument.meaning
  | _, .expression, .cons expression _ => .expressionStatement loc expression.meaning
  | _, .ifStatement, .cons _ (.cons _ (.cons test (.cons _ (.cons block (.cons more .nil))))) =>
    .ifStatement loc test.meaning block.meaning more.meaning
  | _, .noAlternative, _ => none
  | _, .alternative, .cons _ (.cons body .nil) => some body.meaning
  | _, .elseBlock, .cons block .nil => block.meaning
  | _, .elseIf, .cons statement .nil => statement.meaning
  | _, .noMoreDeclarators, _ => []
  | _, .moreDeclarators, .cons _ (.cons declarator (.cons more .nil)) =>
    declarator.meaning :: more.meaning
  | _, .declarator, .cons pattern (.cons init .nil) =>
    .variableDeclarator loc pattern.meaning init.meaning
  | _, .noInitializer, _ => none
  | _, .initializer, .cons _ (.cons expression .nil) => some expression.meaning
  | _, .noCases, _ => []
  | _, .moreCases, .cons case (.cons more .nil) => case.meaning :: more.meaning
  | _, .testCase, .cons _ (.cons test (.cons _ (.cons statements .nil))) =>
    .switchCase loc (some test.meaning) statements.meaning
  | _, .defaultCase, .cons _ (.cons _ (.cons statements .nil)) =>
    .switchCase loc none statements.meaning
  | _, .noExpression, _ => none
  | _, .someExpression, .cons expression .nil => some expression.meaning
  | _, .noLabel, _ => none
  | _, .label, .cons name .nil => some name.meaning.identifier
  | _, .namePattern, .cons name .nil => name.meaning.identifier
  | _, .objectPattern, .cons _ (.cons properties _) => .objectPattern loc properties.meaning
  | _, .arrayPattern, .cons _ (.cons elements _) => .arrayPattern loc (elements.meaning.map some)
  | _, .namedPropertyPattern, .cons name (.cons rest .nil) =>
    let key := name.meaning.identifier
    propertyNode loc key (rest.meaning.getD key) rest.meaning.isNone
  | _, .stringPropertyPattern, .cons key (.cons _ (.cons pattern .nil)) =>
    propertyNode loc key.meaning.literal pattern.meaning false
  | _, .numberPropertyPattern, .cons key (.cons _ (.cons pattern .nil)) =>
    propertyNode loc key.meaning.literal pattern.meaning false
  | _, .shorthandPattern, _ => none
  | _, .renamedPattern, .cons _ (.cons pattern .nil) => some pattern.meaning
  | _, .binary l, .cons operand (.cons more .nil) =>
    joinOperands l (startOf operand.span) (operandMeaning l operand.meaning) more.meaning
  | _, .noMoreOperands _, _ => []
  | _, @Production.moreOperands l o, .cons operator (.cons operand (.cons more .nil)) =>
    ⟨operator.meaning.token.text, operandMeaning l operand.meaning, stopOf operand.span⟩ ::
      more.meaning
  | _, .unary o, .cons operator (.cons argument .nil) =>
    unaryNode o loc operator.meaning.token.text argument.meaning
  | _, .operand, .cons primary (.cons accesses .nil) =>
    joinAccesses (startOf primary.span) primary.meaning accesses.meaning
  | _, .noAccesses, _ => []
  | _, .member, .cons _ (.cons name (.cons more .nil)) =>
    .member name.meaning.identifier name.meaning.token.stop :: more.meaning
  | _, .call, .cons _ (.cons arguments (.cons close (.cons more .nil))) =>
    .call arguments.meaning close.meaning.token.stop :: more.meaning
  | _, .noArguments, _ => []
  | _, .arguments, .cons expression (.cons more .nil) => expression.meaning :: more.meaning
  | _, .noMoreArguments, _ => []
  | _, .moreArguments, .cons _ (.cons expression (.cons more .nil)) =>
    expression.meaning :: more.meaning
  | _, .atom a, .cons leaf .nil => atomNode a leaf.meaning
  | _, .object, .cons _ (.cons properties _) => .objectExpression loc properties.meaning
  | _, .array, .cons _ (.cons elements _) => .arrayExpression loc (elements.meaning.map some)
  | _, .functionExpression, .cons function .nil => function.meaning.expression loc
  | _, .parentheses, .cons _ (.cons expression _) => expression.meaning
  | _, .asyncMethod, .cons _ (.cons key (.cons signature .nil)) =>
    methodNode loc key.meaning { signature.meaning with isAsync := true }
  | _, .plainProperty, .cons key (.cons rest .nil) =>
    match rest.meaning with
    | .value node => propertyNode loc key.meaning node false
    | .method f => methodNode loc key.meaning f
  | _, .nameKey, .cons name .nil => name.meaning.identifier
  | _, .stringKey, .cons key .nil => key.meaning.literal
  | _, .numberKey, .cons key .nil => key.meaning.literal
  | _, .valueProperty, .cons _ (.cons expression .nil) => .value expression.meaning
  | _, .methodProperty, .cons signature .nil => .method signature.meaning
  | _, .noMembers _, _ => []
  | _, .members s, .cons member (.cons rest .nil) => memberMeaning s member.meaning :: rest.meaning
  | _, .noMoreMembers _, _ => []
  | _, .moreMembers s, .cons _ (.cons members .nil) => members.meaning
where
  /-- The operands of every level are nodes. -/
  operandMeaning : (l : Level) → CategoryMeaning (.operandOf l) → Node
    | .or, node | .and, node | .equality, node | .relational, node | .additive, node
    | .multiplicative, node => node
  /-- The members of every list are nodes. -/
  memberMeaning : (s : Series) → CategoryMeaning (.memberOf s) → Node
    | .specifiers, node | .propertyPatterns, node | .patterns, node | .properties, node
    | .elements, node => node

/-! ### Derivations -/

mutual

/-- The value of a derivation. -/
def Tree.value : {s : Symbol} → Tree s → Except LiteralError (Value s)
  | _, .leaf token _ => do
    let value ← token.value
    return ⟨some ⟨token.start, token.stop⟩, (⟨token, value⟩ : Leaf)⟩
  | _, .node p children => do
    let values ← children.values
    return ⟨values.span, combine p values.span values⟩

/-- The values of derivations in a row. -/
def Forest.values : {ss : List Symbol} → Forest ss → Except LiteralError (Values ss)
  | _, .nil => .ok .nil
  | _, .cons tree more => do
    let value ← tree.value
    let values ← more.values
    return .cons value values

end

/-- The syntax tree of a program's derivation. -/
def Tree.program (tree : Tree (.sub .program)) : Except LiteralError Node :=
  (·.meaning) <$> tree.value

end RhoScript.Source
