import RhoScript.Diagnostic
import RhoScript.Document.Scalar
import RhoScript.Json.Reader
import RhoScript.Node

/-!
# Loading trees from documents

A document describes a tree when every object at the place of a node names its type and has the
fields that nodes of that type need. Fields beyond those are ignored, and so is everything inside a
node of an unknown type but its location. All that does not fit is reported, the location first and
then the fields of a node in their order.
-/

namespace RhoScript.Document

open Json

/-- The types of the vocabulary. -/
def knownTypes : List String :=
  ["Program", "ImportDeclaration", "ImportDefaultSpecifier", "ImportSpecifier",
    "ImportNamespaceSpecifier", "ExportDefaultDeclaration", "FunctionDeclaration",
    "FunctionExpression", "BlockStatement", "VariableDeclaration", "VariableDeclarator",
    "ExpressionStatement", "IfStatement", "SwitchStatement", "SwitchCase", "ReturnStatement",
    "BreakStatement", "ThrowStatement", "CallExpression", "MemberExpression", "AwaitExpression",
    "BinaryExpression", "LogicalExpression", "UnaryExpression", "ThisExpression", "Identifier",
    "Literal", "ObjectExpression", "Property", "ArrayExpression", "ObjectPattern", "ArrayPattern"]

/-- The tag of a type: the type itself, or one tag for all unknown types. -/
def tagOf (type : String) : String := if type ∈ knownTypes then type else "UnsupportedNode"

/-- The type that an object names. -/
def typeOf? (document : Json) : Option String :=
  match document.field? "type" with
  | some (.string type) => some type
  | _ => none

/-! ### Fields -/

variable {α : Type}

/-- The fields of an object. -/
abbrev Fields := List (String × Json)

/-- Reads a field that must be there. -/
def required (read : Json → Validated α) (name : String) (fields : Fields) : Validated α :=
  .inField name (match lastField? name fields with
    | some value => read value
    | none => .fail .missing)

/-- Reads a field that has a default. -/
def withDefault (default : α) (read : Json → Validated α) (name : String) (fields : Fields) :
    Validated α :=
  match lastField? name fields with
  | some value => .inField name (read value)
  | none => .valid default

/-- A value, or `null` for its absence. -/
def nullable (read : Json → Validated α) : Json → Validated (Option α)
  | .null => .valid none
  | value => some <$> read value

/-- Reads the flag that is named either way; the first name counts if both are there. -/
def asyncFlag (fields : Fields) : Validated Bool :=
  match lastField? "async" fields with
  | some value => .inField "async" (flag value)
  | none => withDefault false flag "is_async" fields

/-! ### Locations -/

/-- Reads a position. -/
def position : Json → Validated Position
  | .object fields => Position.mk <$> required int "line" fields <*> required int "column" fields
  | _ => .fail .modelType

/-- Reads a location. -/
def location : Json → Validated SourceLocation
  | .object fields =>
    SourceLocation.mk <$> required position "start" fields
      <*> withDefault none (nullable position) "end" fields
  | _ => .fail .modelType

/-- Reads the location of a node. -/
def loc (fields : Fields) : Validated Loc := withDefault none (nullable location) "loc" fields

/-! ### Nodes -/

/-- Reads the nodes inside an object. Only values smaller than the object are asked for. -/
abbrev ChildReader (fields : Fields) :=
  (value : Json) → sizeOf value < sizeOf fields → Validated Node

/-- Reads a node that must be there. -/
def node {fields : Fields} (child : ChildReader fields) (name : String) : Validated Node :=
  .inField name (match h : lastField? name fields with
    | some value => child value (sizeOf_lastField? h)
    | none => .fail .missing)

/-- Reads a node that may be absent. -/
def node? {fields : Fields} (child : ChildReader fields) (name : String) :
    Validated (Option Node) :=
  match h : lastField? name fields with
  | some .null => .valid none
  | some value => .inField name (some <$> child value (sizeOf_lastField? h))
  | none => .valid none

/-- Reads the members of a list in a field; an absent list is empty. -/
def members {fields : Fields} (name : String)
    (member : (value : Json) → sizeOf value < sizeOf fields → Validated α) :
    Validated (List α) :=
  match h : lastField? name fields with
  | some (.array items) =>
    .inField name (.list (fun (item : { x // x ∈ items }) =>
      member item.1 (by
        have h₁ := List.sizeOf_lt_of_mem item.2
        have h₂ := sizeOf_lastField? h
        simp only [Json.array.sizeOf_spec] at h₂
        omega)) 0 items.attach)
  | some _ => .inField name (.fail .listType)
  | none => .valid []

/-- Reads a list of nodes. -/
def nodes {fields : Fields} (child : ChildReader fields) (name : String) : Validated (List Node) :=
  members name child

/-- Reads a list of nodes with holes. -/
def nodesWithHoles {fields : Fields} (child : ChildReader fields) (name : String) :
    Validated (List (Option Node)) :=
  members name fun value h =>
    match value with
    | .null => .valid none
    | value => some <$> child value h

/-- Reads the fields of a node of the given type. -/
def nodeOfType (type : String) (fields : Fields) (child : ChildReader fields) : Validated Node :=
  match type with
  | "Program" => .program <$> loc fields <*> nodes child "body"
  | "ImportDeclaration" =>
    .importDeclaration <$> loc fields <*> nodes child "specifiers" <*> node child "source"
  | "ImportDefaultSpecifier" => .importDefaultSpecifier <$> loc fields <*> node child "local"
  | "ImportSpecifier" =>
    .importSpecifier <$> loc fields <*> node child "local" <*> node child "imported"
  | "ImportNamespaceSpecifier" => .importNamespaceSpecifier <$> loc fields <*> node child "local"
  | "ExportDefaultDeclaration" =>
    .exportDefaultDeclaration <$> loc fields <*> node child "declaration"
  | "FunctionDeclaration" =>
    .functionDeclaration <$> loc fields <*> node? child "id" <*> nodes child "params"
      <*> node child "body" <*> asyncFlag fields
  | "FunctionExpression" =>
    .functionExpression <$> loc fields <*> node? child "id" <*> nodes child "params"
      <*> node child "body" <*> asyncFlag fields
  | "BlockStatement" => .blockStatement <$> loc fields <*> nodes child "body"
  | "VariableDeclaration" =>
    .variableDeclaration <$> loc fields <*> nodes child "declarations"
      <*> withDefault "const" text "kind" fields
  | "VariableDeclarator" =>
    .variableDeclarator <$> loc fields <*> node child "id" <*> node? child "init"
  | "ExpressionStatement" => .expressionStatement <$> loc fields <*> node child "expression"
  | "IfStatement" =>
    .ifStatement <$> loc fields <*> node child "test" <*> node child "consequent"
      <*> node? child "alternate"
  | "SwitchStatement" =>
    .switchStatement <$> loc fields <*> node child "discriminant" <*> nodes child "cases"
  | "SwitchCase" => .switchCase <$> loc fields <*> node? child "test" <*> nodes child "consequent"
  | "ReturnStatement" => .returnStatement <$> loc fields <*> node? child "argument"
  | "BreakStatement" => .breakStatement <$> loc fields <*> node? child "label"
  | "ThrowStatement" => .throwStatement <$> loc fields <*> node child "argument"
  | "CallExpression" =>
    .callExpression <$> loc fields <*> node child "callee" <*> nodes child "arguments"
  | "MemberExpression" =>
    .memberExpression <$> loc fields <*> node child "object" <*> node child "property"
      <*> withDefault false flag "computed" fields
  | "AwaitExpression" => .awaitExpression <$> loc fields <*> node child "argument"
  | "BinaryExpression" =>
    .binaryExpression <$> loc fields <*> required text "operator" fields <*> node child "left"
      <*> node child "right"
  | "LogicalExpression" =>
    .logicalExpression <$> loc fields <*> required text "operator" fields <*> node child "left"
      <*> node child "right"
  | "UnaryExpression" =>
    .unaryExpression <$> loc fields <*> required text "operator" fields <*> node child "argument"
      <*> withDefault true flag "prefix" fields
  | "ThisExpression" => .thisExpression <$> loc fields
  | "Identifier" => .identifier <$> loc fields <*> required text "name" fields
  | "Literal" =>
    .literal <$> loc fields <*> withDefault none ground "value" fields
      <*> withDefault none (nullable text) "raw" fields
  | "ObjectExpression" => .objectExpression <$> loc fields <*> nodes child "properties"
  | "Property" =>
    .property <$> loc fields <*> node child "key" <*> node child "value"
      <*> withDefault "init" text "kind" fields <*> withDefault false flag "method" fields
      <*> withDefault false flag "shorthand" fields <*> withDefault false flag "computed" fields
  | "ArrayExpression" => .arrayExpression <$> loc fields <*> nodesWithHoles child "elements"
  | "ObjectPattern" => .objectPattern <$> loc fields <*> nodes child "properties"
  | "ArrayPattern" => .arrayPattern <$> loc fields <*> nodesWithHoles child "elements"
  | type => (.unsupported · type) <$> loc fields

/-- Loads the tree that a document describes. -/
def load (document : Json) : Validated Node :=
  match document with
  | .object fields =>
    match lastField? "type" fields with
    | some (.string type) =>
      .inField (tagOf type) (nodeOfType type fields fun value _ => load value)
    | _ => .fail .unionTagNotFound
  | _ => .fail .unionTagNotFound
termination_by sizeOf document

/-- Loads the tree that a JSON text describes. -/
def loadText (text : String) : Validated Node :=
  match Reader.read? text with
  | some document => load document
  | none => .fail .jsonInvalid

/-- Reads a diagnostic from its fields. -/
def diagnostic : Json → Validated Diagnostic
  | .object fields =>
    (fun line column expected found => ⟨⟨line, column⟩, expected, found⟩) <$>
      required int "line" fields <*> required int "column" fields
      <*> required text "expected" fields <*> required text "found" fields
  | _ => .fail .modelType

end RhoScript.Document
