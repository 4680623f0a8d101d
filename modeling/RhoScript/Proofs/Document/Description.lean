import RhoScript.Document.Load
import RhoScript.Proofs.Node.Congruence

/-!
# Documents of trees

The document of a tree has an object for each node, with its type, its location and its parts under the
names of the vocabulary; what is absent is `null`. Main statement: nodes of all forms are loaded from
their documents, if their parts are (`congruence_loads`), and so are nodes of an unknown type
(`loads_unsupported`).
-/

namespace RhoScript

/-- The document of what may be absent. -/
def Document.orNull {α : Type} (document : α → Json) : Option α → Json
  | none => .null
  | some a => document a

open Document

/-- The document of a position. -/
def Position.document (p : Position) : Json :=
  .object [("line", .int p.line), ("column", .int p.column)]

/-- The document of a location. -/
def SourceLocation.document (l : SourceLocation) : Json :=
  .object [("start", l.start.document), ("end", orNull Position.document l.stop)]

/-- The document of a ground value. -/
def Ground.document : Ground → Json
  | .bool b => .bool b
  | .int n => .int n
  | .double x => .double x
  | .string s => match s.encode with
    | .ok text => .string text
    | .error _ => .wide s

namespace Node

/-- All fields of the document of a node: its type, its location and its parts. -/
def allFields (type : String) (loc : Loc) (parts : Fields) : Fields :=
  ("type", .string type) :: ("loc", orNull SourceLocation.document loc) :: parts

/-- The document of a node of a type. -/
def described (type : String) (loc : Loc) (parts : Fields) : Json := .object (allFields type loc parts)

mutual

/-- The document of a node. -/
def document : Node → Json
  | .program loc body => described "Program" loc [("body", .array (documents body))]
  | .importDeclaration loc specifiers source =>
    described "ImportDeclaration" loc
      [("specifiers", .array (documents specifiers)), ("source", source.document)]
  | .importDefaultSpecifier loc binding =>
    described "ImportDefaultSpecifier" loc [("local", binding.document)]
  | .importSpecifier loc binding imported =>
    described "ImportSpecifier" loc [("local", binding.document), ("imported", imported.document)]
  | .importNamespaceSpecifier loc binding =>
    described "ImportNamespaceSpecifier" loc [("local", binding.document)]
  | .exportDefaultDeclaration loc declaration =>
    described "ExportDefaultDeclaration" loc [("declaration", declaration.document)]
  | .functionDeclaration loc id params body isAsync =>
    described "FunctionDeclaration" loc [("id", optionDocument id),
      ("params", .array (documents params)), ("body", body.document), ("async", .bool isAsync)]
  | .functionExpression loc id params body isAsync =>
    described "FunctionExpression" loc [("id", optionDocument id),
      ("params", .array (documents params)), ("body", body.document), ("async", .bool isAsync)]
  | .blockStatement loc body => described "BlockStatement" loc [("body", .array (documents body))]
  | .variableDeclaration loc declarations kind =>
    described "VariableDeclaration" loc
      [("declarations", .array (documents declarations)), ("kind", .string kind)]
  | .variableDeclarator loc id init =>
    described "VariableDeclarator" loc [("id", id.document), ("init", optionDocument init)]
  | .expressionStatement loc expression =>
    described "ExpressionStatement" loc [("expression", expression.document)]
  | .ifStatement loc test consequent alternate =>
    described "IfStatement" loc [("test", test.document), ("consequent", consequent.document),
      ("alternate", optionDocument alternate)]
  | .switchStatement loc discriminant cases =>
    described "SwitchStatement" loc
      [("discriminant", discriminant.document), ("cases", .array (documents cases))]
  | .switchCase loc test consequent =>
    described "SwitchCase" loc
      [("test", optionDocument test), ("consequent", .array (documents consequent))]
  | .returnStatement loc argument =>
    described "ReturnStatement" loc [("argument", optionDocument argument)]
  | .breakStatement loc label => described "BreakStatement" loc [("label", optionDocument label)]
  | .throwStatement loc argument => described "ThrowStatement" loc [("argument", argument.document)]
  | .callExpression loc callee arguments =>
    described "CallExpression" loc
      [("callee", callee.document), ("arguments", .array (documents arguments))]
  | .memberExpression loc object member computed =>
    described "MemberExpression" loc
      [("object", object.document), ("property", member.document), ("computed", .bool computed)]
  | .awaitExpression loc argument =>
    described "AwaitExpression" loc [("argument", argument.document)]
  | .binaryExpression loc operator left right =>
    described "BinaryExpression" loc
      [("operator", .string operator), ("left", left.document), ("right", right.document)]
  | .logicalExpression loc operator left right =>
    described "LogicalExpression" loc
      [("operator", .string operator), ("left", left.document), ("right", right.document)]
  | .unaryExpression loc operator argument isPrefix =>
    described "UnaryExpression" loc
      [("operator", .string operator), ("argument", argument.document), ("prefix", .bool isPrefix)]
  | .thisExpression loc => described "ThisExpression" loc []
  | .identifier loc name => described "Identifier" loc [("name", .string name)]
  | .literal loc value raw =>
    described "Literal" loc [("value", orNull Ground.document value), ("raw", orNull .string raw)]
  | .objectExpression loc properties =>
    described "ObjectExpression" loc [("properties", .array (documents properties))]
  | .property loc key value kind method shorthand computed =>
    described "Property" loc [("key", key.document), ("value", value.document),
      ("kind", .string kind), ("method", .bool method), ("shorthand", .bool shorthand),
      ("computed", .bool computed)]
  | .arrayExpression loc elements =>
    described "ArrayExpression" loc [("elements", .array (elementDocuments elements))]
  | .objectPattern loc properties =>
    described "ObjectPattern" loc [("properties", .array (documents properties))]
  | .arrayPattern loc elements =>
    described "ArrayPattern" loc [("elements", .array (elementDocuments elements))]
  | .unsupported loc type => described type loc []
termination_by structural n => n

/-- The documents of nodes. -/
def documents : List Node → List Json
  | [] => []
  | n :: rest => n.document :: documents rest
termination_by structural ns => ns

/-- The document of a node that may be missing. -/
def optionDocument : Option Node → Json
  | none => .null
  | some n => n.document
termination_by structural o => o

/-- The documents of nodes that may be missing. -/
def elementDocuments : List (Option Node) → List Json
  | [] => []
  | e :: rest => optionDocument e :: elementDocuments rest
termination_by structural es => es

end

theorem documents_eq (ns : List Node) : documents ns = ns.map document := by
  induction ns with
  | nil => rfl
  | cons n rest ih => rw [documents, ih, List.map_cons]

theorem elementDocuments_eq (es : List (Option Node)) :
    elementDocuments es = es.map optionDocument := by
  induction es with
  | nil => rfl
  | cons e rest ih => rw [elementDocuments, ih, List.map_cons]

theorem document_ne_null (n : Node) : n.document ≠ .null := by
  cases n <;> nofun

end Node

namespace Document

open Json Node

variable {α β : Type}

/-! ### Valid parts -/

theorem map_valid {x : Validated α} {a : α} {f : α → β} (h : x = .valid a) :
    f <$> x = .valid (f a) := by
  rw [h]
  rfl

theorem seq_valid {x : Validated (α → β)} {y : Validated α} {f : α → β} {a : α} (hx : x = .valid f)
    (hy : y = .valid a) : x <*> y = .valid (f a) := by
  rw [hx, hy]
  rfl

section Map

variable {γ δ ε : Type} {w : Validated α} {x : Validated β} {y : Validated γ} {z : Validated δ}
  {a : α} {b : β} {c : γ} {d : δ}

theorem map₂_valid {f : α → β → γ} (hw : w = .valid a) (hx : x = .valid b) :
    f <$> w <*> x = .valid (f a b) := seq_valid (map_valid hw) hx

theorem map₃_valid {f : α → β → γ → δ} (hw : w = .valid a) (hx : x = .valid b) (hy : y = .valid c) :
    f <$> w <*> x <*> y = .valid (f a b c) := seq_valid (map₂_valid hw hx) hy

theorem map₄_valid {f : α → β → γ → δ → ε} (hw : w = .valid a) (hx : x = .valid b)
    (hy : y = .valid c) (hz : z = .valid d) : f <$> w <*> x <*> y <*> z = .valid (f a b c d) :=
  seq_valid (map₃_valid hw hx hy) hz

end Map

theorem list_valid {check : α → Validated β} {as : List α} {bs : List β}
    (h : List.Forall₂ (fun a b => check a = .valid b) as bs) (i : Nat) :
    Validated.list check i as = .valid bs := by
  induction h generalizing i with
  | nil => rfl
  | cons hab _ ih =>
    rw [Validated.list, hab, ih]
    rfl

section Fields

variable {fields : Fields} {name : String} {value : Json} {a : α} {read : Json → Validated α}

theorem required_valid (h : lastField? name fields = some value) (hread : read value = .valid a) :
    required read name fields = .valid a := by
  simp only [required, h, hread]
  rfl

theorem withDefault_valid {default : α} (h : lastField? name fields = some value)
    (hread : read value = .valid a) : withDefault default read name fields = .valid a := by
  simp only [withDefault, h, hread]
  rfl

theorem nullable_valid {document : α → Json} (hread : ∀ a, read (document a) = .valid a)
    (hnull : ∀ a, document a ≠ .null) (o : Option α) :
    nullable read (orNull document o) = .valid o := by
  cases o with
  | none => rfl
  | some a =>
    unfold nullable orNull
    split
    · rename_i hvalue
      exact absurd hvalue (hnull a)
    · exact map_valid (hread a)

end Fields

theorem position_document (p : Position) : position p.document = .valid p := by
  have hline : required int "line" [("line", .int p.line), ("column", .int p.column)] =
      .valid p.line := required_valid rfl rfl
  have hcolumn : required int "column" [("line", .int p.line), ("column", .int p.column)] =
      .valid p.column := required_valid rfl rfl
  exact map₂_valid (f := Position.mk) hline hcolumn

theorem location_document (l : SourceLocation) : location l.document = .valid l := by
  have hstart : required position "start"
      [("start", l.start.document), ("end", orNull Position.document l.stop)] = .valid l.start :=
    required_valid rfl (position_document l.start)
  have hstop : withDefault none (nullable position) "end"
      [("start", l.start.document), ("end", orNull Position.document l.stop)] = .valid l.stop :=
    withDefault_valid rfl (nullable_valid position_document nofun l.stop)
  exact map₂_valid (f := SourceLocation.mk) hstart hstop

theorem ground_document (o : Option Ground) : ground (orNull Ground.document o) = .valid o := by
  rcases o with _ | ⟨b | n | x | s⟩
  case some.string =>
    rw [orNull, Ground.document]
    split
    · rename_i text hencode
      rw [WideString.encode_eq_ok_iff.mp hencode]
      rfl
    · rfl
  all_goals rfl

theorem text_document (o : Option String) : nullable text (orNull .string o) = .valid o := by
  cases o <;> rfl

/-! ### Parts of nodes -/

/-- The node is loaded from its document. -/
def Loads (n : Node) : Prop := load n.document = .valid n

/-- Loads the nodes inside an object. -/
abbrev children (fields : Fields) : ChildReader fields := fun value _ => load value

section Parts

variable {fields : Fields} {name : String}

theorem loc_valid {l : Loc} (h : lastField? "loc" fields = some (orNull SourceLocation.document l)) :
    loc fields = .valid l :=
  withDefault_valid h (nullable_valid location_document nofun l)

theorem asyncFlag_valid {b : Bool} (h : lastField? "async" fields = some (.bool b)) :
    asyncFlag fields = .valid b := by
  simp only [asyncFlag, h]
  rfl

theorem node_valid {m : Node} (h : lastField? name fields = some m.document) (hm : Loads m) :
    node (children fields) name = .valid m := by
  unfold node
  split
  · rename_i value hvalue
    obtain rfl : value = m.document := Option.some.inj (hvalue.symm.trans h)
    rw [children, hm]
    rfl
  · rename_i hnone
    rw [h] at hnone
    cases hnone

theorem node?_valid {o : Option Node} (h : lastField? name fields = some (optionDocument o))
    (ho : ∀ m ∈ o.toList, Loads m) : node? (children fields) name = .valid o := by
  unfold node?
  cases o with
  | none =>
    split
    · rfl
    · rename_i value hvalue hnull
      exact absurd (Option.some.inj (hnull.symm.trans h)) hvalue
    · rfl
  | some m =>
    split
    · rename_i hnull
      exact absurd (Option.some.inj (h.symm.trans hnull)) m.document_ne_null
    · rename_i value _ hvalue
      obtain rfl : value = m.document := Option.some.inj (hvalue.symm.trans h)
      have hm : Loads m := ho m List.mem_cons_self
      rw [children, hm]
      rfl
    · rename_i hnone
      rw [h] at hnone
      cases hnone

theorem members_valid {member : (value : Json) → sizeOf value < sizeOf fields → Validated α}
    {items : List Json} {as : List α} (h : lastField? name fields = some (.array items))
    (hitems : List.Forall₂ (fun item a => ∀ hlt, member item hlt = .valid a) items as) :
    members name member = .valid as := by
  unfold members
  split
  · rename_i items' hvalue
    obtain rfl : items' = items := Json.array.inj (Option.some.inj (hvalue.symm.trans h))
    have hattach := List.forall₂_map_left_iff.mp (items'.attach_map_subtype_val.symm ▸ hitems)
    rw [list_valid (hattach.imp fun _ _ hitem => hitem _)]
    rfl
  · rename_i value hvalue hitems'
    exact absurd (Option.some.inj (hitems'.symm.trans h)) (hvalue items)
  · rename_i hnone
    rw [h] at hnone
    cases hnone

theorem nodes_valid {ns : List Node} (h : lastField? name fields = some (.array (documents ns)))
    (hns : ∀ m ∈ ns, Loads m) : nodes (children fields) name = .valid ns := by
  refine members_valid h ?_
  rw [documents_eq, List.forall₂_map_left_iff, List.forall₂_same]
  exact fun m hm _ => hns m hm

theorem nodesWithHoles_valid {es : List (Option Node)}
    (h : lastField? name fields = some (.array (elementDocuments es)))
    (hes : ∀ m ∈ es.filterMap id, Loads m) : nodesWithHoles (children fields) name = .valid es := by
  refine members_valid h ?_
  rw [elementDocuments_eq, List.forall₂_map_left_iff, List.forall₂_same]
  intro e he hlt
  cases e with
  | none => rfl
  | some m =>
    have hm : Loads m := hes m (List.mem_filterMap.mpr ⟨some m, he, rfl⟩)
    split
    · rename_i hnull _
      exact absurd hnull m.document_ne_null
    · exact map_valid hm

end Parts

/-! ### Nodes -/

theorem loads_of_nodeOfType {n : Node} {type : String} {loc : Loc} {parts : Fields}
    (hn : n.document = described type loc parts)
    (htype : lastField? "type" (allFields type loc parts) = some (.string type))
    (h : nodeOfType type (allFields type loc parts) (children _) = .valid n) : Loads n := by
  rw [Loads, hn, described, load]
  simp only [htype]
  rw [h]
  rfl

/-- **Nodes of all forms are loaded from their documents**, if their parts are. -/
theorem congruence_loads : Congruence fun n _ => Loads n where
  program hs := loads_of_nodeOfType rfl rfl
    (map₂_valid (loc_valid rfl) (nodes_valid rfl (forall_of_forall₂ hs)))
  importDeclaration hs h := loads_of_nodeOfType rfl rfl
    (map₃_valid (loc_valid rfl) (nodes_valid rfl (forall_of_forall₂ hs)) (node_valid rfl h))
  importDefaultSpecifier h := loads_of_nodeOfType rfl rfl
    (map₂_valid (loc_valid rfl) (node_valid rfl h))
  importSpecifier h h' := loads_of_nodeOfType rfl rfl
    (map₃_valid (loc_valid rfl) (node_valid rfl h) (node_valid rfl h'))
  importNamespaceSpecifier h := loads_of_nodeOfType rfl rfl
    (map₂_valid (loc_valid rfl) (node_valid rfl h))
  exportDefaultDeclaration h := loads_of_nodeOfType rfl rfl
    (map₂_valid (loc_valid rfl) (node_valid rfl h))
  functionDeclaration ho hs h := loads_of_nodeOfType rfl rfl
    (seq_valid (map₄_valid (loc_valid rfl) (node?_valid rfl (forall_of_optionRel ho))
      (nodes_valid rfl (forall_of_forall₂ hs)) (node_valid rfl h)) (asyncFlag_valid rfl))
  functionExpression ho hs h := loads_of_nodeOfType rfl rfl
    (seq_valid (map₄_valid (loc_valid rfl) (node?_valid rfl (forall_of_optionRel ho))
      (nodes_valid rfl (forall_of_forall₂ hs)) (node_valid rfl h)) (asyncFlag_valid rfl))
  blockStatement hs := loads_of_nodeOfType rfl rfl
    (map₂_valid (loc_valid rfl) (nodes_valid rfl (forall_of_forall₂ hs)))
  variableDeclaration hs := loads_of_nodeOfType rfl rfl
    (map₃_valid (loc_valid rfl) (nodes_valid rfl (forall_of_forall₂ hs)) (withDefault_valid rfl rfl))
  variableDeclarator h ho := loads_of_nodeOfType rfl rfl
    (map₃_valid (loc_valid rfl) (node_valid rfl h) (node?_valid rfl (forall_of_optionRel ho)))
  expressionStatement h := loads_of_nodeOfType rfl rfl
    (map₂_valid (loc_valid rfl) (node_valid rfl h))
  ifStatement h h' ho := loads_of_nodeOfType rfl rfl
    (map₄_valid (loc_valid rfl) (node_valid rfl h) (node_valid rfl h')
      (node?_valid rfl (forall_of_optionRel ho)))
  switchStatement h hs := loads_of_nodeOfType rfl rfl
    (map₃_valid (loc_valid rfl) (node_valid rfl h) (nodes_valid rfl (forall_of_forall₂ hs)))
  switchCase ho hs := loads_of_nodeOfType rfl rfl
    (map₃_valid (loc_valid rfl) (node?_valid rfl (forall_of_optionRel ho))
      (nodes_valid rfl (forall_of_forall₂ hs)))
  returnStatement ho := loads_of_nodeOfType rfl rfl
    (map₂_valid (loc_valid rfl) (node?_valid rfl (forall_of_optionRel ho)))
  breakStatement ho := loads_of_nodeOfType rfl rfl
    (map₂_valid (loc_valid rfl) (node?_valid rfl (forall_of_optionRel ho)))
  throwStatement h := loads_of_nodeOfType rfl rfl
    (map₂_valid (loc_valid rfl) (node_valid rfl h))
  callExpression h hs := loads_of_nodeOfType rfl rfl
    (map₃_valid (loc_valid rfl) (node_valid rfl h) (nodes_valid rfl (forall_of_forall₂ hs)))
  memberExpression h h' := loads_of_nodeOfType rfl rfl
    (map₄_valid (loc_valid rfl) (node_valid rfl h) (node_valid rfl h') (withDefault_valid rfl rfl))
  awaitExpression h := loads_of_nodeOfType rfl rfl
    (map₂_valid (loc_valid rfl) (node_valid rfl h))
  binaryExpression h h' := loads_of_nodeOfType rfl rfl
    (map₄_valid (loc_valid rfl) (required_valid rfl rfl) (node_valid rfl h) (node_valid rfl h'))
  logicalExpression h h' := loads_of_nodeOfType rfl rfl
    (map₄_valid (loc_valid rfl) (required_valid rfl rfl) (node_valid rfl h) (node_valid rfl h'))
  unaryExpression h := loads_of_nodeOfType rfl rfl
    (map₄_valid (loc_valid rfl) (required_valid rfl rfl) (node_valid rfl h) (withDefault_valid rfl rfl))
  thisExpression := loads_of_nodeOfType rfl rfl
    (map_valid (loc_valid rfl))
  identifier := loads_of_nodeOfType rfl rfl
    (map₂_valid (loc_valid rfl) (required_valid rfl rfl))
  literal := loads_of_nodeOfType rfl rfl
    (map₃_valid (loc_valid rfl) (withDefault_valid rfl (ground_document _))
      (withDefault_valid rfl (text_document _)))
  objectExpression hs := loads_of_nodeOfType rfl rfl
    (map₂_valid (loc_valid rfl) (nodes_valid rfl (forall_of_forall₂ hs)))
  property h h' := loads_of_nodeOfType rfl rfl
    (seq_valid (seq_valid (seq_valid (map₄_valid (loc_valid rfl) (node_valid rfl h) (node_valid rfl h')
      (withDefault_valid rfl rfl)) (withDefault_valid rfl rfl)) (withDefault_valid rfl rfl))
      (withDefault_valid rfl rfl))
  arrayExpression hs := loads_of_nodeOfType rfl rfl
    (map₂_valid (loc_valid rfl) (nodesWithHoles_valid rfl (forall_of_elements hs)))
  objectPattern hs := loads_of_nodeOfType rfl rfl
    (map₂_valid (loc_valid rfl) (nodes_valid rfl (forall_of_forall₂ hs)))
  arrayPattern hs := loads_of_nodeOfType rfl rfl
    (map₂_valid (loc_valid rfl) (nodesWithHoles_valid rfl (forall_of_elements hs)))

theorem nodeOfType_unknown {type : String} (h : type ∉ knownTypes) (fields : Fields)
    (child : ChildReader fields) : nodeOfType type fields child = (.unsupported · type) <$> loc fields := by
  unfold nodeOfType
  split
  case h_33 => rfl
  all_goals exact absurd (by decide) h

/-- So is a node of an unknown type. -/
theorem loads_unsupported (loc : Loc) {type : String} (h : type ∉ knownTypes) :
    Loads (.unsupported loc type) := by
  refine loads_of_nodeOfType rfl rfl ?_
  rw [nodeOfType_unknown h]
  exact map_valid (loc_valid rfl)

end Document

end RhoScript
