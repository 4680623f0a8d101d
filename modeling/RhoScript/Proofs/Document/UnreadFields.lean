import Mathlib.Logic.Relation
import RhoScript.Proofs.Document.Description

/-!
# Fields that are not read

The objects of a document are nodes, locations and positions, and each has its fields: `Shape.fields` lists
them with what stands in them. An edit gives one of these objects, at any depth, other fields beside its
own (`Edit`).

Main statement: documents that differ by edits are loaded alike, as the same tree or with the same issues
(`load_eq_of_edits`). What is read of an object only depends on its fields (`Shape.Agree.alike`), and by
induction on where the edit is made all objects around it are read alike too (`Edit.alike`).
-/

namespace RhoScript.Document

open Json

/-! ### The fields of objects -/

/-- The shapes of objects in a document. -/
inductive Shape where
  | node
  | location
  | position
deriving DecidableEq, Repr, Inhabited

/-- What stands in a field: a text, number, flag or value, an object, or a list of nodes. -/
inductive Part where
  | plain
  | object (shape : Shape)
  | nodes
deriving DecidableEq, Repr, Inhabited

/-- A field with a node. -/
abbrev Part.node : Part := .object .node

/-- The fields of the nodes of a type, beside type and location. A node of an unknown type has none. -/
def partsOf : String → List (String × Part)
  | "Program" => [("body", .nodes)]
  | "ImportDeclaration" => [("specifiers", .nodes), ("source", .node)]
  | "ImportDefaultSpecifier" => [("local", .node)]
  | "ImportSpecifier" => [("local", .node), ("imported", .node)]
  | "ImportNamespaceSpecifier" => [("local", .node)]
  | "ExportDefaultDeclaration" => [("declaration", .node)]
  | "FunctionDeclaration" =>
    [("id", .node), ("params", .nodes), ("body", .node), ("async", .plain), ("is_async", .plain)]
  | "FunctionExpression" =>
    [("id", .node), ("params", .nodes), ("body", .node), ("async", .plain), ("is_async", .plain)]
  | "BlockStatement" => [("body", .nodes)]
  | "VariableDeclaration" => [("declarations", .nodes), ("kind", .plain)]
  | "VariableDeclarator" => [("id", .node), ("init", .node)]
  | "ExpressionStatement" => [("expression", .node)]
  | "IfStatement" => [("test", .node), ("consequent", .node), ("alternate", .node)]
  | "SwitchStatement" => [("discriminant", .node), ("cases", .nodes)]
  | "SwitchCase" => [("test", .node), ("consequent", .nodes)]
  | "ReturnStatement" => [("argument", .node)]
  | "BreakStatement" => [("label", .node)]
  | "ThrowStatement" => [("argument", .node)]
  | "CallExpression" => [("callee", .node), ("arguments", .nodes)]
  | "MemberExpression" => [("object", .node), ("property", .node), ("computed", .plain)]
  | "AwaitExpression" => [("argument", .node)]
  | "BinaryExpression" => [("operator", .plain), ("left", .node), ("right", .node)]
  | "LogicalExpression" => [("operator", .plain), ("left", .node), ("right", .node)]
  | "UnaryExpression" => [("operator", .plain), ("argument", .node), ("prefix", .plain)]
  | "ThisExpression" => []
  | "Identifier" => [("name", .plain)]
  | "Literal" => [("value", .plain), ("raw", .plain)]
  | "ObjectExpression" => [("properties", .nodes)]
  | "Property" =>
    [("key", .node), ("value", .node), ("kind", .plain), ("method", .plain), ("shorthand", .plain),
      ("computed", .plain)]
  | "ArrayExpression" => [("elements", .nodes)]
  | "ObjectPattern" => [("properties", .nodes)]
  | "ArrayPattern" => [("elements", .nodes)]
  | _ => []

/-- All fields of the nodes of a type. -/
def allPartsOf (type : String) : List (String × Part) :=
  ("type", .plain) :: ("loc", .object .location) :: partsOf type

/-- The fields of an object of a shape. An object at the place of a node that names no type has no other
fields. -/
def Shape.fields : Shape → Fields → List (String × Part)
  | .node, fields =>
    match lastField? "type" fields with
    | some (.string type) => allPartsOf type
    | _ => [("type", .plain)]
  | .location, _ => [("start", .object .position), ("end", .object .position)]
  | .position, _ => [("line", .plain), ("column", .plain)]

/-- `Edit part v w`: the value `w` is `v` with other fields in one of its objects, beside those that such
an object has. -/
inductive Edit : Part → Json → Json → Prop
  /-- Fields are added, changed or removed in the object itself. -/
  | here {shape : Shape} {fields fields' : Fields} :
      (∀ name part, (shape.fields fields).lookup name = some part →
        lastField? name fields = lastField? name fields') →
      Edit (.object shape) (.object fields) (.object fields')
  /-- The edit is made inside a field of an object. -/
  | field {shape : Shape} {name : String} {part : Part} {before after : Fields} {v w : Json} :
      (shape.fields (before ++ (name, v) :: after)).lookup name = some part → Edit part v w →
      Edit (.object shape) (.object (before ++ (name, v) :: after)) (.object (before ++ (name, w) :: after))
  /-- The edit is made inside a member of a list. -/
  | member {before after : List Json} {v w : Json} : Edit .node v w →
      Edit .nodes (.array (before ++ v :: after)) (.array (before ++ w :: after))

/-! ### Values that are read alike -/

/-- Objects of a shape are read alike. -/
def Shape.Alike : Shape → Json → Json → Prop
  | .node, v, w => load v = load w
  | .location, v, w => Document.location v = Document.location w
  | .position, v, w => Document.position v = Document.position w

/-- Both values are absent, or they are read alike. -/
def Part.Alike : Part → Json → Json → Prop
  | .plain, v, w => v = w
  | .object shape, v, w => (v = .null ↔ w = .null) ∧ shape.Alike v w
  | .nodes, v, w => v = w ∨ ∃ items items', v = .array items ∧ w = .array items' ∧
      List.Forall₂ (fun x y => (x = .null ↔ y = .null) ∧ load x = load y) items items'

theorem Part.alike_refl (part : Part) (v : Json) : part.Alike v v := by
  cases part with
  | plain => rfl
  | object shape => cases shape <;> exact ⟨Iff.rfl, rfl⟩
  | nodes => exact .inl rfl

/-- The field is in both objects and is read alike, or in neither. -/
def FieldAlike (part : Part) (name : String) (fields fields' : Fields) : Prop :=
  Option.Rel part.Alike (lastField? name fields) (lastField? name fields')

theorem FieldAlike.of_eq {name : String} {fields fields' : Fields} (part : Part)
    (h : lastField? name fields = lastField? name fields') : FieldAlike part name fields fields' := by
  unfold FieldAlike
  rw [h]
  cases lastField? name fields' with
  | none => exact .none
  | some v => exact .some (part.alike_refl v)

theorem FieldAlike.cases {part : Part} {name : String} {fields fields' : Fields}
    (h : FieldAlike part name fields fields') :
    (lastField? name fields = none ∧ lastField? name fields' = none) ∨
      ∃ v w, lastField? name fields = some v ∧ lastField? name fields' = some w ∧ part.Alike v w := by
  unfold FieldAlike at h
  generalize lastField? name fields = x at h ⊢
  generalize lastField? name fields' = y at h ⊢
  cases h with
  | none => exact .inl ⟨rfl, rfl⟩
  | some hvalue => exact .inr ⟨_, _, rfl, rfl, hvalue⟩

theorem FieldAlike.eq_of_plain {name : String} {fields fields' : Fields}
    (h : FieldAlike .plain name fields fields') : lastField? name fields = lastField? name fields' := by
  obtain ⟨hx, hy⟩ | ⟨v, w, hx, hy, rfl⟩ := h.cases
  · rw [hx, hy]
  · rw [hx, hy]

/-- All fields of an object of a shape are read alike. -/
def Shape.Agree (shape : Shape) (fields fields' : Fields) : Prop :=
  ∀ name part, (shape.fields fields).lookup name = some part → FieldAlike part name fields fields'

/-! ### Fields are read alike -/

section Readers

variable {α : Type} {part : Part} {name : String} {fields fields' : Fields} {read : Json → Validated α}

theorem required_alike (h : FieldAlike part name fields fields')
    (hread : ∀ {v w}, part.Alike v w → read v = read w) :
    required read name fields = required read name fields' := by
  unfold required
  obtain ⟨hx, hy⟩ | ⟨v, w, hx, hy, hvalue⟩ := h.cases
  · rw [hx, hy]
  · simp only [hx, hy, hread hvalue]

theorem withDefault_alike {default : α} (h : FieldAlike part name fields fields')
    (hread : ∀ {v w}, part.Alike v w → read v = read w) :
    withDefault default read name fields = withDefault default read name fields' := by
  unfold withDefault
  obtain ⟨hx, hy⟩ | ⟨v, w, hx, hy, hvalue⟩ := h.cases
  · rw [hx, hy]
  · simp only [hx, hy, hread hvalue]

theorem nullable_of_ne {v : Json} (h : v ≠ .null) : nullable read v = some <$> read v := by
  cases v with
  | null => exact absurd rfl h
  | _ => rfl

theorem nullable_alike {v w : Json} (hnull : v = .null ↔ w = .null) (h : read v = read w) :
    nullable read v = nullable read w := by
  by_cases hv : v = .null
  · rw [hv, hnull.mp hv]
  · have hw : w ≠ .null := fun hw => hv (hnull.mpr hw)
    rw [nullable_of_ne hv, nullable_of_ne hw, h]

/-- Reads the members of a list. -/
def listOf (read : Json → Validated α) : Json → Validated (List α)
  | .array items => .list read 0 items
  | _ => .fail .listType

end Readers

/-- A list is read alike if its members are. -/
theorem list_eq_of_map_eq {α β γ : Type} {read : α → Validated γ} {read' : β → Validated γ}
    {as : List α} {bs : List β} (h : as.map read = bs.map read') (i : Nat) :
    Validated.list read i as = Validated.list read' i bs := by
  induction as generalizing bs i with
  | nil =>
    obtain rfl := List.map_eq_nil_iff.mp h.symm
    rfl
  | cons a as ih =>
    obtain ⟨b, bs, rfl, hab, hrest⟩ := List.map_eq_cons_iff.mp h.symm
    rw [Validated.list, Validated.list, hab, ih hrest.symm]

theorem listOf_alike {α : Type} {read : Json → Validated α} {v w : Json} (h : Part.nodes.Alike v w)
    (hread : ∀ {x y}, Part.node.Alike x y → read x = read y) : listOf read v = listOf read w := by
  obtain rfl | ⟨items, items', rfl, rfl, hitems⟩ := h
  · rfl
  · have hmap : items.map read = items'.map read := by
      induction hitems with
      | nil => rfl
      | cons hitem _ ih => rw [List.map_cons, List.map_cons, hread hitem, ih]
    exact list_eq_of_map_eq hmap 0

section Nodes

variable {name : String} {fields fields' : Fields}

theorem node_children : node (children fields) name = required load name fields := by
  unfold node required
  split
  · rename_i value hvalue
    simp only [hvalue]
  · rename_i hnone
    simp only [hnone]

theorem node?_children :
    node? (children fields) name = withDefault none (nullable load) name fields := by
  unfold node? withDefault
  split
  · rename_i hnull
    simp only [hnull]
    rfl
  · rename_i value hne hvalue
    simp only [hvalue, nullable_of_ne hne]
  · rename_i hnone
    simp only [hnone]

theorem members_eq {α : Type} (read : Json → Validated α) :
    members name (fun value (_ : sizeOf value < sizeOf fields) => read value) =
      withDefault [] (listOf read) name fields := by
  unfold members withDefault
  split
  · rename_i items hitems
    have hmap : items.attach.map (fun item => read item.1) = items.map read := by
      conv => rhs; rw [← List.attach_map_subtype_val items, List.map_map]
      rfl
    simp only [hitems, listOf]
    rw [list_eq_of_map_eq hmap]
  · rename_i value hne hvalue
    simp only [hvalue]
    cases value with
    | array items => exact absurd rfl (hne items)
    | _ => rfl
  · rename_i hnone
    simp only [hnone]

theorem nodes_children : nodes (children fields) name = withDefault [] (listOf load) name fields :=
  members_eq load

theorem nodesWithHoles_children :
    nodesWithHoles (children fields) name = withDefault [] (listOf (nullable load)) name fields := by
  rw [← members_eq]
  unfold nodesWithHoles
  congr 1
  funext value _
  cases value <;> rfl

theorem node_alike (h : FieldAlike .node name fields fields') :
    node (children fields) name = node (children fields') name := by
  rw [node_children, node_children]
  exact required_alike h And.right

theorem node?_alike (h : FieldAlike .node name fields fields') :
    node? (children fields) name = node? (children fields') name := by
  rw [node?_children, node?_children]
  exact withDefault_alike h fun hvalue => nullable_alike hvalue.1 hvalue.2

theorem nodes_alike (h : FieldAlike .nodes name fields fields') :
    nodes (children fields) name = nodes (children fields') name := by
  rw [nodes_children, nodes_children]
  exact withDefault_alike h fun hvalue => listOf_alike hvalue And.right

theorem nodesWithHoles_alike (h : FieldAlike .nodes name fields fields') :
    nodesWithHoles (children fields) name = nodesWithHoles (children fields') name := by
  rw [nodesWithHoles_children, nodesWithHoles_children]
  exact withDefault_alike h fun hvalue => listOf_alike hvalue fun hitem => nullable_alike hitem.1 hitem.2

theorem loc_alike (h : FieldAlike (.object .location) "loc" fields fields') : loc fields = loc fields' :=
  withDefault_alike h fun hvalue => nullable_alike hvalue.1 hvalue.2

theorem asyncFlag_alike (h : FieldAlike .plain "async" fields fields')
    (halias : FieldAlike .plain "is_async" fields fields') : asyncFlag fields = asyncFlag fields' := by
  unfold asyncFlag
  rw [h.eq_of_plain, withDefault_alike halias (congrArg flag)]

/-- A node of a type is read alike, if all its fields are. -/
theorem nodeOfType_alike {type : String}
    (h : ∀ name part, (allPartsOf type).lookup name = some part → FieldAlike part name fields fields') :
    nodeOfType type fields (children fields) = nodeOfType type fields' (children fields') := by
  unfold nodeOfType
  split
  case h_1 =>
    rw [loc_alike (h "loc" _ rfl), nodes_alike (h "body" _ rfl)]
  case h_2 =>
    rw [loc_alike (h "loc" _ rfl), nodes_alike (h "specifiers" _ rfl), node_alike (h "source" _ rfl)]
  case h_3 =>
    rw [loc_alike (h "loc" _ rfl), node_alike (h "local" _ rfl)]
  case h_4 =>
    rw [loc_alike (h "loc" _ rfl), node_alike (h "local" _ rfl), node_alike (h "imported" _ rfl)]
  case h_5 =>
    rw [loc_alike (h "loc" _ rfl), node_alike (h "local" _ rfl)]
  case h_6 =>
    rw [loc_alike (h "loc" _ rfl), node_alike (h "declaration" _ rfl)]
  case h_7 =>
    rw [loc_alike (h "loc" _ rfl), node?_alike (h "id" _ rfl), nodes_alike (h "params" _ rfl),
      node_alike (h "body" _ rfl), asyncFlag_alike (h "async" _ rfl) (h "is_async" _ rfl)]
  case h_8 =>
    rw [loc_alike (h "loc" _ rfl), node?_alike (h "id" _ rfl), nodes_alike (h "params" _ rfl),
      node_alike (h "body" _ rfl), asyncFlag_alike (h "async" _ rfl) (h "is_async" _ rfl)]
  case h_9 =>
    rw [loc_alike (h "loc" _ rfl), nodes_alike (h "body" _ rfl)]
  case h_10 =>
    rw [loc_alike (h "loc" _ rfl), nodes_alike (h "declarations" _ rfl),
      withDefault_alike (h "kind" _ rfl) (congrArg _)]
  case h_11 =>
    rw [loc_alike (h "loc" _ rfl), node_alike (h "id" _ rfl), node?_alike (h "init" _ rfl)]
  case h_12 =>
    rw [loc_alike (h "loc" _ rfl), node_alike (h "expression" _ rfl)]
  case h_13 =>
    rw [loc_alike (h "loc" _ rfl), node_alike (h "test" _ rfl), node_alike (h "consequent" _ rfl),
      node?_alike (h "alternate" _ rfl)]
  case h_14 =>
    rw [loc_alike (h "loc" _ rfl), node_alike (h "discriminant" _ rfl), nodes_alike (h "cases" _ rfl)]
  case h_15 =>
    rw [loc_alike (h "loc" _ rfl), node?_alike (h "test" _ rfl), nodes_alike (h "consequent" _ rfl)]
  case h_16 =>
    rw [loc_alike (h "loc" _ rfl), node?_alike (h "argument" _ rfl)]
  case h_17 =>
    rw [loc_alike (h "loc" _ rfl), node?_alike (h "label" _ rfl)]
  case h_18 =>
    rw [loc_alike (h "loc" _ rfl), node_alike (h "argument" _ rfl)]
  case h_19 =>
    rw [loc_alike (h "loc" _ rfl), node_alike (h "callee" _ rfl), nodes_alike (h "arguments" _ rfl)]
  case h_20 =>
    rw [loc_alike (h "loc" _ rfl), node_alike (h "object" _ rfl), node_alike (h "property" _ rfl),
      withDefault_alike (h "computed" _ rfl) (congrArg _)]
  case h_21 =>
    rw [loc_alike (h "loc" _ rfl), node_alike (h "argument" _ rfl)]
  case h_22 =>
    rw [loc_alike (h "loc" _ rfl), required_alike (h "operator" _ rfl) (congrArg _),
      node_alike (h "left" _ rfl), node_alike (h "right" _ rfl)]
  case h_23 =>
    rw [loc_alike (h "loc" _ rfl), required_alike (h "operator" _ rfl) (congrArg _),
      node_alike (h "left" _ rfl), node_alike (h "right" _ rfl)]
  case h_24 =>
    rw [loc_alike (h "loc" _ rfl), required_alike (h "operator" _ rfl) (congrArg _),
      node_alike (h "argument" _ rfl), withDefault_alike (h "prefix" _ rfl) (congrArg _)]
  case h_25 =>
    rw [loc_alike (h "loc" _ rfl)]
  case h_26 =>
    rw [loc_alike (h "loc" _ rfl), required_alike (h "name" _ rfl) (congrArg _)]
  case h_27 =>
    rw [loc_alike (h "loc" _ rfl), withDefault_alike (h "value" _ rfl) (congrArg _),
      withDefault_alike (h "raw" _ rfl) (congrArg _)]
  case h_28 =>
    rw [loc_alike (h "loc" _ rfl), nodes_alike (h "properties" _ rfl)]
  case h_29 =>
    rw [loc_alike (h "loc" _ rfl), node_alike (h "key" _ rfl), node_alike (h "value" _ rfl),
      withDefault_alike (h "kind" _ rfl) (congrArg _), withDefault_alike (h "method" _ rfl) (congrArg _),
      withDefault_alike (h "shorthand" _ rfl) (congrArg _),
      withDefault_alike (h "computed" _ rfl) (congrArg _)]
  case h_30 =>
    rw [loc_alike (h "loc" _ rfl), nodesWithHoles_alike (h "elements" _ rfl)]
  case h_31 =>
    rw [loc_alike (h "loc" _ rfl), nodes_alike (h "properties" _ rfl)]
  case h_32 =>
    rw [loc_alike (h "loc" _ rfl), nodesWithHoles_alike (h "elements" _ rfl)]
  case h_33 =>
    rw [loc_alike (h "loc" _ rfl)]

end Nodes

/-! ### Objects are read alike -/

section Objects

variable {shape : Shape} {fields fields' : Fields}

theorem fields_node_of_string {type : String} (h : lastField? "type" fields = some (.string type)) :
    Shape.node.fields fields = allPartsOf type := by
  simp only [Shape.fields, h]

/-- Objects at the places of nodes agree on their types. -/
theorem Shape.Agree.type_eq (h : Shape.node.Agree fields fields') :
    lastField? "type" fields = lastField? "type" fields' := by
  have htype : FieldAlike .plain "type" fields fields' := by
    apply h
    simp only [Shape.fields]
    split <;> rfl
  exact htype.eq_of_plain

/-- **What is read of an object only depends on its fields.** -/
theorem Shape.Agree.alike (h : shape.Agree fields fields') :
    shape.Alike (.object fields) (.object fields') := by
  cases shape with
  | node =>
    have htype := h.type_eq
    show load (.object fields) = load (.object fields')
    rw [load, load, ← htype]
    split
    · rename_i type hstring
      have hfields : nodeOfType type fields (children fields) = nodeOfType type fields' (children fields') := by
        apply nodeOfType_alike
        rw [← fields_node_of_string hstring]
        exact h
      rw [hfields]
    · rfl
  | location =>
    show Document.location (.object fields) = Document.location (.object fields')
    rw [Document.location, Document.location]
    rw [required_alike (h "start" _ rfl) And.right,
      withDefault_alike (h "end" _ rfl) fun hvalue => nullable_alike hvalue.1 hvalue.2]
  | position =>
    show Document.position (.object fields) = Document.position (.object fields')
    rw [Document.position, Document.position]
    rw [required_alike (h "line" _ rfl) (congrArg _), required_alike (h "column" _ rfl) (congrArg _)]

/-! ### Edits -/

/-- A field of the object that has another value: the fields are the same but for that value, if it counts. -/
theorem fieldAlike_of_replaced {name : String} {part : Part} {before after : Fields} {v w : Json}
    (h : part.Alike v w) (name' : String) (part' : Part) (hpart : name' = name → part' = part) :
    FieldAlike part' name' (before ++ (name, v) :: after) (before ++ (name, w) :: after) := by
  induction before with
  | nil =>
    unfold FieldAlike
    rw [List.nil_append, List.nil_append, lastField?, lastField?]
    split
    · exact .some (part'.alike_refl _)
    · split
      · rename_i hname
        rw [hpart hname.symm]
        exact .some h
      · exact .none
  | cons first before ih =>
    obtain ⟨key, value⟩ := first
    unfold FieldAlike at ih ⊢
    rw [List.cons_append, List.cons_append, lastField?, lastField?]
    generalize lastField? name' (before ++ (name, v) :: after) = x at ih
    generalize lastField? name' (before ++ (name, w) :: after) = y at ih
    cases ih with
    | none =>
      dsimp only
      split
      · exact .some (part'.alike_refl value)
      · exact .none
    | some hvalue => exact .some hvalue

/-- **An edit leaves a value as it is read.** The induction is on where the edit is made. -/
theorem Edit.alike {part : Part} {v w : Json} (h : Edit part v w) : part.Alike v w := by
  induction h with
  | here h =>
    refine ⟨by simp, Shape.Agree.alike ?_⟩
    intro name part hname
    exact .of_eq part (h name part hname)
  | @field shape name part before after v w hname _ ih =>
    refine ⟨by simp, Shape.Agree.alike ?_⟩
    intro name' part' hname'
    apply fieldAlike_of_replaced ih
    rintro rfl
    exact Option.some.inj (hname'.symm.trans hname)
  | @member before after v w _ ih =>
    refine .inr ⟨_, _, rfl, rfl, ?_⟩
    have hsame : ∀ items : List Json, List.Forall₂ Part.node.Alike items items :=
      fun items => List.forall₂_same.mpr fun item _ => Part.node.alike_refl item
    exact List.rel_append (hsame before) (.cons ih (hsame after))

theorem lastField?_middle_of_ne {name key : String} {before after : Fields} {v : Json} (h : key ≠ name) :
    lastField? name (before ++ (key, v) :: after) = lastField? name (before ++ after) := by
  induction before with
  | nil =>
    rw [List.nil_append, List.nil_append, lastField?, if_neg h]
    cases lastField? name after <;> rfl
  | cons first before ih => rw [List.cons_append, List.cons_append, lastField?, lastField?, ih]

/-- A field that an object of the shape does not have is added. -/
theorem Edit.added {key : String} {before after : Fields} (v : Json)
    (h : (shape.fields (before ++ after)).lookup key = none) :
    Edit (.object shape) (.object (before ++ after)) (.object (before ++ (key, v) :: after)) := by
  refine .here fun name part hname => (lastField?_middle_of_ne ?_).symm
  rintro rfl
  rw [h] at hname
  cases hname

/-- A field that an object of the shape does not have is removed. -/
theorem Edit.removed {key : String} {before after : Fields} {v : Json}
    (h : (shape.fields (before ++ (key, v) :: after)).lookup key = none) :
    Edit (.object shape) (.object (before ++ (key, v) :: after)) (.object (before ++ after)) := by
  refine .here fun name part hname => lastField?_middle_of_ne ?_
  rintro rfl
  rw [h] at hname
  cases hname

end Objects

/-- **Fields beside those of an object, and all that is inside a node of an unknown type, do not matter**: a
document and any edit of it, at any number of places, are loaded alike. -/
theorem load_eq_of_edits {document document' : Json}
    (h : Relation.ReflTransGen (Edit .node) document document') : load document = load document' := by
  induction h with
  | refl => rfl
  | tail _ hedit ih => exact ih.trans hedit.alike.2

/-- A program with a statement that starts at a position and with a loop. -/
def loopDocument (start loop : Fields) : Json :=
  .object [("type", .string "Program"),
    ("body", .array
      [.object [("type", .string "ExpressionStatement"), ("loc", .object [("start", .object start)]),
        ("expression", .object [("type", .string "ThisExpression")])],
        .object loop])]

/-- The position of the statement has one more field, and the loop, whose type is unknown, no test. -/
theorem load_loopDocument_eq :
    load (loopDocument [("line", .int 1), ("column", .int 0)]
      [("type", .string "WhileStatement"), ("test", .object [("type", .bool true)])]) =
    load (loopDocument [("offset", .int 7), ("line", .int 1), ("column", .int 0)]
      [("type", .string "WhileStatement")]) := by
  have hstart : Edit (.object .position) (.object [("line", .int 1), ("column", .int 0)])
      (.object [("offset", .int 7), ("line", .int 1), ("column", .int 0)]) :=
    @Edit.added _ _ [] _ _ rfl
  have hloop : Edit .node
      (.object [("type", .string "WhileStatement"), ("test", .object [("type", .bool true)])])
      (.object [("type", .string "WhileStatement")]) :=
    @Edit.removed _ _ [("type", .string "WhileStatement")] [] _ rfl
  apply load_eq_of_edits
  refine .tail (.single (b := loopDocument [("offset", .int 7), ("line", .int 1), ("column", .int 0)]
    [("type", .string "WhileStatement"), ("test", .object [("type", .bool true)])]) ?_) ?_
  · refine @Edit.field .node "body" .nodes [("type", .string "Program")] [] _ _ rfl ?_
    refine @Edit.member [] _ _ _ ?_
    refine @Edit.field .node "loc" _ [("type", .string "ExpressionStatement")] _ _ _ rfl ?_
    exact @Edit.field .location "start" _ [] [] _ _ rfl hstart
  · refine @Edit.field .node "body" .nodes [("type", .string "Program")] [] _ _ rfl ?_
    exact @Edit.member [_] [] _ _ hloop

end RhoScript.Document
