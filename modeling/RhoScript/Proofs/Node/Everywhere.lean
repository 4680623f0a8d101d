import RhoScript.Node

/-!
# What holds everywhere in a syntax tree

The children of a node are the nodes that it is made of. A property holds everywhere in a tree if it
holds of all nodes of the tree, that is of its top and everywhere in the children of that
(`everywhere_iff`).
-/

namespace RhoScript.Node

/-- The nodes that a node is made of. -/
def children : Node → List Node
  | .program _ body | .blockStatement _ body => body
  | .importDeclaration _ specifiers source => specifiers ++ [source]
  | .importDefaultSpecifier _ binding | .importNamespaceSpecifier _ binding => [binding]
  | .importSpecifier _ binding imported => [binding, imported]
  | .exportDefaultDeclaration _ declaration => [declaration]
  | .functionDeclaration _ id params body _ | .functionExpression _ id params body _ =>
    id.toList ++ params ++ [body]
  | .variableDeclaration _ declarations _ => declarations
  | .variableDeclarator _ id init => id :: init.toList
  | .expressionStatement _ expression => [expression]
  | .ifStatement _ test consequent alternate => test :: consequent :: alternate.toList
  | .switchStatement _ discriminant cases => discriminant :: cases
  | .switchCase _ test consequent => test.toList ++ consequent
  | .returnStatement _ argument => argument.toList
  | .breakStatement _ label => label.toList
  | .throwStatement _ argument | .awaitExpression _ argument
  | .unaryExpression _ _ argument _ => [argument]
  | .callExpression _ callee arguments => callee :: arguments
  | .memberExpression _ object member _ => [object, member]
  | .binaryExpression _ _ left right | .logicalExpression _ _ left right => [left, right]
  | .thisExpression _ | .identifier _ _ | .literal _ _ _ | .unsupported _ _ => []
  | .objectExpression _ properties | .objectPattern _ properties => properties
  | .property _ key value _ _ _ _ => [key, value]
  | .arrayExpression _ elements | .arrayPattern _ elements => elements.filterMap id

mutual

/-- The nodes below a node. -/
def descendants (n : Node) : List Node :=
  match n with
  | .program _ body | .blockStatement _ body => nodesAll body
  | .importDeclaration _ specifiers source => nodesAll specifiers ++ source :: source.descendants
  | .importDefaultSpecifier _ binding | .importNamespaceSpecifier _ binding =>
    binding :: binding.descendants
  | .importSpecifier _ binding imported =>
    binding :: binding.descendants ++ imported :: imported.descendants
  | .exportDefaultDeclaration _ declaration => declaration :: declaration.descendants
  | .functionDeclaration _ id params body _ | .functionExpression _ id params body _ =>
    nodesOption id ++ nodesAll params ++ body :: body.descendants
  | .variableDeclaration _ declarations _ => nodesAll declarations
  | .variableDeclarator _ id init => id :: id.descendants ++ nodesOption init
  | .expressionStatement _ expression => expression :: expression.descendants
  | .ifStatement _ test consequent alternate =>
    test :: test.descendants ++ consequent :: consequent.descendants ++ nodesOption alternate
  | .switchStatement _ discriminant cases =>
    discriminant :: discriminant.descendants ++ nodesAll cases
  | .switchCase _ test consequent => nodesOption test ++ nodesAll consequent
  | .returnStatement _ argument => nodesOption argument
  | .breakStatement _ label => nodesOption label
  | .throwStatement _ argument | .awaitExpression _ argument
  | .unaryExpression _ _ argument _ => argument :: argument.descendants
  | .callExpression _ callee arguments => callee :: callee.descendants ++ nodesAll arguments
  | .memberExpression _ object member _ =>
    object :: object.descendants ++ member :: member.descendants
  | .binaryExpression _ _ left right | .logicalExpression _ _ left right =>
    left :: left.descendants ++ right :: right.descendants
  | .thisExpression _ | .identifier _ _ | .literal _ _ _ | .unsupported _ _ => []
  | .objectExpression _ properties | .objectPattern _ properties => nodesAll properties
  | .property _ key value _ _ _ _ => key :: key.descendants ++ value :: value.descendants
  | .arrayExpression _ elements | .arrayPattern _ elements => nodesElements elements
termination_by structural n

/-- The nodes of trees. -/
def nodesAll (ns : List Node) : List Node :=
  match ns with
  | [] => []
  | n :: rest => n :: n.descendants ++ nodesAll rest
termination_by structural ns

/-- The nodes of a tree, if there is one. -/
def nodesOption (n : Option Node) : List Node :=
  match n with
  | none => []
  | some n => n :: n.descendants
termination_by structural n

/-- The nodes of the elements of an array. -/
def nodesElements (es : List (Option Node)) : List Node :=
  match es with
  | [] => []
  | e :: rest => nodesOption e ++ nodesElements rest
termination_by structural es

end

/-- All nodes of a tree. -/
def nodes (n : Node) : List Node := n :: n.descendants

theorem nodesAll_eq (ns : List Node) : nodesAll ns = ns.flatMap nodes := by
  induction ns with
  | nil => rfl
  | cons n rest ih => simp [nodesAll, nodes, ih]

theorem nodesOption_eq (o : Option Node) : nodesOption o = o.toList.flatMap nodes := by
  cases o <;> simp [nodesOption, nodes]

theorem nodesElements_eq (es : List (Option Node)) :
    nodesElements es = (es.filterMap id).flatMap nodes := by
  induction es with
  | nil => rfl
  | cons e rest ih => cases e <;> simp [nodesElements, nodesOption_eq, ih]

/-- Below a node are the nodes of its children. -/
theorem descendants_eq (n : Node) : n.descendants = n.children.flatMap nodes := by
  cases n <;> simp [descendants, children, nodesAll_eq, nodesOption_eq, nodesElements_eq, nodes]

/-- The property `P` holds of all nodes of the tree. -/
def Everywhere (P : Node → Prop) (n : Node) : Prop := ∀ m ∈ n.nodes, P m

variable {P : Node → Prop} {n m : Node}

theorem forall_mem_pair {a b : Node} (ha : P a) (hb : P b) : ∀ m ∈ [a, b], P m :=
  List.forall_mem_cons.mpr ⟨ha, List.forall_mem_singleton.mpr hb⟩

/-- All nodes of a tree are its top and the nodes of its children. -/
theorem mem_nodes : m ∈ n.nodes ↔ m = n ∨ ∃ c ∈ n.children, m ∈ c.nodes := by
  rw [nodes, descendants_eq, List.mem_cons, List.mem_flatMap]

/-- The nodes of a tree within a tree are nodes of that. -/
theorem mem_nodes_trans {k : Node} (hk : k ∈ m.nodes) (hm : m ∈ n.nodes) : k ∈ n.nodes := by
  -- by induction on the number of nodes, since the nodes of a child are fewer
  induction hlength : n.nodes.length using Nat.strongRecOn generalizing n with
  | ind length ih =>
    obtain rfl | ⟨c, hc, hm⟩ := mem_nodes.mp hm
    · exact hk
    · have hlt : c.nodes.length < length := by
        have hle := (List.sublist_flatten_of_mem (List.mem_map_of_mem (f := nodes) hc)).length_le
        rw [← hlength, nodes.eq_def n, descendants_eq, List.flatMap, List.length_cons]
        omega
      exact mem_nodes.mpr (.inr ⟨c, hc, ih _ hlt hm rfl⟩)

theorem everywhere_iff : n.Everywhere P ↔ P n ∧ ∀ m ∈ n.children, m.Everywhere P := by
  constructor
  · intro h
    exact ⟨h n (mem_nodes.mpr (.inl rfl)), fun c hc m hm => h m (mem_nodes.mpr (.inr ⟨c, hc, hm⟩))⟩
  · rintro ⟨hn, hchildren⟩ m hm
    obtain rfl | ⟨c, hc, hm⟩ := mem_nodes.mp hm
    · exact hn
    · exact hchildren c hc m hm

namespace Everywhere

theorem here (h : Everywhere P n) : P n := (everywhere_iff.mp h).1

theorem child (h : Everywhere P n) (hm : m ∈ n.children) : Everywhere P m :=
  (everywhere_iff.mp h).2 m hm

end Everywhere

end RhoScript.Node
