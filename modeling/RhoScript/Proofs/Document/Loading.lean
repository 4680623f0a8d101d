import RhoScript.Proofs.Document.Description
import RhoScript.Proofs.Source.Faithful
import RhoScript.Proofs.Source.Parametricity

/-!
# What is loaded, and what is read

What nodes of all forms have if their parts have it is a property of every tree that is read from a source
(`keeps_readProgram`) and, if nodes of unknown types have it too, of every tree that is loaded from a
document (`keeps_load`). To be loaded from its own document is such a property. Main statements: so all
trees that one front end or the other makes are loaded from their documents (`loads_of_readProgram`,
`loads_of_load`).
-/

namespace RhoScript.Document

open Json Node

variable {α β : Type}

/-! ### Valid results -/

theorem inField_eq_valid {name : String} {x : Validated α} {a : α}
    (h : Validated.inField name x = .valid a) : x = .valid a := by
  cases x with
  | valid b => exact h
  | invalid issues => cases h

theorem map_eq_valid {f : α → β} {x : Validated α} {b : β} (h : f <$> x = .valid b) :
    ∃ a, x = .valid a ∧ f a = b := by
  cases x with
  | valid a => exact ⟨a, rfl, Validated.valid.inj h⟩
  | invalid issues => cases h

theorem seq_eq_valid {x : Validated (α → β)} {y : Validated α} {b : β} (h : x <*> y = .valid b) :
    ∃ f a, x = .valid f ∧ y = .valid a ∧ f a = b := by
  cases x with
  | valid f => cases y with
    | valid a => exact ⟨f, a, rfl, rfl, Validated.valid.inj h⟩
    | invalid issues => cases h
  | invalid issues => cases y <;> cases h

section Map

variable {γ δ ε : Type} {w : Validated α} {x : Validated β} {y : Validated γ} {z : Validated δ}

theorem map₂_eq_valid {f : α → β → γ} {r : γ} (h : f <$> w <*> x = .valid r) :
    ∃ a b, w = .valid a ∧ x = .valid b ∧ f a b = r := by
  obtain ⟨_, b, hfirst, hx, rfl⟩ := seq_eq_valid h
  obtain ⟨a, hw, rfl⟩ := map_eq_valid hfirst
  exact ⟨a, b, hw, hx, rfl⟩

theorem map₃_eq_valid {f : α → β → γ → δ} {r : δ} (h : f <$> w <*> x <*> y = .valid r) :
    ∃ a b c, w = .valid a ∧ x = .valid b ∧ y = .valid c ∧ f a b c = r := by
  obtain ⟨_, c, hfirst, hy, rfl⟩ := seq_eq_valid h
  obtain ⟨a, b, hw, hx, rfl⟩ := map₂_eq_valid hfirst
  exact ⟨a, b, c, hw, hx, hy, rfl⟩

theorem map₄_eq_valid {f : α → β → γ → δ → ε} {r : ε} (h : f <$> w <*> x <*> y <*> z = .valid r) :
    ∃ a b c d, w = .valid a ∧ x = .valid b ∧ y = .valid c ∧ z = .valid d ∧ f a b c d = r := by
  obtain ⟨_, d, hfirst, hz, rfl⟩ := seq_eq_valid h
  obtain ⟨a, b, c, hw, hx, hy, rfl⟩ := map₃_eq_valid hfirst
  exact ⟨a, b, c, d, hw, hx, hy, hz, rfl⟩

end Map

theorem exists_of_mem_list {check : α → Validated β} {i : Nat} {as : List α} {bs : List β}
    (h : Validated.list check i as = .valid bs) : ∀ b ∈ bs, ∃ a ∈ as, check a = .valid b := by
  induction as generalizing i bs with
  | nil =>
    cases h
    exact nofun
  | cons a rest ih =>
    obtain ⟨b, bs, ha, hrest, rfl⟩ := map₂_eq_valid h
    have hb : check a = .valid b := by
      cases hcheck : check a with
      | valid c =>
        rw [hcheck] at ha
        exact ha
      | invalid issues =>
        rw [hcheck] at ha
        cases ha
    refine List.forall_mem_cons.mpr ⟨⟨a, List.mem_cons_self, hb⟩, fun c hc => ?_⟩
    obtain ⟨a', ha', hc⟩ := ih hrest c hc
    exact ⟨a', List.mem_cons_of_mem a ha', hc⟩

/-! ### Parts of nodes -/

section Parts

variable {R : Node → Node → Prop} {fields : Fields} {child : ChildReader fields} {name : String}

/-- The nodes that are read inside an object are related to themselves. -/
def Keeps (R : Node → Node → Prop) (child : ChildReader fields) : Prop :=
  ∀ value hlt m, child value hlt = .valid m → R m m

theorem keeps_node (h : Keeps R child) {m : Node} (hm : node child name = .valid m) : R m m := by
  unfold node at hm
  have hvalue := inField_eq_valid hm
  split at hvalue
  · exact h _ _ _ hvalue
  · cases hvalue

theorem keeps_node? (h : Keeps R child) {o : Option Node} (ho : node? child name = .valid o) :
    Option.Rel R o o := by
  unfold node? at ho
  split at ho
  · cases ho
    exact .none
  · obtain ⟨m, hm, rfl⟩ := map_eq_valid (inField_eq_valid ho)
    exact .some (h _ _ _ hm)
  · cases ho
    exact .none

theorem keeps_members {member : (value : Json) → sizeOf value < sizeOf fields → Validated α}
    {P : α → Prop} (h : ∀ value hlt a, member value hlt = .valid a → P a) {as : List α}
    (has : members name member = .valid as) : ∀ a ∈ as, P a := by
  unfold members at has
  split at has
  · intro a ha
    obtain ⟨item, -, hitem⟩ := exists_of_mem_list (inField_eq_valid has) a ha
    exact h _ _ _ hitem
  · cases inField_eq_valid has
  · cases has
    exact nofun

theorem keeps_nodes (h : Keeps R child) {ns : List Node} (hns : nodes child name = .valid ns) :
    List.Forall₂ R ns ns :=
  List.forall₂_same.mpr (keeps_members h hns)

theorem keeps_nodesWithHoles (h : Keeps R child) {es : List (Option Node)}
    (hes : nodesWithHoles child name = .valid es) : List.Forall₂ (Option.Rel R) es es := by
  refine List.forall₂_same.mpr (keeps_members ?_ hes)
  intro value hlt e he
  split at he
  · cases he
    exact .none
  · obtain ⟨m, hm, rfl⟩ := map_eq_valid he
    exact .some (h _ _ _ hm)

end Parts

/-! ### Trees -/

section Trees

variable {R : Node → Node → Prop}

theorem keeps_nodeOfType (hR : Congruence R)
    (hunknown : ∀ (loc : Loc) {type : String}, type ∉ knownTypes →
      R (.unsupported loc type) (.unsupported loc type))
    {type : String} {fields : Fields} {child : ChildReader fields} (hchild : Keeps R child) {n : Node}
    (h : nodeOfType type fields child = .valid n) : R n n := by
  unfold nodeOfType at h
  split at h
  case h_1 =>
    obtain ⟨_, _, -, hbody, rfl⟩ := map₂_eq_valid h
    exact hR.program (keeps_nodes hchild hbody)
  case h_2 =>
    obtain ⟨_, _, _, -, hspecifiers, hsource, rfl⟩ := map₃_eq_valid h
    exact hR.importDeclaration (keeps_nodes hchild hspecifiers) (keeps_node hchild hsource)
  case h_3 =>
    obtain ⟨_, _, -, hbinding, rfl⟩ := map₂_eq_valid h
    exact hR.importDefaultSpecifier (keeps_node hchild hbinding)
  case h_4 =>
    obtain ⟨_, _, _, -, hbinding, himported, rfl⟩ := map₃_eq_valid h
    exact hR.importSpecifier (keeps_node hchild hbinding) (keeps_node hchild himported)
  case h_5 =>
    obtain ⟨_, _, -, hbinding, rfl⟩ := map₂_eq_valid h
    exact hR.importNamespaceSpecifier (keeps_node hchild hbinding)
  case h_6 =>
    obtain ⟨_, _, -, hdeclaration, rfl⟩ := map₂_eq_valid h
    exact hR.exportDefaultDeclaration (keeps_node hchild hdeclaration)
  case h_7 =>
    obtain ⟨_, _, h₁, -, rfl⟩ := seq_eq_valid h
    obtain ⟨_, _, _, _, -, hid, hparams, hbody, rfl⟩ := map₄_eq_valid h₁
    exact hR.functionDeclaration (keeps_node? hchild hid) (keeps_nodes hchild hparams) (keeps_node hchild hbody)
  case h_8 =>
    obtain ⟨_, _, h₁, -, rfl⟩ := seq_eq_valid h
    obtain ⟨_, _, _, _, -, hid, hparams, hbody, rfl⟩ := map₄_eq_valid h₁
    exact hR.functionExpression (keeps_node? hchild hid) (keeps_nodes hchild hparams) (keeps_node hchild hbody)
  case h_9 =>
    obtain ⟨_, _, -, hbody, rfl⟩ := map₂_eq_valid h
    exact hR.blockStatement (keeps_nodes hchild hbody)
  case h_10 =>
    obtain ⟨_, _, _, -, hdeclarations, -, rfl⟩ := map₃_eq_valid h
    exact hR.variableDeclaration (keeps_nodes hchild hdeclarations)
  case h_11 =>
    obtain ⟨_, _, _, -, hid, hinit, rfl⟩ := map₃_eq_valid h
    exact hR.variableDeclarator (keeps_node hchild hid) (keeps_node? hchild hinit)
  case h_12 =>
    obtain ⟨_, _, -, hexpression, rfl⟩ := map₂_eq_valid h
    exact hR.expressionStatement (keeps_node hchild hexpression)
  case h_13 =>
    obtain ⟨_, _, _, _, -, htest, hconsequent, halternate, rfl⟩ := map₄_eq_valid h
    exact hR.ifStatement (keeps_node hchild htest) (keeps_node hchild hconsequent) (keeps_node? hchild halternate)
  case h_14 =>
    obtain ⟨_, _, _, -, hdiscriminant, hcases, rfl⟩ := map₃_eq_valid h
    exact hR.switchStatement (keeps_node hchild hdiscriminant) (keeps_nodes hchild hcases)
  case h_15 =>
    obtain ⟨_, _, _, -, htest, hconsequent, rfl⟩ := map₃_eq_valid h
    exact hR.switchCase (keeps_node? hchild htest) (keeps_nodes hchild hconsequent)
  case h_16 =>
    obtain ⟨_, _, -, hargument, rfl⟩ := map₂_eq_valid h
    exact hR.returnStatement (keeps_node? hchild hargument)
  case h_17 =>
    obtain ⟨_, _, -, hlabel, rfl⟩ := map₂_eq_valid h
    exact hR.breakStatement (keeps_node? hchild hlabel)
  case h_18 =>
    obtain ⟨_, _, -, hargument, rfl⟩ := map₂_eq_valid h
    exact hR.throwStatement (keeps_node hchild hargument)
  case h_19 =>
    obtain ⟨_, _, _, -, hcallee, harguments, rfl⟩ := map₃_eq_valid h
    exact hR.callExpression (keeps_node hchild hcallee) (keeps_nodes hchild harguments)
  case h_20 =>
    obtain ⟨_, _, _, _, -, hobject, hmember, -, rfl⟩ := map₄_eq_valid h
    exact hR.memberExpression (keeps_node hchild hobject) (keeps_node hchild hmember)
  case h_21 =>
    obtain ⟨_, _, -, hargument, rfl⟩ := map₂_eq_valid h
    exact hR.awaitExpression (keeps_node hchild hargument)
  case h_22 =>
    obtain ⟨_, _, _, _, -, -, hleft, hright, rfl⟩ := map₄_eq_valid h
    exact hR.binaryExpression (keeps_node hchild hleft) (keeps_node hchild hright)
  case h_23 =>
    obtain ⟨_, _, _, _, -, -, hleft, hright, rfl⟩ := map₄_eq_valid h
    exact hR.logicalExpression (keeps_node hchild hleft) (keeps_node hchild hright)
  case h_24 =>
    obtain ⟨_, _, _, _, -, -, hargument, -, rfl⟩ := map₄_eq_valid h
    exact hR.unaryExpression (keeps_node hchild hargument)
  case h_25 =>
    obtain ⟨_, -, rfl⟩ := map_eq_valid h
    exact hR.thisExpression
  case h_26 =>
    obtain ⟨_, _, -, -, rfl⟩ := map₂_eq_valid h
    exact hR.identifier
  case h_27 =>
    obtain ⟨_, _, _, -, -, -, rfl⟩ := map₃_eq_valid h
    exact hR.literal
  case h_28 =>
    obtain ⟨_, _, -, hproperties, rfl⟩ := map₂_eq_valid h
    exact hR.objectExpression (keeps_nodes hchild hproperties)
  case h_29 =>
    obtain ⟨_, _, h₁, -, rfl⟩ := seq_eq_valid h
    obtain ⟨_, _, h₂, -, rfl⟩ := seq_eq_valid h₁
    obtain ⟨_, _, h₃, -, rfl⟩ := seq_eq_valid h₂
    obtain ⟨_, _, _, _, -, hkey, hvalue, -, rfl⟩ := map₄_eq_valid h₃
    exact hR.property (keeps_node hchild hkey) (keeps_node hchild hvalue)
  case h_30 =>
    obtain ⟨_, _, -, helements, rfl⟩ := map₂_eq_valid h
    exact hR.arrayExpression (keeps_nodesWithHoles hchild helements)
  case h_31 =>
    obtain ⟨_, _, -, hproperties, rfl⟩ := map₂_eq_valid h
    exact hR.objectPattern (keeps_nodes hchild hproperties)
  case h_32 =>
    obtain ⟨_, _, -, helements, rfl⟩ := map₂_eq_valid h
    exact hR.arrayPattern (keeps_nodesWithHoles hchild helements)
  case h_33 =>
    obtain ⟨loc, -, rfl⟩ := map_eq_valid h
    refine hunknown loc ?_
    simp only [knownTypes, List.mem_cons, List.not_mem_nil]
    grind

/-- **A tree that is loaded is related to itself** by every congruence that relates nodes of unknown types
to themselves. -/
theorem keeps_load (hR : Congruence R)
    (hunknown : ∀ (loc : Loc) {type : String}, type ∉ knownTypes →
      R (.unsupported loc type) (.unsupported loc type))
    {document : Json} {n : Node} (h : load document = .valid n) : R n n := by
  -- the documents of the parts are smaller
  induction hsize : sizeOf document using Nat.strong_induction_on generalizing document n with
  | h size ih =>
    unfold load at h
    split at h
    · rename_i fields
      split at h
      · refine keeps_nodeOfType hR hunknown ?_ (inField_eq_valid h)
        intro value hlt m hm
        refine ih (sizeOf value) ?_ hm rfl
        rw [← hsize, Json.object.sizeOf_spec]
        omega
      · cases h
    · cases h

/-- **A tree that is read from a source has a property** if all nodes of the language keep it. -/
theorem keeps_readProgram {Q : Node → Prop} (hQ : Congruence fun n _ => Q n) {source : String} {n : Node}
    (h : Source.readProgram source = .ok n) : Q n := by
  obtain ⟨tree, v, -, hvalue, rfl⟩ := Source.exists_tree_of_readProgram h
  obtain ⟨_, -, hplanted⟩ := tree.exists_planted rfl
  obtain ⟨_, -, hrelated⟩ := hplanted v hvalue
  exact hrelated _ hQ

end Trees

theorem loads_of_load {document : Json} {n : Node} (h : load document = .valid n) : Loads n :=
  keeps_load congruence_loads loads_unsupported h

theorem loads_of_readProgram {source : String} {n : Node} (h : Source.readProgram source = .ok n) :
    Loads n :=
  keeps_readProgram congruence_loads h

end RhoScript.Document
