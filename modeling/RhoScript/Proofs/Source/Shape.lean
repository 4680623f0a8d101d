import RhoScript.Proofs.Source.Formation

/-!
# The shape of trees from source texts
-/

namespace RhoScript

namespace Node

/-- A block. -/
def isBlock : Node → Bool
  | .blockStatement .. => true
  | _ => false

/-- A case of a switch. -/
def isCase : Node → Bool
  | .switchCase .. => true
  | _ => false

/-- An import specifier whose local name is an identifier. -/
def isSpecifier : Node → Bool
  | .importDefaultSpecifier _ (.identifier ..) | .importSpecifier _ (.identifier ..) _
  | .importNamespaceSpecifier _ (.identifier ..) => true
  | _ => false

/-- The parts of the node are of the kinds that are taken for granted. -/
def fits : Node → Bool
  | .functionDeclaration _ _ _ body _ | .functionExpression _ _ _ body _ => body.isBlock
  | .importDeclaration _ specifiers _ => specifiers.all isSpecifier
  | .switchStatement _ _ cases => cases.all isCase
  | _ => true

/-- All parts in the tree are of the kinds that are taken for granted. -/
def WellShaped (n : Node) : Prop := n.Everywhere (fits · = true)

end Node

namespace Source

open Node

variable {N : String → Prop} {c : Nonterminal} {n : Node}

theorem Formed.isBlock (h : Formed N .block n) : n.isBlock = true := by
  cases h
  rfl

theorem Formed.isCase (h : Formed N .case n) : n.isCase = true := by
  cases h
  rfl

theorem Formed.isSpecifier (h : Formed N .specifier n) : n.isSpecifier = true := by
  cases h <;> rfl

/-- What the productions form has parts of the kinds that are taken for granted. -/
theorem Formed.fits (h : Formed N c n) : n.fits = true := by
  induction h
  case importItem hspecifiers _ _ => exact List.all_eq_true.mpr fun m hm => (hspecifiers m hm).isSpecifier
  case declaredFunction hbody _ _ => exact hbody.isBlock
  case function hbody _ _ => exact hbody.isBlock
  case switch hcases _ _ => exact List.all_eq_true.mpr fun m hm => (hcases m hm).isCase
  case statementItem ih => exact ih
  case conditional ih => exact ih
  case elseBlock ih => exact ih
  case elseIf ih => exact ih
  case binary l _ _ _ _ _ _ _ _ => cases l <;> rfl
  case unary o _ _ _ _ _ => cases o <;> rfl
  all_goals rfl

/-- **Sources have well-shaped trees**: the tree of a source text is a program, and all parts in it are
of the kinds that are taken for granted. -/
theorem wellShaped_of_readProgram {source : String} {n : Node} (h : readProgram source = .ok n) :
    (∃ loc body, n = .program loc body) ∧ n.WellShaped := by
  obtain ⟨tree, v, -, hvalue, rfl⟩ := exists_tree_of_readProgram h
  have hformed : Formed (fun _ => True) .program v.meaning :=
    tree.value_forms hvalue fun _ _ => trivial
  refine ⟨?_, hformed.everywhere ?_ Formed.fits⟩
  · generalize v.meaning = n at hformed
    cases hformed
    exact ⟨_, _, rfl⟩
  · intro m hm
    cases m
    case identifier | literal | thisExpression => rfl
    all_goals cases hm

end Source

end RhoScript
