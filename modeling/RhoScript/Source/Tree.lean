import RhoScript.Source.Grammar
import RhoScript.Source.Token

/-!
# Derivation trees

A tree of a symbol is a token of that terminal, or a production with a tree for each of its parts.
The type of a tree is its symbol, so a tree is a derivation by construction.
-/

namespace RhoScript.Source

mutual

/-- A derivation from a symbol. -/
inductive Tree : Symbol → Type where
  | leaf {t : Terminal} {next : Place} (token : Token) (belongs : token.terminal = t) :
      Tree (.tok t next)
  | node {n : Nonterminal} (p : Production n) (children : Forest p.parts) : Tree (.sub n)

/-- Derivations from symbols in a row. -/
inductive Forest : List Symbol → Type where
  | nil : Forest []
  | cons {s : Symbol} {rest : List Symbol} (tree : Tree s) (more : Forest rest) :
      Forest (s :: rest)

end

namespace Forest

/-- The two halves of a forest. -/
def split : {xs ys : List Symbol} → Forest (xs ++ ys) → Forest xs × Forest ys
  | [], _, forest => (.nil, forest)
  | _ :: _, _, .cons tree more =>
    let halves := more.split
    (.cons tree halves.1, halves.2)

/-- Two forests in a row. -/
def append : {xs ys : List Symbol} → Forest xs → Forest ys → Forest (xs ++ ys)
  | [], _, .nil, more => more
  | _ :: _, _, .cons tree rest, more => .cons tree (rest.append more)

@[simp] theorem split_append : {xs ys : List Symbol} → (f : Forest xs) → (g : Forest ys) →
    (f.append g).split = (f, g)
  | [], _, .nil, _ => rfl
  | _ :: _, _, .cons _ rest, g => by simp [append, split, split_append rest g]

end Forest

mutual

/-- The tokens of a tree, from left to right. -/
def Tree.tokens : {s : Symbol} → Tree s → List Token
  | _, .leaf token _ => [token]
  | _, .node _ children => children.tokens

/-- The tokens of a forest, from left to right. -/
def Forest.tokens : {ss : List Symbol} → Forest ss → List Token
  | _, .nil => []
  | _, .cons tree more => tree.tokens ++ more.tokens

end

end RhoScript.Source
