import RhoScript.Proofs.Lowering.Rules

/-!
# The supported subset

The trees that can be lowered, as the language reference describes them: by the shapes that may stand
at each place, and without regard to the order in which they are visited, to channels or to what they
become. Only four kinds of statements have shapes to keep to; a statement of another kind is replaced
by a placeholder, and so are the expressions and initial values of other kinds.
-/

namespace RhoScript.Subset

open Lowering (constant isHandled isCall isDeclarable bodyStatements?)

/-! ### Expressions and patterns -/

/-- The supported operators. -/
def operators : List String := ["&&", "||", "==="]

mutual

/-- An expression with a value. -/
inductive Expression : Node → Prop
  | literal {loc : Loc} {value : Option Ground} {raw : Option String} :
      Expression (.literal loc value raw)
  | identifier {loc : Loc} {name : String} : Expression (.identifier loc name)
  | binary {loc : Loc} {operator : String} {left right : Node} :
      operator ∈ operators → Expression left → Expression right →
      Expression (.binaryExpression loc operator left right)
  | logical {loc : Loc} {operator : String} {left right : Node} :
      operator ∈ operators → Expression left → Expression right →
      Expression (.logicalExpression loc operator left right)
  | bundlePlus {loc nloc : Loc} {argument : Node} :
      Expression argument →
      Expression (.callExpression loc (.identifier nloc "bundlePlus") [argument])
  | tuple {loc nloc : Loc} {arguments : List Node} :
      (∀ n ∈ arguments, Expression n) →
      Expression (.callExpression loc (.identifier nloc "tuple") arguments)
  | object {loc : Loc} {properties : List Node} :
      (∀ p ∈ properties, Entry p) → Expression (.objectExpression loc properties)

/-- A property of an object that is a value. -/
inductive Entry : Node → Prop
  | property {loc kloc : Loc} {key : WideString} {raw : Option String} {value : Node} {kind : String}
      {shorthand computed : Bool} :
      Expression value →
      Entry (.property loc (.literal kloc (some (.string key)) raw) value kind false shorthand
        computed)

end

/-- A key that is written plainly or as a string. -/
inductive Key : Node → WideString → Prop
  | plain {loc : Loc} {name : String} : Key (.identifier loc name) name
  | string {loc : Loc} {name : WideString} {raw : Option String} :
      Key (.literal loc (some (.string name)) raw) name

/-- Properties of an object pattern with the keys `_i`, `_(i+1)` and so on. -/
inductive Components : Nat → List Node → Prop
  | nil {i : Nat} : Components i []
  | cons {i : Nat} {loc : Loc} {key value : Node} {kind : String} {method shorthand : Bool}
      {rest : List Node} :
      Key key s!"_{i}" → Expression value → Components (i + 1) rest →
      Components i (.property loc key value kind method shorthand false :: rest)

/-- A pattern for a reply. -/
inductive Pattern : Node → Prop
  | identifier {loc : Loc} {name : String} : Pattern (.identifier loc name)
  | tuple {loc : Loc} {properties : List Node} :
      Components 0 properties → Pattern (.objectPattern loc properties)

/-! ### Messages -/

/-- `E(x)`. -/
inductive Recipient : Node → Prop
  | mk {loc nloc xloc : Loc} {x : String} :
      Recipient (.callExpression loc (.identifier nloc "E") [.identifier xloc x])

/-- `E(x)` and `E(x).m`. -/
inductive Target : Node → Prop
  | plain {n : Node} : Recipient n → Target n
  | method {loc nloc : Loc} {n : Node} {method : String} :
      Recipient n → Target (.memberExpression loc n (.identifier nloc method) false)

/-- `E(x)(args)` and `E(x).m(args)`. -/
inductive Message : Node → Prop
  | mk {loc : Loc} {target : Node} {arguments : List Node} :
      Target target → (∀ n ∈ arguments, Expression n) →
      Message (.callExpression loc target arguments)

/-- `Promise.all` of an array. -/
abbrev promiseAllOf (loc mloc oloc nloc aloc : Loc) (computed : Bool) (calls : List Node) : Node :=
  .callExpression loc
    (.memberExpression mloc (.identifier oloc "Promise") (.identifier nloc "all") computed)
    [.arrayExpression aloc (calls.map some)]

/-- `Awaits pattern argument`: what is awaited is a message, or `Promise.all` of at least one message,
and the pattern is fit for the reply or the replies. -/
inductive Awaits : Node → Node → Prop
  | message {pattern argument : Node} :
      Message argument → Pattern pattern → Awaits pattern argument
  | all {ploc loc mloc oloc nloc aloc : Loc} {computed : Bool} {patterns calls : List Node} :
      calls ≠ [] → (∀ n ∈ calls, Message n) → (∀ n ∈ patterns, Pattern n) →
      patterns.length = calls.length →
      Awaits (.arrayPattern ploc (patterns.map some))
        (promiseAllOf loc mloc oloc nloc aloc computed calls)

/-! ### Statements -/

/-- A statement that nothing may follow in its block: a return or a message. -/
inductive Final : Node → Prop
  | returns {loc : Loc} {argument : Option Node} : Final (.returnStatement loc argument)
  | message {loc : Loc} {e : Node} : Message e → Final (.expressionStatement loc e)

mutual

/-- The statements of a block. -/
inductive Block : List Node → Prop
  | mk {body : List Node} :
      (∀ s ∈ body, Statement s) → (∀ s ∈ body.dropLast, ¬ Final s) → Block body

/-- A statement of a block. -/
inductive Statement : Node → Prop
  | declaration {loc dloc : Loc} {id : Node} {init : Option Node} :
      Declares id init → Statement (constant loc dloc id init)
  | log {loc cloc mloc oloc nloc : Loc} {argument : Node} :
      Expression argument →
      Statement (.expressionStatement loc (.callExpression cloc
        (.memberExpression mloc (.identifier oloc "console") (.identifier nloc "log") false)
        [argument]))
  | message {loc : Loc} {e : Node} : Message e → Statement (.expressionStatement loc e)
  | replaced {loc : Loc} {e : Node} : isCall e = false → Statement (.expressionStatement loc e)
  | switch {loc : Loc} {discriminant : Node} {cases : List Node} :
      Expression discriminant → (∀ c ∈ cases, Case c) →
      Statement (.switchStatement loc discriminant cases)
  | returns {loc : Loc} {argument : Option Node} :
      (∀ n ∈ argument, Expression n) → Statement (.returnStatement loc argument)
  | other {s : Node} : isHandled s = false → Statement s

/-- `Declares id init`: the pattern and the initial value of a declaration. -/
inductive Declares : Node → Option Node → Prop
  | awaited {id argument : Node} {loc : Loc} :
      Awaits id argument → Declares id (some (.awaitExpression loc argument))
  | channel {iloc loc : Loc} {name : String} :
      Declares (.identifier iloc name) (some (.objectExpression loc []))
  | suite {iloc loc nloc : Loc} {name : String} {n : Node} :
      Suite n →
      Declares (.identifier iloc name) (some (.callExpression loc (.identifier nloc "harden") [n]))
  | literal {iloc loc : Loc} {name : String} {value : Option Ground} {raw : Option String} :
      Declares (.identifier iloc name) (some (.literal loc value raw))
  | replaced {id n : Node} : isDeclarable n = false → Declares id (some n)
  | missing {id : Node} : Declares id none

/-- An object of methods. -/
inductive Suite : Node → Prop
  | mk {loc : Loc} {properties : List Node} :
      (∀ p ∈ properties, Method p) → Suite (.objectExpression loc properties)

/-- A method of a suite. -/
inductive Method : Node → Prop
  | mk {loc : Loc} {key value : Node} {name : WideString} {kind : String}
      {method shorthand : Bool} :
      Key key name → Function value →
      Method (.property loc key value kind method shorthand false)

/-- The function of a method. -/
inductive Function : Node → Prop
  | mk {loc : Loc} {id : Option Node} {params : List Node} {body : Node} {isAsync : Bool} :
      (∀ p ∈ params, ∃ loc x, p = .identifier loc x) → Body body →
      Function (.functionExpression loc id params body isAsync)

/-- The body of a function. -/
inductive Body : Node → Prop
  | mk {body : Node} {statements : List Node} :
      bodyStatements? body = some statements → Block statements → Body body

/-- A case of a switch. -/
inductive Case : Node → Prop
  | mk {loc : Loc} {test : Node} {body : List Node} :
      Expression test → Block body → Case (.switchCase loc (some test) body)

end

/-! ### Modules -/

/-- The modules known to the compiler, each with the names that may be imported from it. -/
def bundles : List (String × List String) :=
  [("@rchain-community/js2rho", ["bundlePlus", "tuple", "console"]), ("@agoric/nat", ["Nat"]),
    ("@agoric/harden", ["harden"]), ("@agoric/eventual-send", ["E"])]

/-- `Local n x`: the import specifier `n` has the local name `x`. -/
inductive Local : Node → String → Prop
  | byDefault {loc nloc : Loc} {x : String} :
      Local (.importDefaultSpecifier loc (.identifier nloc x)) x
  | named {loc nloc : Loc} {x : String} {imported : Node} :
      Local (.importSpecifier loc (.identifier nloc x) imported) x
  | all {loc nloc : Loc} {x : String} :
      Local (.importNamespaceSpecifier loc (.identifier nloc x)) x

/-- An import: of a system resource as a default, or of allowed names from a known module. -/
inductive Import : Node → Prop
  | resource {loc sloc nloc lloc : Loc} {x : String} {uri : WideString}
      {raw : Option String} :
      ("rho:" : WideString) <+: uri →
      Import (.importDeclaration loc [.importDefaultSpecifier sloc (.identifier nloc x)]
        (.literal lloc (some (.string uri)) raw))
  | bundle {loc lloc : Loc} {specifiers : List Node} {uri : String} {names : List String}
      {raw : Option String} :
      (uri, names) ∈ bundles → (∀ n ∈ specifiers, ∃ x ∈ names, Local n x) →
      Import (.importDeclaration loc specifiers (.literal lloc (some (.string uri)) raw))

/-- An import or a default export. -/
def opensModule : Node → Bool
  | .importDeclaration .. | .exportDefaultDeclaration .. => true
  | _ => false

/-- What follows the imports: just one default export, or the statements of a block. -/
inductive Contents : List Node → Prop
  | exported {loc floc : Loc} {id : Option Node} {params : List Node} {body : Node}
      {isAsync : Bool} :
      Body body →
      Contents [.exportDefaultDeclaration loc (.functionDeclaration floc id params body isAsync)]
  | statements {body : List Node} :
      (∀ s ∈ body.head?, opensModule s = false) → Block body → Contents body

/-- A module. -/
inductive Module : Node → Prop
  | mk {loc : Loc} {imports rest : List Node} :
      (∀ n ∈ imports, Import n) → Contents rest → Module (.program loc (imports ++ rest))

end RhoScript.Subset
