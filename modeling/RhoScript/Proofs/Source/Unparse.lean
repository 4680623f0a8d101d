import RhoScript.Proofs.Source.Derivations

/-!
# Writing syntax trees as source texts

`unparse` writes a syntax tree as a source text. It follows the productions of the grammar and puts an
operand in parentheses if and only if it binds weaker than its place needs. `Built` are the nodes that
the productions build.
-/

namespace RhoScript.Source

/-! ### How strongly expressions bind -/

/-- The rank of a binary operator. -/
def operatorRank : String → Nat
  | "||" => 0
  | "&&" => 1
  | "==" | "!=" | "===" | "!==" => 2
  | "<" | "<=" | ">" | ">=" => 3
  | "+" | "-" => 4
  | _ => 5

/-- The rank of an expression: that of its operator, then operators before an operand, then accesses and
calls, then what needs no parentheses anywhere. -/
def rank : Node → Nat
  | .logicalExpression _ operator _ _ | .binaryExpression _ operator _ _ => operatorRank operator
  | .unaryExpression .. | .awaitExpression .. => 6
  | .memberExpression .. | .callExpression .. => 7
  | _ => 8

/-- The words of an expression at a place that needs a rank: in parentheses if its own is lower. -/
def atRank (needed own : Nat) (ws : List Word) : List Word :=
  if own < needed then .mark .parenOpen :: (ws ++ [.mark .parenClose]) else ws

/-! ### Words -/

/-- The word of a spelling. -/
def Word.ofSpelling (s : String) : Word := ⟨(Terminal.ofSpelling? s).getD .name, s⟩

/-- A code point inside a literal. A half of a surrogate pair is written as an escape. -/
def spelled : CodePoint → List Char
  | .char c => Ground.escape c
  | .half n => (CodePoint.half n).shown

/-- The literal of a string. -/
def stringLiteral (s : WideString) : String := String.ofList ('"' :: s.flatMap spelled ++ ['"'])

theorem stringLiteral_ofString (s : String) : stringLiteral s = Ground.stringText s := by
  have hspelled : spelled ∘ CodePoint.char = Ground.escape := rfl
  rw [stringLiteral, Ground.stringText, WideString.ofString, List.flatMap_map, ← hspelled]
  rfl

/-- The word of a literal. -/
def literalWord : Option Ground → Word
  | none => .mark .nullWord
  | some (.bool b) => .mark (if b then .trueWord else .falseWord)
  | some (.int n) => ⟨.number, Ground.digitsText n⟩
  | some (.double x) => ⟨.number, Ground.doubleText x⟩
  | some (.string s) => ⟨.string, stringLiteral s⟩

/-- The words of members of a list, with commas between them. -/
def commas : List (List Word) → List Word
  | [] => []
  | ws :: rest => ws ++ rest.flatMap (.mark .comma :: ·)

/-- The word of an asynchronous function. -/
def asyncWords (isAsync : Bool) : List Word := if isAsync then [.mark .asyncWord] else []

/-- The words of an identifier. -/
def nameWords : Node → List Word
  | .identifier _ x => [⟨.name, x⟩]
  | _ => []

/-- The words of an import specifier; the local name is left out if it is the imported one. -/
def specifierWords : Node → List Word
  | .importSpecifier _ (.identifier _ x) (.identifier _ y) =>
    if x = y then [⟨.name, y⟩] else [⟨.name, y⟩, .mark .asWord, ⟨.name, x⟩]
  | _ => []

/-- The words of import specifiers in braces, or of the one that stands for all exports. -/
def groupWords : List Node → List Word
  | [.importNamespaceSpecifier _ binding] => .mark .star :: .mark .asWord :: nameWords binding
  | specifiers =>
    .mark .braceOpen :: (commas (specifiers.map specifierWords) ++ [.mark .braceClose])

/-- The words between `import` and the source. -/
def importWords : List Node → List Word
  | [] => []
  | [.importDefaultSpecifier _ binding] => nameWords binding ++ [.mark .fromWord]
  | .importDefaultSpecifier _ binding :: more =>
    nameWords binding ++ .mark .comma :: (groupWords more ++ [.mark .fromWord])
  | specifiers => groupWords specifiers ++ [.mark .fromWord]

mutual

/-- The words of a syntax tree. -/
def words : Node → List Word
  | .program _ body => (wordsEach body).flatten
  | .importDeclaration _ specifiers source =>
    .mark .importWord :: (importWords specifiers ++ (words source ++ [.mark .semicolon]))
  | .exportDefaultDeclaration _ declaration =>
    .mark .exportWord :: .mark .defaultWord :: words declaration
  | .functionDeclaration _ id params body isAsync | .functionExpression _ id params body isAsync =>
    asyncWords isAsync ++ .mark .functionWord :: (wordsOption [] id ++
      .mark .parenOpen :: (commas (wordsEach params) ++ .mark .parenClose :: words body))
  | .blockStatement _ body => .mark .braceOpen :: ((wordsEach body).flatten ++ [.mark .braceClose])
  | .variableDeclaration _ declarations kind =>
    .ofSpelling kind :: (commas (wordsEach declarations) ++ [.mark .semicolon])
  | .variableDeclarator _ id init => words id ++ wordsOption [.mark .assign] init
  | .expressionStatement _ expression => words expression ++ [.mark .semicolon]
  | .ifStatement _ test consequent alternate =>
    .mark .ifWord :: .mark .parenOpen :: (words test ++ .mark .parenClose :: (words consequent ++
      wordsOption [.mark .elseWord] alternate))
  | .switchStatement _ discriminant cases =>
    .mark .switchWord :: .mark .parenOpen :: (words discriminant ++ .mark .parenClose ::
      .mark .braceOpen :: ((wordsEach cases).flatten ++ [.mark .braceClose]))
  | .switchCase _ test consequent => labelWords test ++ .mark .colon :: (wordsEach consequent).flatten
  | .returnStatement _ argument =>
    .mark .returnWord :: (wordsOption [] argument ++ [.mark .semicolon])
  | .breakStatement _ label => .mark .breakWord :: (wordsOption [] label ++ [.mark .semicolon])
  | .throwStatement _ argument => .mark .throwWord :: (words argument ++ [.mark .semicolon])
  | .callExpression _ callee arguments =>
    atRank 7 (rank callee) (words callee) ++
      .mark .parenOpen :: (commas (wordsEach arguments) ++ [.mark .parenClose])
  | .memberExpression _ object member _ =>
    atRank 7 (rank object) (words object) ++ .mark .dot :: words member
  | .awaitExpression _ argument => .mark .awaitWord :: atRank 6 (rank argument) (words argument)
  | .unaryExpression _ operator argument _ =>
    .ofSpelling operator :: atRank 6 (rank argument) (words argument)
  | .binaryExpression _ operator left right | .logicalExpression _ operator left right =>
    atRank (operatorRank operator) (rank left) (words left) ++ .ofSpelling operator ::
      atRank (operatorRank operator + 1) (rank right) (words right)
  | .thisExpression _ => [.mark .thisWord]
  | .identifier _ x => [⟨.name, x⟩]
  | .literal _ value _ => [literalWord value]
  | .objectExpression _ properties | .objectPattern _ properties =>
    .mark .braceOpen :: (commas (wordsEach properties) ++ [.mark .braceClose])
  | .property _ key value _ method shorthand _ =>
    if method then methodWords (words key) value
    else if shorthand then words key
    else words key ++ .mark .colon :: words value
  | .arrayExpression _ elements | .arrayPattern _ elements =>
    .mark .bracketOpen :: (commas (wordsElements elements) ++ [.mark .bracketClose])
  | _ => []
termination_by structural n => n

/-- The words of each of some nodes. -/
def wordsEach : List Node → List (List Word)
  | [] => []
  | n :: rest => words n :: wordsEach rest
termination_by structural ns => ns

/-- The words of each of some nodes that may be missing. -/
def wordsElements : List (Option Node) → List (List Word)
  | [] => []
  | o :: rest => wordsOption [] o :: wordsElements rest
termination_by structural os => os

/-- The words of a node, after others, or nothing if it is missing. -/
def wordsOption (before : List Word) : Option Node → List Word
  | none => []
  | some n => before ++ words n
termination_by structural o => o

/-- The words before the colon of a case. -/
def labelWords : Option Node → List Word
  | none => [.mark .defaultWord]
  | some n => .mark .caseWord :: words n
termination_by structural o => o

/-- The words of a method with a key. -/
def methodWords (key : List Word) : Node → List Word
  | .functionExpression _ _ params body isAsync =>
    asyncWords isAsync ++ (key ++
      .mark .parenOpen :: (commas (wordsEach params) ++ .mark .parenClose :: words body))
  | _ => []
termination_by structural n => n

end

/-- The source text of a syntax tree: its words, each with a blank after it. -/
def unparse (n : Node) : String := String.ofList (textOf (words n))

/-! ### What the productions build -/

/-- A name that is no keyword. -/
def Named (n : Node) : Prop := ∃ loc x, n = .identifier loc x ∧ IsIdentifier x

/-- An integer that is not too long to be read. -/
abbrev IsShort (n : Nat) : Prop := (Nat.toDigits 10 n).length ≤ Number.Numeral.digitLimit

/-- An import of a name, perhaps under another one. -/
def IsSpecifier (n : Node) : Prop :=
  ∃ loc binding imported, n = .importSpecifier loc binding imported ∧ Named binding ∧ Named imported

/-- Imports of names in braces, or of all exports. -/
inductive IsGroup : List Node → Prop
  | named {specifiers : List Node} : (∀ m ∈ specifiers, IsSpecifier m) → IsGroup specifiers
  | all {loc : Loc} {binding : Node} : Named binding → IsGroup [.importNamespaceSpecifier loc binding]

/-- What an import can import. -/
inductive IsImport : List Node → Prop
  | group {specifiers : List Node} : IsGroup specifiers → IsImport specifiers
  | default {loc : Loc} {binding : Node} {more : List Node} : Named binding → IsGroup more →
      IsImport (.importDefaultSpecifier loc binding :: more)

/-- The nodes that the productions of a category build, from names that are no keywords, strings, and
integers that are not too long. -/
inductive Built : Nonterminal → Node → Prop
  | program {loc : Loc} {items : List Node} : (∀ m ∈ items, Built .item m) →
      Built .program (.program loc items)
  | importItem {loc sloc : Loc} {specifiers : List Node} {source : String} {raw : Option String} :
      IsImport specifiers →
      Built .item (.importDeclaration loc specifiers (.literal sloc (some (.string source)) raw))
  | exportItem {loc floc : Loc} {id : Option Node} {params : List Node} {body : Node} {isAsync : Bool} :
      (∀ m ∈ id, Named m) → (∀ m ∈ params, Built .pattern m) → Built .block body →
      Built .item (.exportDefaultDeclaration loc (.functionDeclaration floc id params body isAsync))
  | statementItem {n : Node} : Built .statement n → Built .item n
  | block {loc : Loc} {body : List Node} : (∀ m ∈ body, Built .statement m) →
      Built .block (.blockStatement loc body)
  | declaration {loc : Loc} {first : Node} {more : List Node} (d : Declaring) :
      Built .declarator first → (∀ m ∈ more, Built .declarator m) →
      Built .statement (.variableDeclaration loc (first :: more) d.terminal.spelling)
  | declarator {loc : Loc} {id : Node} {init : Option Node} : Built .pattern id →
      (∀ m ∈ init, Built .expression m) → Built .declarator (.variableDeclarator loc id init)
  | conditional {n : Node} : Built .ifStatement n → Built .statement n
  | ifStatement {loc : Loc} {test consequent : Node} {alternate : Option Node} :
      Built .expression test → Built .block consequent → (∀ m ∈ alternate, Built .elseBody m) →
      Built .ifStatement (.ifStatement loc test consequent alternate)
  | elseBlock {n : Node} : Built .block n → Built .elseBody n
  | elseIf {n : Node} : Built .ifStatement n → Built .elseBody n
  | switch {loc : Loc} {discriminant : Node} {cases : List Node} : Built .expression discriminant →
      (∀ m ∈ cases, Built .case m) → Built .statement (.switchStatement loc discriminant cases)
  | case {loc : Loc} {test : Option Node} {body : List Node} : (∀ m ∈ test, Built .expression m) →
      (∀ m ∈ body, Built .statement m) → Built .case (.switchCase loc test body)
  | returns {loc : Loc} {argument : Option Node} : (∀ m ∈ argument, Built .expression m) →
      Built .statement (.returnStatement loc argument)
  | breaks {loc : Loc} {label : Option Node} : (∀ m ∈ label, Named m) →
      Built .statement (.breakStatement loc label)
  | throws {loc : Loc} {argument : Node} : Built .expression argument →
      Built .statement (.throwStatement loc argument)
  | expression {loc : Loc} {e : Node} : Built .expression e →
      Built .statement (.expressionStatement loc e)
  | namePattern {n : Node} : Named n → Built .pattern n
  | objectPattern {loc : Loc} {properties : List Node} : (∀ m ∈ properties, Built .propertyPattern m) →
      Built .pattern (.objectPattern loc properties)
  | arrayPattern {loc : Loc} {elements : List Node} : (∀ m ∈ elements, Built .pattern m) →
      Built .pattern (.arrayPattern loc (elements.map some))
  | shorthandPattern {loc kloc vloc : Loc} {x : String} : IsIdentifier x →
      Built .propertyPattern (propertyNode loc (.identifier kloc x) (.identifier vloc x) true)
  | renamedPattern {loc : Loc} {key value : Node} : Built .propertyKey key → Built .pattern value →
      Built .propertyPattern (propertyNode loc key value false)
  | nameKey {n : Node} : Named n → Built .propertyKey n
  | stringKey {loc : Loc} {s : String} {raw : Option String} :
      Built .propertyKey (.literal loc (some (.string s)) raw)
  | numberKey {loc : Loc} {n : Nat} {raw : Option String} : IsShort n →
      Built .propertyKey (.literal loc (some (.int n)) raw)
  | valueProperty {loc : Loc} {key value : Node} : Built .propertyKey key → Built .expression value →
      Built .property (propertyNode loc key value false)
  | methodProperty {loc floc : Loc} {key body : Node} {params : List Node} {isAsync : Bool} :
      Built .propertyKey key → (∀ m ∈ params, Built .pattern m) → Built .block body →
      Built .property
        (.property loc key (.functionExpression floc none params body isAsync) "init" true false false)
  | binary {l : Level} {loc : Loc} {left right : Node} (o : Operator l) : Built .expression left →
      Built .expression right → Built .expression (binaryNode l loc o.terminal.spelling left right)
  | unary {loc : Loc} {argument : Node} (o : Unary) : Built .expression argument →
      Built .expression (unaryNode o loc o.terminal.spelling argument)
  | member {loc nloc : Loc} {object : Node} {x : String} : Built .expression object →
      IsIdentifier x → Built .expression (.memberExpression loc object (.identifier nloc x) false)
  | call {loc : Loc} {callee : Node} {arguments : List Node} : Built .expression callee →
      (∀ m ∈ arguments, Built .expression m) → Built .expression (.callExpression loc callee arguments)
  | name {n : Node} : Named n → Built .expression n
  | string {loc : Loc} {s : String} {raw : Option String} :
      Built .expression (.literal loc (some (.string s)) raw)
  | number {loc : Loc} {n : Nat} {raw : Option String} : IsShort n →
      Built .expression (.literal loc (some (.int n)) raw)
  | boolean {loc : Loc} {b : Bool} {raw : Option String} :
      Built .expression (.literal loc (some (.bool b)) raw)
  | null {loc : Loc} {raw : Option String} : Built .expression (.literal loc none raw)
  | this {loc : Loc} : Built .expression (.thisExpression loc)
  | object {loc : Loc} {properties : List Node} : (∀ m ∈ properties, Built .property m) →
      Built .expression (.objectExpression loc properties)
  | array {loc : Loc} {elements : List Node} : (∀ m ∈ elements, Built .expression m) →
      Built .expression (.arrayExpression loc (elements.map some))
  | function {loc : Loc} {id : Option Node} {params : List Node} {body : Node} {isAsync : Bool} :
      (∀ m ∈ id, Named m) → (∀ m ∈ params, Built .pattern m) → Built .block body →
      Built .expression (.functionExpression loc id params body isAsync)

end RhoScript.Source
