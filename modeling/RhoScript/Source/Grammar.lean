import RhoScript.Source.Terminal

/-!
# The grammar

The language is given by productions that a parser can choose between by looking at one token. Each
terminal in a production comes with the place after it, which says how the next token is read.
Repetitions are right-recursive, operators of one level are a first operand and a list of further
ones, and what several alternatives begin with is factored out.

Main statements: an expansion that reads no token makes progress all the same, in the sense of
`Nonterminal.weight` (`Production.leadWeight_lt`), so a predictive parser cannot run in circles.
-/

namespace RhoScript.Source

/-- The levels of binary operators, the weakest first. -/
inductive Level where
  | or
  | and
  | equality
  | relational
  | additive
  | multiplicative
deriving DecidableEq, Repr, Inhabited

/-- The binary operators of a level. -/
inductive Operator : Level → Type where
  | or : Operator .or
  | and : Operator .and
  | equal : Operator .equality
  | notEqual : Operator .equality
  | strictEqual : Operator .equality
  | strictNotEqual : Operator .equality
  | less : Operator .relational
  | lessEqual : Operator .relational
  | greater : Operator .relational
  | greaterEqual : Operator .relational
  | plus : Operator .additive
  | minus : Operator .additive
  | times : Operator .multiplicative
  | remainder : Operator .multiplicative
deriving DecidableEq, Repr

/-- The terminal of an operator. -/
def Operator.terminal {l : Level} : Operator l → Terminal
  | .or => .orOr
  | .and => .andAnd
  | .equal => .equal
  | .notEqual => .notEqual
  | .strictEqual => .strictEqual
  | .strictNotEqual => .strictNotEqual
  | .less => .less
  | .lessEqual => .lessEqual
  | .greater => .greater
  | .greaterEqual => .greaterEqual
  | .plus => .plus
  | .minus => .minus
  | .times => .star
  | .remainder => .percent

/-- The words that declare variables. -/
inductive Declaring where
  | constant
  | block
  | function
deriving DecidableEq, Repr, Inhabited

/-- The terminal of a declaring word. -/
def Declaring.terminal : Declaring → Terminal
  | .constant => .constWord
  | .block => .letWord
  | .function => .varWord

/-- The lists in brackets that may end in a comma. -/
inductive Series where
  | specifiers
  | propertyPatterns
  | patterns
  | properties
  | elements
deriving DecidableEq, Repr, Inhabited

/-- The place after the opening bracket or a comma of a list. -/
def Series.place : Series → Place
  | .specifiers => .specifier
  | .propertyPatterns => .propertyPattern
  | .patterns => .patternOr .bracketClose
  | .properties => .property
  | .elements => .operandOr .bracketClose

/-- The literals of one token. -/
inductive Atom where
  | name
  | string
  | number
  | true
  | false
  | null
  | this
deriving DecidableEq, Repr, Inhabited

/-- The terminal of an atom. -/
def Atom.terminal : Atom → Terminal
  | .name => .name
  | .string => .string
  | .number => .number
  | .true => .trueWord
  | .false => .falseWord
  | .null => .nullWord
  | .this => .thisWord

/-- The operators before an operand. -/
inductive Unary where
  | await
  | not
  | negate
deriving DecidableEq, Repr, Inhabited

/-- The terminal of an operator before an operand. -/
def Unary.terminal : Unary → Terminal
  | .await => .awaitWord
  | .not => .bang
  | .negate => .minus

/-- A syntactic category. -/
inductive Nonterminal where
  | program
  | items
  | item
  /-- What follows `import`. -/
  | importRest
  | importClause
  /-- What may follow a default name. -/
  | importMore
  | importGroup
  | specifier
  /-- A local name for an imported one, or none. -/
  | asName
  | function
  /-- A function from its keyword on. -/
  | functionRest
  /-- A function from its name on, which may be missing. -/
  | functionNamed
  /-- Parameters and body. -/
  | signature
  | parameters
  | moreParameters
  | block
  | statements
  | statement
  | ifStatement
  /-- The part from `else` on, or nothing. -/
  | alternative
  | elseBody
  | moreDeclarators
  | declarator
  | initializer
  | cases
  | case
  | optionalExpression
  | optionalLabel
  | pattern
  | propertyPattern
  /-- What may follow a name that is a property of a pattern. -/
  | propertyPatternRest
  | binary (l : Level)
  /-- The further operands of a level. -/
  | binaryRest (l : Level)
  | unary
  /-- Member accesses and calls after a primary expression. -/
  | accesses
  | arguments
  | moreArguments
  | primary
  | property
  | propertyKey
  /-- What follows the key of a property. -/
  | propertyRest
  /-- The members of a list in brackets. -/
  | series (s : Series)
  /-- What follows a member of a list in brackets. -/
  | seriesRest (s : Series)
deriving DecidableEq, Repr, Inhabited

namespace Nonterminal

/-- Expressions are those of the weakest level. -/
abbrev expression : Nonterminal := .binary .or

/-- The operands of a level. -/
@[reducible] def operandOf : Level → Nonterminal
  | .or => .binary .and
  | .and => .binary .equality
  | .equality => .binary .relational
  | .relational => .binary .additive
  | .additive => .binary .multiplicative
  | .multiplicative => .unary

/-- The members of a list in brackets. -/
@[reducible] def memberOf : Series → Nonterminal
  | .specifiers => .specifier
  | .propertyPatterns => .propertyPattern
  | .patterns => .pattern
  | .properties => .property
  | .elements => .expression

end Nonterminal

/-- A part of a production: a terminal with the place after it, or a category. -/
inductive Symbol where
  | tok (t : Terminal) (next : Place)
  | sub (n : Nonterminal)
deriving DecidableEq, Repr, Inhabited

/-- The productions of a category. -/
inductive Production : Nonterminal → Type where
  | program : Production .program
  | noItems : Production .items
  | moreItems : Production .items
  | importItem : Production .item
  | exportItem : Production .item
  | statementItem : Production .item
  | bareImport : Production .importRest
  | boundImport : Production .importRest
  | defaultClause : Production .importClause
  | groupClause : Production .importClause
  | noImportMore : Production .importMore
  | importMore : Production .importMore
  | namedGroup : Production .importGroup
  | namespaceGroup : Production .importGroup
  | specifier : Production .specifier
  | noAsName : Production .asName
  | asName : Production .asName
  | asyncFunction : Production .function
  | plainFunction : Production .function
  | functionRest : Production .functionRest
  | namedFunction : Production .functionNamed
  | anonymousFunction : Production .functionNamed
  | signature : Production .signature
  | noParameters : Production .parameters
  | parameters : Production .parameters
  | noMoreParameters : Production .moreParameters
  | moreParameters : Production .moreParameters
  | block : Production .block
  | noStatements : Production .statements
  | moreStatements : Production .statements
  | declaration (d : Declaring) : Production .statement
  | conditional : Production .statement
  | switch : Production .statement
  | returns : Production .statement
  | breaks : Production .statement
  | throws : Production .statement
  | expression : Production .statement
  | ifStatement : Production .ifStatement
  | noAlternative : Production .alternative
  | alternative : Production .alternative
  | elseBlock : Production .elseBody
  | elseIf : Production .elseBody
  | noMoreDeclarators : Production .moreDeclarators
  | moreDeclarators : Production .moreDeclarators
  | declarator : Production .declarator
  | noInitializer : Production .initializer
  | initializer : Production .initializer
  | noCases : Production .cases
  | moreCases : Production .cases
  | testCase : Production .case
  | defaultCase : Production .case
  | noExpression : Production .optionalExpression
  | someExpression : Production .optionalExpression
  | noLabel : Production .optionalLabel
  | label : Production .optionalLabel
  | namePattern : Production .pattern
  | objectPattern : Production .pattern
  | arrayPattern : Production .pattern
  | namedPropertyPattern : Production .propertyPattern
  | stringPropertyPattern : Production .propertyPattern
  | numberPropertyPattern : Production .propertyPattern
  | shorthandPattern : Production .propertyPatternRest
  | renamedPattern : Production .propertyPatternRest
  | binary (l : Level) : Production (.binary l)
  | noMoreOperands (l : Level) : Production (.binaryRest l)
  | moreOperands {l : Level} (o : Operator l) : Production (.binaryRest l)
  | unary (o : Unary) : Production .unary
  | operand : Production .unary
  | noAccesses : Production .accesses
  | member : Production .accesses
  | call : Production .accesses
  | noArguments : Production .arguments
  | arguments : Production .arguments
  | noMoreArguments : Production .moreArguments
  | moreArguments : Production .moreArguments
  | atom (a : Atom) : Production .primary
  | object : Production .primary
  | array : Production .primary
  | functionExpression : Production .primary
  | parentheses : Production .primary
  | asyncMethod : Production .property
  | plainProperty : Production .property
  | nameKey : Production .propertyKey
  | stringKey : Production .propertyKey
  | numberKey : Production .propertyKey
  | valueProperty : Production .propertyRest
  | methodProperty : Production .propertyRest
  | noMembers (s : Series) : Production (.series s)
  | members (s : Series) : Production (.series s)
  | noMoreMembers (s : Series) : Production (.seriesRest s)
  | moreMembers (s : Series) : Production (.seriesRest s)

namespace Production

open RhoScript.Source.Symbol

/-- The parts of a production. -/
@[reducible] def parts {n : Nonterminal} : Production n → List Symbol
  | .program => [sub .items]
  | .noItems => []
  | .moreItems => [sub .item, sub .items]
  | .importItem => [tok .importWord .importStart, sub .importRest]
  | .exportItem =>
    [tok .exportWord (.only .defaultWord), tok .defaultWord .exported, sub .function]
  | .statementItem => [sub .statement]
  | .bareImport => [tok .string (.only .semicolon), tok .semicolon .item]
  | .boundImport =>
    [sub .importClause, tok .fromWord (.only .string), tok .string (.only .semicolon),
      tok .semicolon .item]
  | .defaultClause => [tok .name .defaultEnd, sub .importMore]
  | .groupClause => [sub .importGroup]
  | .noImportMore => []
  | .importMore => [tok .comma .importGroup, sub .importGroup]
  | .namedGroup =>
    [tok .braceOpen Series.specifiers.place, sub (.series .specifiers),
      tok .braceClose (.only .fromWord)]
  | .namespaceGroup =>
    [tok .star (.only .asWord), tok .asWord (.only .name), tok .name (.only .fromWord)]
  | .specifier => [tok .name .specifierEnd, sub .asName]
  | .noAsName => []
  | .asName => [tok .asWord (.only .name), tok .name .asNameEnd]
  | .asyncFunction => [tok .asyncWord (.only .functionWord), sub .functionRest]
  | .plainFunction => [sub .functionRest]
  | .functionRest => [tok .functionWord .functionName, sub .functionNamed]
  | .namedFunction => [tok .name (.only .parenOpen), sub .signature]
  | .anonymousFunction => [sub .signature]
  | .signature =>
    [tok .parenOpen (.patternOr .parenClose), sub .parameters, tok .parenClose (.only .braceOpen),
      sub .block]
  | .noParameters => []
  | .parameters => [sub .pattern, sub .moreParameters]
  | .noMoreParameters => []
  | .moreParameters => [tok .comma .pattern, sub .pattern, sub .moreParameters]
  | .block => [tok .braceOpen .blockStart, sub .statements, tok .braceClose .blockEnd]
  | .noStatements => []
  | .moreStatements => [sub .statement, sub .statements]
  | .declaration d =>
    [tok d.terminal .pattern, sub .declarator, sub .moreDeclarators, tok .semicolon .statementEnd]
  | .conditional => [sub .ifStatement]
  | .switch =>
    [tok .switchWord (.only .parenOpen), tok .parenOpen .operand, sub .expression,
      tok .parenClose (.only .braceOpen), tok .braceOpen .switchBody, sub .cases,
      tok .braceClose .statementEnd]
  | .returns =>
    [tok .returnWord (.operandOr .semicolon), sub .optionalExpression, tok .semicolon .statementEnd]
  | .breaks => [tok .breakWord .labelOrEnd, sub .optionalLabel, tok .semicolon .statementEnd]
  | .throws => [tok .throwWord .operand, sub .expression, tok .semicolon .statementEnd]
  | .expression => [sub .expression, tok .semicolon .statementEnd]
  | .ifStatement =>
    [tok .ifWord (.only .parenOpen), tok .parenOpen .operand, sub .expression,
      tok .parenClose (.only .braceOpen), sub .block, sub .alternative]
  | .noAlternative => []
  | .alternative => [tok .elseWord .elseStart, sub .elseBody]
  | .elseBlock => [sub .block]
  | .elseIf => [sub .ifStatement]
  | .noMoreDeclarators => []
  | .moreDeclarators => [tok .comma .pattern, sub .declarator, sub .moreDeclarators]
  | .declarator => [sub .pattern, sub .initializer]
  | .noInitializer => []
  | .initializer => [tok .assign .operand, sub .expression]
  | .noCases => []
  | .moreCases => [sub .case, sub .cases]
  | .testCase => [tok .caseWord .operand, sub .expression, tok .colon .caseBody, sub .statements]
  | .defaultCase => [tok .defaultWord (.only .colon), tok .colon .caseBody, sub .statements]
  | .noExpression => []
  | .someExpression => [sub .expression]
  | .noLabel => []
  | .label => [tok .name (.only .semicolon)]
  | .namePattern => [tok .name .patternEnd]
  | .objectPattern =>
    [tok .braceOpen Series.propertyPatterns.place, sub (.series .propertyPatterns),
      tok .braceClose .patternEnd]
  | .arrayPattern =>
    [tok .bracketOpen Series.patterns.place, sub (.series .patterns),
      tok .bracketClose .patternEnd]
  | .namedPropertyPattern => [tok .name .shorthandEnd, sub .propertyPatternRest]
  | .stringPropertyPattern => [tok .string .propertyKeyEnd, tok .colon .pattern, sub .pattern]
  | .numberPropertyPattern => [tok .number .propertyKeyEnd, tok .colon .pattern, sub .pattern]
  | .shorthandPattern => []
  | .renamedPattern => [tok .colon .pattern, sub .pattern]
  | .binary l => [sub (.operandOf l), sub (.binaryRest l)]
  | .noMoreOperands _ => []
  | @moreOperands l o => [tok o.terminal .operand, sub (.operandOf l), sub (.binaryRest l)]
  | .unary o => [tok o.terminal .operand, sub .unary]
  | .operand => [sub .primary, sub .accesses]
  | .noAccesses => []
  | .member => [tok .dot (.only .name), tok .name .operator, sub .accesses]
  | .call =>
    [tok .parenOpen (.operandOr .parenClose), sub .arguments, tok .parenClose .operator,
      sub .accesses]
  | .noArguments => []
  | .arguments => [sub .expression, sub .moreArguments]
  | .noMoreArguments => []
  | .moreArguments => [tok .comma .operand, sub .expression, sub .moreArguments]
  | .atom a => [tok a.terminal .operator]
  | .object =>
    [tok .braceOpen Series.properties.place, sub (.series .properties), tok .braceClose .operator]
  | .array =>
    [tok .bracketOpen Series.elements.place, sub (.series .elements), tok .bracketClose .operator]
  | .functionExpression => [sub .function]
  | .parentheses => [tok .parenOpen .operand, sub .expression, tok .parenClose .operator]
  | .asyncMethod => [tok .asyncWord .propertyKey, sub .propertyKey, sub .signature]
  | .plainProperty => [sub .propertyKey, sub .propertyRest]
  | .nameKey => [tok .name .propertyKeyEnd]
  | .stringKey => [tok .string .propertyKeyEnd]
  | .numberKey => [tok .number .propertyKeyEnd]
  | .valueProperty => [tok .colon .operand, sub .expression]
  | .methodProperty => [sub .signature]
  | .noMembers _ => []
  | .members s => [sub (.memberOf s), sub (.seriesRest s)]
  | .noMoreMembers _ => []
  | .moreMembers s => [tok .comma s.place, sub (.series s)]

end Production

/-! ### Choosing a production -/

/-- The operator of a level that a terminal stands for. -/
def Operator.ofTerminal? : (l : Level) → Terminal → Option (Operator l)
  | .or, .orOr => some .or
  | .and, .andAnd => some .and
  | .equality, .equal => some .equal
  | .equality, .notEqual => some .notEqual
  | .equality, .strictEqual => some .strictEqual
  | .equality, .strictNotEqual => some .strictNotEqual
  | .relational, .less => some .less
  | .relational, .lessEqual => some .lessEqual
  | .relational, .greater => some .greater
  | .relational, .greaterEqual => some .greaterEqual
  | .additive, .plus => some .plus
  | .additive, .minus => some .minus
  | .multiplicative, .star => some .times
  | .multiplicative, .percent => some .remainder
  | _, _ => none

/-- A module item begins with this terminal. -/
def startsItem (t : Option Terminal) : Bool :=
  match t with
  | some t => t ∈ Place.item.accepts
  | none => false

/-- A statement begins with this terminal. -/
def startsStatement (t : Option Terminal) : Bool :=
  match t with
  | some t => t ∈ Place.statementStarts
  | none => false

/-- An expression begins with this terminal. -/
def startsExpression (t : Option Terminal) : Bool :=
  match t with
  | some t => t ∈ Place.operandStarts
  | none => false

/-- A pattern begins with this terminal. -/
def startsPattern (t : Option Terminal) : Bool :=
  match t with
  | some t => t ∈ Place.pattern.accepts
  | none => false

/-- A member of the list begins with this terminal. -/
def Series.startsMember (s : Series) (t : Option Terminal) : Bool :=
  match s with
  | .specifiers => t = some .name
  | .propertyPatterns => t = some .name || t = some .string || t = some .number
  | .patterns => startsPattern t
  | .properties => t = some .name || t = some .string || t = some .number || t = some .asyncWord
  | .elements => startsExpression t

/-- The production for a category when the next terminal is the given one, or the source ends. A
category that may be empty is empty unless the next terminal begins it. -/
def predict : (n : Nonterminal) → Option Terminal → Option (Production n)
  | .program, _ => some .program
  | .items, t => some (if startsItem t then .moreItems else .noItems)
  | .item, t => match t with
    | some .importWord => some .importItem
    | some .exportWord => some .exportItem
    | t => if startsStatement t then some .statementItem else none
  | .importRest, t => match t with
    | some .string => some .bareImport
    | some .name | some .braceOpen | some .star => some .boundImport
    | _ => none
  | .importClause, t => match t with
    | some .name => some .defaultClause
    | some .braceOpen | some .star => some .groupClause
    | _ => none
  | .importMore, t => some (if t = some .comma then .importMore else .noImportMore)
  | .importGroup, t => match t with
    | some .braceOpen => some .namedGroup
    | some .star => some .namespaceGroup
    | _ => none
  | .specifier, t => if t = some .name then some .specifier else none
  | .asName, t => some (if t = some .asWord then .asName else .noAsName)
  | .function, t => match t with
    | some .asyncWord => some .asyncFunction
    | some .functionWord => some .plainFunction
    | _ => none
  | .functionRest, t => if t = some .functionWord then some .functionRest else none
  | .functionNamed, t => match t with
    | some .name => some .namedFunction
    | some .parenOpen => some .anonymousFunction
    | _ => none
  | .signature, t => if t = some .parenOpen then some .signature else none
  | .parameters, t => some (if startsPattern t then .parameters else .noParameters)
  | .moreParameters, t => some (if t = some .comma then .moreParameters else .noMoreParameters)
  | .block, t => if t = some .braceOpen then some .block else none
  | .statements, t => some (if startsStatement t then .moreStatements else .noStatements)
  | .statement, t => match t with
    | some .constWord => some (.declaration .constant)
    | some .letWord => some (.declaration .block)
    | some .varWord => some (.declaration .function)
    | some .ifWord => some .conditional
    | some .switchWord => some .switch
    | some .returnWord => some .returns
    | some .breakWord => some .breaks
    | some .throwWord => some .throws
    | t => if startsExpression t then some .expression else none
  | .ifStatement, t => if t = some .ifWord then some .ifStatement else none
  | .alternative, t => some (if t = some .elseWord then .alternative else .noAlternative)
  | .elseBody, t => match t with
    | some .braceOpen => some .elseBlock
    | some .ifWord => some .elseIf
    | _ => none
  | .moreDeclarators, t => some (if t = some .comma then .moreDeclarators else .noMoreDeclarators)
  | .declarator, t => if startsPattern t then some .declarator else none
  | .initializer, t => some (if t = some .assign then .initializer else .noInitializer)
  | .cases, t =>
    some (if t = some .caseWord ∨ t = some .defaultWord then .moreCases else .noCases)
  | .case, t => match t with
    | some .caseWord => some .testCase
    | some .defaultWord => some .defaultCase
    | _ => none
  | .optionalExpression, t => some (if startsExpression t then .someExpression else .noExpression)
  | .optionalLabel, t => some (if t = some .name then .label else .noLabel)
  | .pattern, t => match t with
    | some .name => some .namePattern
    | some .braceOpen => some .objectPattern
    | some .bracketOpen => some .arrayPattern
    | _ => none
  | .propertyPattern, t => match t with
    | some .name => some .namedPropertyPattern
    | some .string => some .stringPropertyPattern
    | some .number => some .numberPropertyPattern
    | _ => none
  | .propertyPatternRest, t =>
    some (if t = some .colon then .renamedPattern else .shorthandPattern)
  | .binary l, t => if startsExpression t then some (.binary l) else none
  | .binaryRest l, t => some (match t.bind (Operator.ofTerminal? l) with
    | some o => .moreOperands o
    | none => .noMoreOperands l)
  | .unary, t => match t with
    | some .awaitWord => some (.unary .await)
    | some .bang => some (.unary .not)
    | some .minus => some (.unary .negate)
    | t => if startsExpression t then some .operand else none
  | .accesses, t => some (match t with
    | some .dot => .member
    | some .parenOpen => .call
    | _ => .noAccesses)
  | .arguments, t => some (if startsExpression t then .arguments else .noArguments)
  | .moreArguments, t => some (if t = some .comma then .moreArguments else .noMoreArguments)
  | .primary, t => match t with
    | some .name => some (.atom .name)
    | some .string => some (.atom .string)
    | some .number => some (.atom .number)
    | some .trueWord => some (.atom .true)
    | some .falseWord => some (.atom .false)
    | some .nullWord => some (.atom .null)
    | some .thisWord => some (.atom .this)
    | some .braceOpen => some .object
    | some .bracketOpen => some .array
    | some .asyncWord | some .functionWord => some .functionExpression
    | some .parenOpen => some .parentheses
    | _ => none
  | .property, t => match t with
    | some .asyncWord => some .asyncMethod
    | some .name | some .string | some .number => some .plainProperty
    | _ => none
  | .propertyKey, t => match t with
    | some .name => some .nameKey
    | some .string => some .stringKey
    | some .number => some .numberKey
    | _ => none
  | .propertyRest, t => match t with
    | some .colon => some .valueProperty
    | some .parenOpen => some .methodProperty
    | _ => none
  | .series s, t => some (if s.startsMember t then .members s else .noMembers s)
  | .seriesRest s, t => some (if t = some .comma then .moreMembers s else .noMoreMembers s)

/-! ### Progress -/

/-- The category has an empty production. -/
def Nonterminal.nullable : Nonterminal → Bool
  | .program | .items | .importMore | .asName | .parameters | .moreParameters | .statements
  | .alternative | .moreDeclarators | .initializer | .cases | .optionalExpression
  | .optionalLabel | .propertyPatternRest | .binaryRest _ | .accesses | .arguments
  | .moreArguments | .series _ | .seriesRest _ => true
  | _ => false

/-- A bound on the number of expansions before a token is read. -/
def Nonterminal.weight : Nonterminal → Nat
  | .program => 14
  | .items => 13
  | .item => 12
  | .importRest => 3
  | .importClause => 2
  | .function => 2
  | .functionNamed => 2
  | .parameters => 2
  | .statements => 12
  | .statement => 11
  | .elseBody => 2
  | .declarator => 2
  | .cases => 2
  | .optionalExpression => 11
  | .binary .or => 10
  | .binary .and => 9
  | .binary .equality => 8
  | .binary .relational => 7
  | .binary .additive => 6
  | .binary .multiplicative => 5
  | .unary => 4
  | .primary => 3
  | .arguments => 11
  | .property => 2
  | .propertyRest => 2
  | .series .elements => 11
  | .series .properties => 3
  | .series _ => 2
  | _ => 1

/-- The symbol stands for no token in some derivation. -/
def Symbol.nullable : Symbol → Bool
  | .tok _ _ => false
  | .sub n => n.nullable

/-- The weight of a symbol. -/
def Symbol.weight : Symbol → Nat
  | .tok _ _ => 0
  | .sub n => n.weight

/-- The weight of the symbols that may be expanded before a token is read. -/
def leadWeight : List Symbol → Nat
  | [] => 0
  | s :: rest => s.weight + if s.nullable then leadWeight rest else 0

/-- The symbols can all stand for no token. -/
def allNullable (symbols : List Symbol) : Bool := symbols.all Symbol.nullable

/-- The parts of a production weigh less than its category. -/
theorem Production.leadWeight_lt {n : Nonterminal} (p : Production n) :
    leadWeight p.parts < n.weight := by
  cases p
  case declaration d => cases d <;> decide
  case binary l => cases l <;> decide
  case noMoreOperands l => cases l <;> decide
  case moreOperands l o => cases o <;> decide
  case unary o => cases o <;> decide
  case atom a => cases a <;> decide
  case noMembers s => cases s <;> decide
  case members s => cases s <;> decide
  case noMoreMembers s => cases s <;> decide
  case moreMembers s => cases s <;> decide
  all_goals decide

/-- Only a category that may be empty has a production whose parts all may be. -/
theorem Production.nullable_of_allNullable {n : Nonterminal} (p : Production n)
    (h : allNullable p.parts = true) : n.nullable = true := by
  revert h
  cases p
  case declaration d => cases d <;> decide
  case binary l => cases l <;> decide
  case noMoreOperands l => cases l <;> decide
  case moreOperands l o => cases o <;> decide
  case unary o => cases o <;> decide
  case atom a => cases a <;> decide
  case noMembers s => cases s <;> decide
  case members s => cases s <;> decide
  case noMoreMembers s => cases s <;> decide
  case moreMembers s => cases s <;> decide
  all_goals decide

/-- What may be expanded first in a list that begins with symbols that cannot all be empty lies
within these symbols. -/
theorem leadWeight_append_of_not {xs ys : List Symbol} (h : allNullable xs = false) :
    leadWeight (xs ++ ys) = leadWeight xs := by
  induction xs with
  | nil => simp [allNullable] at h
  | cons s rest ih =>
    simp only [List.cons_append, leadWeight]
    cases hs : s.nullable
    · simp
    · simp only [allNullable, List.all_cons, hs, Bool.true_and] at h
      simp [ih h]

/-- The weights of symbols that may all be empty add up. -/
theorem leadWeight_append {xs ys : List Symbol} (h : allNullable xs = true) :
    leadWeight (xs ++ ys) = leadWeight xs + leadWeight ys := by
  induction xs with
  | nil => simp [leadWeight]
  | cons s rest ih =>
    simp only [allNullable, List.all_cons, Bool.and_eq_true] at h
    simp only [List.cons_append, leadWeight, h.1, if_true]
    rw [ih h.2]
    omega

/-- Expanding the first of the pending symbols makes them weigh less. -/
theorem leadWeight_expand_lt {n : Nonterminal} (p : Production n) (rest : List Symbol) :
    leadWeight (p.parts ++ rest) < leadWeight (.sub n :: rest) := by
  have hlt := p.leadWeight_lt
  cases h : allNullable p.parts
  · rw [leadWeight_append_of_not h]
    simp only [leadWeight, Symbol.weight]
    omega
  · rw [leadWeight_append h]
    simp only [leadWeight, Symbol.weight, Symbol.nullable, p.nullable_of_allNullable h, if_true]
    omega

end RhoScript.Source
