/-!
# Terminals and places

Keywords are not reserved in this language. What a word is depends on the place where it stands: a
place of the grammar accepts some terminals, and only these are looked for there. A word is a
keyword where that keyword is accepted, and an identifier at other places.
-/

namespace RhoScript.Source

/-- A class of tokens. -/
inductive Terminal where
  | name
  | string
  | number
  | importWord
  | exportWord
  | defaultWord
  | functionWord
  | asWord
  | fromWord
  | asyncWord
  | constWord
  | letWord
  | varWord
  | ifWord
  | elseWord
  | switchWord
  | caseWord
  | returnWord
  | breakWord
  | throwWord
  | awaitWord
  | trueWord
  | falseWord
  | nullWord
  | thisWord
  | braceOpen
  | braceClose
  | parenOpen
  | parenClose
  | bracketOpen
  | bracketClose
  | semicolon
  | comma
  | colon
  | dot
  | assign
  | star
  | percent
  | plus
  | minus
  | bang
  | orOr
  | andAnd
  | equal
  | notEqual
  | strictEqual
  | strictNotEqual
  | less
  | lessEqual
  | greater
  | greaterEqual
deriving DecidableEq, Repr, Inhabited

/-- The one spelling of a keyword, mark or operator. -/
def Terminal.spelling? : Terminal → Option String
  | .name => none
  | .string => none
  | .number => none
  | .importWord => some "import"
  | .exportWord => some "export"
  | .defaultWord => some "default"
  | .functionWord => some "function"
  | .asWord => some "as"
  | .fromWord => some "from"
  | .asyncWord => some "async"
  | .constWord => some "const"
  | .letWord => some "let"
  | .varWord => some "var"
  | .ifWord => some "if"
  | .elseWord => some "else"
  | .switchWord => some "switch"
  | .caseWord => some "case"
  | .returnWord => some "return"
  | .breakWord => some "break"
  | .throwWord => some "throw"
  | .awaitWord => some "await"
  | .trueWord => some "true"
  | .falseWord => some "false"
  | .nullWord => some "null"
  | .thisWord => some "this"
  | .braceOpen => some "\x7b"
  | .braceClose => some "\x7d"
  | .parenOpen => some "("
  | .parenClose => some ")"
  | .bracketOpen => some "["
  | .bracketClose => some "]"
  | .semicolon => some ";"
  | .comma => some ","
  | .colon => some ":"
  | .dot => some "."
  | .assign => some "="
  | .star => some "*"
  | .percent => some "%"
  | .plus => some "+"
  | .minus => some "-"
  | .bang => some "!"
  | .orOr => some "||"
  | .andAnd => some "&&"
  | .equal => some "=="
  | .notEqual => some "!="
  | .strictEqual => some "==="
  | .strictNotEqual => some "!=="
  | .less => some "<"
  | .lessEqual => some "<="
  | .greater => some ">"
  | .greaterEqual => some ">="

/-- A place of the grammar, by what may stand there. -/
inductive Place where
  /-- One terminal is needed. -/
  | only (t : Terminal)
  /-- A module item may begin. -/
  | item
  /-- After an import's clause started: a default name, a group or a bare source. -/
  | importStart
  /-- After a default name and a comma. -/
  | importGroup
  /-- After a default name. -/
  | defaultEnd
  /-- An import specifier, or the end of the group. -/
  | specifier
  /-- After an imported name. -/
  | specifierEnd
  /-- After the local name of an import specifier. -/
  | asNameEnd
  /-- After `export default`. -/
  | exported
  /-- After `function`. -/
  | functionName
  /-- After the opening brace of a block. -/
  | blockStart
  /-- After the colon of a case. -/
  | caseBody
  /-- After the last token of a statement that is no block. -/
  | statementEnd
  /-- After the closing brace of a block, whatever the block belongs to. -/
  | blockEnd
  /-- After `else`. -/
  | elseStart
  /-- After the opening brace of a `switch`. -/
  | switchBody
  /-- After `break`. -/
  | labelOrEnd
  /-- An expression may begin. -/
  | operand
  /-- An expression may begin, or a mark stands in its place. -/
  | operandOr (mark : Terminal)
  /-- After an operand. -/
  | operator
  /-- A pattern may begin. -/
  | pattern
  /-- A pattern may begin, or a mark stands in its place. -/
  | patternOr (mark : Terminal)
  /-- After a pattern. -/
  | patternEnd
  /-- A property of a pattern, or the end of the pattern. -/
  | propertyPattern
  /-- After a name that is a property of a pattern. -/
  | shorthandEnd
  /-- A property of an object, or the end of the object. -/
  | property
  /-- The key of a method, after `async`. -/
  | propertyKey
  /-- After the key of a property. -/
  | propertyKeyEnd
deriving DecidableEq, Repr, Inhabited

namespace Place

/-- The terminals that an expression starts with. -/
def operandStarts : List Terminal :=
  [.name, .string, .number, .trueWord, .falseWord, .nullWord, .thisWord, .functionWord, .asyncWord,
    .awaitWord, .bang, .minus, .parenOpen, .braceOpen, .bracketOpen]

/-- The terminals that a statement starts with. -/
def statementStarts : List Terminal :=
  [.constWord, .letWord, .varWord, .ifWord, .switchWord, .returnWord, .breakWord, .throwWord] ++
    operandStarts

/-- The terminals that can follow an operand: operators, and marks that end an expression. -/
def operandFollows : List Terminal :=
  [.orOr, .andAnd, .equal, .notEqual, .strictEqual, .strictNotEqual, .less, .lessEqual, .greater,
    .greaterEqual, .plus, .minus, .star, .percent, .dot, .parenOpen, .parenClose, .bracketClose,
    .braceClose, .comma, .colon, .semicolon]

/-- The terminals that can follow a statement, in some module, block or case. -/
def statementFollows : List Terminal :=
  [.importWord, .exportWord, .caseWord, .defaultWord, .braceClose] ++ statementStarts

/-- The terminals that are looked for at a place. -/
def accepts : Place → List Terminal
  | .only t => [t]
  | .item => [.importWord, .exportWord] ++ statementStarts
  | .importStart => [.name, .string, .star, .braceOpen]
  | .importGroup => [.star, .braceOpen]
  | .defaultEnd => [.comma, .fromWord]
  | .specifier => [.name, .braceClose]
  | .specifierEnd => [.asWord, .comma, .braceClose]
  | .asNameEnd => [.comma, .braceClose]
  | .exported => [.asyncWord, .functionWord]
  | .functionName => [.name, .parenOpen]
  | .blockStart => .braceClose :: statementStarts
  | .caseBody => [.caseWord, .defaultWord, .braceClose] ++ statementStarts
  | .statementEnd => statementFollows
  | .blockEnd => .elseWord :: statementFollows ++ operandFollows
  | .elseStart => [.ifWord, .braceOpen]
  | .switchBody => [.caseWord, .defaultWord, .braceClose]
  | .labelOrEnd => [.name, .semicolon]
  | .operand => operandStarts
  | .operandOr mark => mark :: operandStarts
  | .operator => operandFollows
  | .pattern => [.name, .braceOpen, .bracketOpen]
  | .patternOr mark => [mark, .name, .braceOpen, .bracketOpen]
  | .patternEnd => [.assign, .parenClose, .bracketClose, .braceClose, .comma, .semicolon]
  | .propertyPattern => [.name, .string, .number, .braceClose]
  | .shorthandEnd => [.comma, .colon, .braceClose]
  | .property => [.name, .string, .number, .asyncWord, .braceClose]
  | .propertyKey => [.name, .string, .number]
  | .propertyKeyEnd => [.colon, .parenOpen]

end Place

end RhoScript.Source
