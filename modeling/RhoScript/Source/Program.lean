import RhoScript.CompileError
import RhoScript.Source.Meaning
import RhoScript.Source.Parser

/-!
# Programs from source texts

The front end for source texts: a text is parsed, and its derivation evaluated to a syntax tree. A
syntax error cites the line that it is on and gives a hint; a literal without a value is reported
without a position.

A few mistakes show in the characters of a source alone: brackets that do not match, and keywords of
constructs outside the subset. The first that applies is the hint.
-/

namespace RhoScript

open Text

/-! ### Hints for syntax errors -/

namespace Hint

/-- The hint for brackets of one kind that do not match. -/
def brackets (name : String) (opening closing : Char) (source : List Char) : Option String :=
  let opened := source.count opening
  let closed := source.count closing
  if opened = closed then none
  else some s!"Unmatched {name}: found {opened} '{opening}' but {closed} '{closing}'"

/-- The hint for a construct outside the subset, by the word that starts it. -/
def keyword (word : String) (source : List Char) : Option String :=
  if occursIn (word.toList ++ [' ']) source then some s!"'{word}' is outside the supported subset"
  else none

/-- The hint for a source that has a syntax error. -/
def find? (source : String) : Option String :=
  let chars := source.toList
  brackets "braces" '\x7b' '\x7d' chars
    <|> brackets "parentheses" '(' ')' chars
    <|> keyword "class" chars
    <|> keyword "while" chars
    <|> keyword "for" chars

end Hint

/-! ### Reading a source -/

namespace Source

/-- The report of a syntax error. -/
def syntaxError (source : String) (position : Position) : CompileError where
  message := "Syntax error"
  line := some position.line
  column := some position.column
  context := line? source position.line
  suggestion := some ((Hint.find? source).getD "Check syntax around this line")

/-- The report of a literal without a value. -/
def literalError (e : LiteralError) : CompileError where
  message := s!"Could not build syntax tree: {e.message}"
  suggestion := some "Check string escapes and number formats"

/-- The syntax tree of a source text. -/
def readProgram (source : String) : Except CompileError Node :=
  match parseProgram source with
  | .error position => .error (syntaxError source position)
  | .ok tree => match tree.program with
    | .error e => .error (literalError e)
    | .ok program => .ok program

end Source

end RhoScript
