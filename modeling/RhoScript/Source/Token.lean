import RhoScript.Diagnostic
import RhoScript.Source.Terminal
import RhoScript.Text.Alphanumeric
import RhoScript.Text.DecimalDigit

/-!
# Tokens

A token is read at a place. Blanks and comments before it are skipped; then the terminals that the
place accepts are looked for, and of several spellings that fit the longest is taken. Where names
are accepted a whole word is read before it is told what the word is, so a keyword never ends inside
a word there; where they are not accepted, a keyword is found as soon as its letters are there.
-/

namespace RhoScript

/-- The position after a character. Only a line feed starts a line. -/
def Position.after (p : Position) (c : Char) : Position :=
  if c = '\n' then ⟨p.line + 1, 0⟩ else ⟨p.line, p.column + 1⟩

namespace Source

open Text

/-- A piece of a source that belongs to a terminal. -/
structure Token where
  terminal : Terminal
  text : String
  start : Position
  stop : Position
deriving DecidableEq, Repr, Inhabited

/-- The rest of a source, and the position where it begins. -/
structure Cursor where
  rest : List Char
  position : Position
deriving DecidableEq, Repr, Inhabited

/-- The cursor at the beginning of a source. -/
def Cursor.start (source : String) : Cursor := ⟨source.toList, ⟨1, 0⟩⟩

/-- The cursor after the next `n` characters. -/
def Cursor.advance (c : Cursor) (n : Nat) : Cursor :=
  ⟨c.rest.drop n, (c.rest.take n).foldl Position.after c.position⟩

/-! ### Blanks and comments -/

/-- A blank between tokens. -/
def isLayoutBlank (c : Char) : Bool :=
  c = ' ' || c = '\t' || c = '\x0c' || c = '\r' || c = '\n'

/-- The number of characters up to the end of a comment that has been opened. -/
def commentLength? : List Char → Option Nat
  | [] => none
  | '*' :: '/' :: _ => some 2
  | _ :: rest => (commentLength? rest).map (· + 1)

/-- The length of a blank or a comment at the front of a text; zero if there is none. -/
def layoutLength : List Char → Nat
  | [] => 0
  | '/' :: '/' :: rest => 2 + (rest.takeWhile (· ≠ '\n')).length
  | '/' :: '*' :: rest => match commentLength? rest with
    | some n => 2 + n
    | none => 0
  | c :: _ => if isLayoutBlank c then 1 else 0

/-- The cursor after all blanks and comments in front. -/
def Cursor.skipLayout (c : Cursor) : Cursor :=
  if h : layoutLength c.rest = 0 then c
  else
    have : (c.advance (layoutLength c.rest)).rest.length < c.rest.length := by
      have hne : c.rest ≠ [] := fun hnil => h (by simp [hnil, layoutLength])
      have := List.length_pos_iff.mpr hne
      simp only [Cursor.advance, List.length_drop]
      omega
    (c.advance (layoutLength c.rest)).skipLayout
termination_by c.rest.length

/-! ### Lexemes -/

/-- A character that may begin a name. -/
def isNameStart (c : Char) : Bool := c.isAlpha || c = '_' || c = '$'

/-- A character that may continue a name. -/
def isNamePart (c : Char) : Bool := isAlphanumeric c || c = '_' || c = '$'

/-- The length of the name at the front of a text; zero if there is none. -/
def nameLength : List Char → Nat
  | [] => 0
  | c :: rest => if isNameStart c then 1 + (rest.takeWhile isNamePart).length else 0

/-- The number of characters up to the closing quote. A line feed ends the search, and a backslash
takes the next character along. -/
def closingLength? (quote : Char) : List Char → Option Nat
  | [] => none
  | '\\' :: c :: rest => if c = '\n' then none else (closingLength? quote rest).map (· + 2)
  | c :: rest =>
    if c = quote then some 1
    else if c = '\n' || c = '\\' then none
    else (closingLength? quote rest).map (· + 1)

/-- The length of the string literal at the front of a text; zero if there is none. -/
def stringLength : List Char → Nat
  | [] => 0
  | c :: rest =>
    if c = '"' || c = '\x27' then
      match closingLength? c rest with
      | some n => 1 + n
      | none => 0
    else 0

/-- The length of the digits at the front of a text. -/
def digitsLength (text : List Char) : Nat := (text.takeWhile isDecimalDigit).length

/-- The length of a point and digits at the front of a text; zero if there is none. -/
def fractionLength : List Char → Nat
  | '.' :: rest => if digitsLength rest = 0 then 0 else 1 + digitsLength rest
  | _ => 0

/-- The length of an exponent's sign. -/
def signLength : List Char → Nat
  | '+' :: _ => 1
  | '-' :: _ => 1
  | _ => 0

/-- The length of an exponent at the front of a text; zero if there is none. -/
def exponentLength : List Char → Nat
  | [] => 0
  | c :: rest =>
    if c = 'e' || c = 'E' then
      let sign := signLength rest
      let digits := digitsLength (rest.drop sign)
      if digits = 0 then 0 else 1 + sign + digits
    else 0

/-- The length of the number at the front of a text; zero if there is none. -/
def numberLength (text : List Char) : Nat :=
  let whole := digitsLength text
  if whole = 0 then 0
  else
    let fraction := fractionLength (text.drop whole)
    whole + fraction + exponentLength (text.drop (whole + fraction))

/-- The length of a terminal's spelling at the front of a text; zero if the text does not start with
it. -/
def spellingLength (text : List Char) (t : Terminal) : Nat :=
  match t.spelling? with
  | some spelling => if spelling.toList.isPrefixOf text then spelling.length else 0
  | none => 0

/-- The terminal with the longest spelling at the front of a text, if one of the list has any there.
-/
def longest? (text : List Char) : List Terminal → Option (Terminal × Nat)
  | [] => none
  | t :: rest =>
    let n := spellingLength text t
    match longest? text rest with
    | some (u, m) => if m < n then some (t, n) else some (u, m)
    | none => if n = 0 then none else some (t, n)

/-- What a word is among the accepted terminals: a keyword, or else a name. -/
def wordTerminal (accepted : List Terminal) (word : List Char) : Terminal :=
  (accepted.find? fun t => t.spelling? = some (String.ofList word)).getD .name

/-- The terminal, among the accepted ones, of the token at the front of a text, and its length. -/
def lexeme? (accepted : List Terminal) (text : List Char) : Option (Terminal × Nat) :=
  if .string ∈ accepted ∧ stringLength text ≠ 0 then some (.string, stringLength text)
  else if .number ∈ accepted ∧ numberLength text ≠ 0 then some (.number, numberLength text)
  else if .name ∈ accepted ∧ nameLength text ≠ 0 then
    some (wordTerminal accepted (text.take (nameLength text)), nameLength text)
  else longest? text accepted

/-- Reads the token after blanks and comments: none at the end of the source. At characters that
begin no accepted token the result is their position. -/
def read (place : Place) (c : Cursor) : Except Position (Option Token × Cursor) :=
  let c := c.skipLayout
  if c.rest.isEmpty then .ok (none, c)
  else match lexeme? place.accepts c.rest with
    | some (terminal, n) =>
      let next := c.advance n
      .ok (some ⟨terminal, String.ofList (c.rest.take n), c.position, next.position⟩, next)
    | none => .error c.position

end Source

end RhoScript
