import RhoScript.Issue
import RhoScript.Number.Numeral

/-!
# Integers in texts

A text may give an integer with blanks around it, a sign, zeros in front, single underscores between
its digits and a fraction of zeros. `IntegerText.plain?` takes all of these away. What is left, a
minus or nothing and then digits, is read by `IntegerText.readPlain?`. Among the zeros in front
there may be any number of underscores, and the minus may also follow those zeros.
-/

namespace RhoScript.Document.IntegerText

open Number Text

/-- A blank that may surround an integer in a text. -/
def isSpace (c : Char) : Bool := isBlank c && !(0x1c ≤ c.toNat && c.toNat ≤ 0x1f)

/-- A text without the blanks around it. -/
def trim (text : List Char) : List Char :=
  ((text.dropWhile isSpace).reverse.dropWhile isSpace).reverse

/-- The rest of a text after zeros and underscores, of which `last` was the one before. It starts
with a digit or a minus. In front of a point and at the end of the text `last` is kept, so that a
zero remains to be read. -/
def afterZeros? (last : Char) : List Char → Option (List Char)
  | [] => some [last]
  | c :: rest =>
    if c = '0' ∨ c = '_' then afterZeros? c rest
    else if c = '.' then some (last :: c :: rest)
    else if c = '-' ∨ c.isDigit then some (c :: rest)
    else none

/-- A text without the zeros in front. The text must start with a digit. -/
def dropZeros? : List Char → Option (List Char)
  | [] => none
  | c :: rest =>
    if c = '0' then afterZeros? c rest
    else if c.isDigit then some (c :: rest)
    else none

/-- A point with one zero or more, or nothing. -/
def isZeroFraction : List Char → Bool
  | [] => true
  | c :: zeros => c = '.' && !zeros.isEmpty && zeros.all (· = '0')

/-- A text without the fraction of zeros at its end. -/
def dropFraction (text : List Char) : List Char :=
  let (whole, fraction) := text.span (· ≠ '.')
  if isZeroFraction fraction then whole else text

/-- Two underscores stand side by side in the text. -/
def hasDoubleUnderscore : List Char → Bool
  | '_' :: '_' :: _ => true
  | _ :: rest => hasDoubleUnderscore rest
  | [] => false

/-- A text without its underscores. Where one of them stands at an end or beside another, all are
kept, and the text will not be read. -/
def dropUnderscores (text : List Char) : List Char :=
  if text.head? = some '_' ∨ text.getLast? = some '_' ∨ hasDoubleUnderscore text then text
  else text.filter (· ≠ '_')

/-- The plain form of a text that may give an integer. -/
def plain? (text : List Char) : Option (List Char) :=
  let (negative, rest) := Numeral.sign (trim text)
  (dropZeros? rest).map fun rest =>
    let body := dropUnderscores (dropFraction rest)
    if negative then '-' :: body else body

/-- The minus in front, if there is one, and what follows it. -/
def minus : List Char → Bool × List Char
  | '-' :: rest => (true, rest)
  | rest => (false, rest)

/-- Reads a plain form: a minus or nothing, and then a single zero, or digits that do not start with
zero and are not too many. -/
def readPlain? (text : List Char) : Option Int :=
  let (negative, digits) := minus text
  if digits.isEmpty ∨ !digits.all Char.isDigit ∨ (digits.head? = some '0' ∧ digits.length ≠ 1)
      ∨ Numeral.digitLimit < digits.length then none
  else
    let n : Int := Numeral.valueOf digits
    some (if negative then -n else n)

/-- A text starts with a minus or nothing and then too many digits, the first of which is not zero.
-/
def startsTooLong (text : List Char) : Bool :=
  let digits := (minus text).2.takeWhile Char.isDigit
  digits.head? ≠ some '0' && Numeral.digitLimit < digits.length

/-- Reads an integer from a text. Too many digits are reported where the text as it stands starts
with them, whatever follows; in any other text they make it no integer. -/
def read (text : String) : Validated Int :=
  if startsTooLong text.toList then .fail .intParsingSize
  else match (plain? text.toList).bind readPlain? with
    | some n => .valid n
    | none => .fail .intParsing

end RhoScript.Document.IntegerText
