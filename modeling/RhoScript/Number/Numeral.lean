import RhoScript.Ground
import RhoScript.Text.DecimalDigit
import RhoScript.Text.Line

/-!
# Reading numbers

A numeral with a point or an exponent denotes a double, any other an integer. Around a numeral there
may be blanks, before it a sign, and between two digits a single underscore. The digits of every
script count. An integer has at most `Numeral.digitLimit` digits.
-/

namespace RhoScript.Number.Numeral

open Text

/-- The greatest number of digits that an integer is read from. -/
def digitLimit : Nat := 4300

/-- Why a text denotes no number. -/
inductive Error where
  /-- The text is no integer. -/
  | integer (text : String)
  /-- The text is no decimal fraction. -/
  | fraction (text : String)
  /-- The integer has that many digits, which is more than the limit. -/
  | tooLong (digits : Nat)
deriving DecidableEq, Repr

/-- The wording of an error. Of a text that is no integer the first two hundred characters of the
quoted form are shown. -/
def Error.message : Error → String
  | .integer text =>
    "invalid literal for int() with base 10: " ++ String.ofList ((quoted text).toList.take 200)
  | .fraction text => "could not convert string to float: " ++ quoted text
  | .tooLong digits =>
    s!"Exceeds the limit ({digitLimit} digits) for integer string conversion: " ++
      s!"value has {digits} digits; use sys.set_int_max_str_digits() to increase the limit"

/-- A blank that may surround a numeral once its text is plain. -/
def isPadding (c : Char) : Bool := c = ' ' || (0x09 ≤ c.toNat && c.toNat ≤ 0x0d)

/-- A character beyond ASCII in plain writing: a blank becomes a space, a digit the ASCII digit of
its value, and any other character one that no numeral has. -/
def plainChar (c : Char) : Char :=
  if c.toNat < 0x7f then c
  else if isBlank c then ' '
  else match digitValue? c with
    | some d => Char.ofNat (48 + d)
    | none => '?'

/-- A text in plain writing. A text that is ASCII already stays as it is. -/
def plain (text : List Char) : List Char :=
  if text.all (·.toNat < 0x80) then text else text.map plainChar

/-- The sign in front, true for a minus, and what follows it. -/
def sign : List Char → Bool × List Char
  | '-' :: rest => (true, rest)
  | '+' :: rest => (false, rest)
  | rest => (false, rest)

/-- Each underscore of the text has a digit before and after it. -/
def underscoresFit : List Char → Bool
  | [] => true
  | '_' :: _ => false
  | c :: '_' :: d :: rest => c.isDigit && d.isDigit && underscoresFit (d :: rest)
  | _ :: ['_'] => false
  | _ :: rest => underscoresFit rest

/-- The number that ASCII digits denote. -/
def valueOf (digits : List Char) : Nat :=
  digits.foldl (fun n c => 10 * n + (c.toNat - 48)) 0

/-- Reads an integer. -/
def readInt (text : String) : Except Error Int :=
  let (negative, rest) := sign ((plain text.toList).dropWhile isPadding)
  let body := rest.takeWhile fun c => c.isDigit || c = '_'
  let digits := body.filter Char.isDigit
  if !underscoresFit body then .error (.integer text)
  else if digitLimit < digits.length then .error (.tooLong digits.length)
  else if digits.isEmpty ∨ !(rest.drop body.length).all isPadding then .error (.integer text)
  else .ok (if negative then -valueOf digits else valueOf digits)

/-- The digits in front of a text, and the rest. -/
def spanDigits (text : List Char) : List Char × List Char := text.span Char.isDigit

/-- The exponent at the end of a numeral: nothing, or a mark, an optional sign and digits. -/
def readExponent? : List Char → Option Int
  | [] => some 0
  | c :: rest =>
    if c = 'e' ∨ c = 'E' then
      let (negative, digits) := sign rest
      if digits.isEmpty ∨ !digits.all Char.isDigit then none
      else some (if negative then -valueOf digits else valueOf digits)
    else none

/-- Reads plain digits with an optional point and an optional exponent. -/
def readDecimal? (negative : Bool) (text : List Char) : Option Double := do
  let (whole, rest) := spanDigits text
  let (part, rest) := match rest with
    | '.' :: rest => spanDigits rest
    | rest => ([], rest)
  if whole.isEmpty && part.isEmpty then none
  let e ← readExponent? rest
  return Double.ofDecimal negative (valueOf (whole ++ part)) (e - part.length)

/-- Reads a double. -/
def readDouble (text : String) : Except Error Double :=
  let inner := (((plain text.toList).dropWhile isPadding).reverse.dropWhile isPadding).reverse
  let (negative, rest) := sign inner
  let number := if underscoresFit inner then readDecimal? negative (rest.filter (· ≠ '_')) else none
  match number with
  | some x => .ok x
  | none => .error (.fraction text)

/-- Reads a number: a double if there is a point or an exponent mark, else an integer. -/
def read (text : String) : Except Error Ground :=
  if text.toList.any fun c => c = '.' || c = 'e' || c = 'E' then .double <$> readDouble text
  else .int <$> readInt text

end RhoScript.Number.Numeral
