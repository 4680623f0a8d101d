import RhoScript.Number.Decimal
import RhoScript.Text.Quoted
import RhoScript.Text.Wide

/-!
# Ground values

The values that literals denote and that processes carry: truth values, integers of any size,
doubles and strings of code points. Each is written in one way in the calculus. Integers and doubles
stay apart as values, yet `Ground.same` compares them as numbers, and counts the truth values as 0 and
1.
-/

namespace RhoScript

open Number Text

/-- A value without parts. -/
inductive Ground where
  | bool (b : Bool)
  | int (n : Int)
  | double (x : Double)
  | string (s : WideString)
deriving DecidableEq, Repr, Inhabited

namespace Ground

/-! ### Text -/

/-- Numbers are positional from `0.000001` up to twenty-one digits before the point; whole numbers
have no point. -/
def style : NumeralStyle := ⟨-6, 21, "", 1⟩

/-- The text of a double: what is not finite has none of its own, and zero has no sign. -/
def doubleText (x : Double) : String :=
  if !x.isFinite then "null"
  else if x.isZero then "0"
  else (if x.negative then "-" else "") ++ style.write (Decimal.shortest x)

/-- The decimal digits of an integer, after a minus sign if it is negative. -/
def digitsText (n : Int) : String :=
  (if n < 0 then "-" else "") ++ String.ofList (Nat.toDigits 10 n.natAbs)

/-- A character inside a string's text: quotes, backslashes and control characters are escaped. -/
def escape (c : Char) : List Char :=
  if c = '"' ∨ c = '\\' then ['\\', c]
  else if c = '\n' then ['\\', 'n']
  else if c = '\r' then ['\\', 'r']
  else if c = '\t' then ['\\', 't']
  else if c = '\x08' then ['\\', 'b']
  else if c = '\x0c' then ['\\', 'f']
  else if c.toNat < 0x20 then '\\' :: 'u' :: hex 4 c.toNat
  else [c]

/-- A string between double quotes. -/
def stringText (s : String) : String :=
  String.ofList ('"' :: s.toList.flatMap escape ++ ['"'])

/-- A code point inside a string's text. A half of a surrogate pair stands there as it is. -/
def escapePoint : CodePoint → WideString
  | .char c => (escape c).map .char
  | .half n => [.half n]

/-- A string, which need not be a text, between double quotes. -/
def quotedText (s : WideString) : WideString := .char '"' :: s.flatMap escapePoint ++ [.char '"']

theorem quotedText_ofString (s : String) : quotedText s = stringText s := by
  rw [quotedText, stringText, WideString.ofString_ofList, WideString.ofString, List.flatMap_map]
  simp [List.map_flatMap, escapePoint]

/-- What is written for a ground value. An integer of `2 ^ 53` or more is written as the nearest
double, and has no text if that is infinite. -/
def text? : Ground → Option WideString
  | .bool b => some ((if b then "true" else "false" : String) : WideString)
  | .int n =>
    if n.natAbs < Nat.pow 2 53 then some (digitsText n)
    else
      let x := Double.ofInt n
      if x.isFinite then some (doubleText x) else none
  | .double x => some (doubleText x)
  | .string s => some (quotedText s)

/-! ### Equality of values -/

/-- The number of a value, if it has one and is not a string: an integer, or a double that is no
integer. -/
def number? : Ground → Option (Int ⊕ Double)
  | .bool b => some (.inl (if b then 1 else 0))
  | .int n => some (.inl n)
  | .double x => some (match x.toInt? with | some n => .inl n | none => .inr x)
  | .string _ => none

/-- Equality of values, exact between integers and doubles. -/
def same (a b : Ground) : Bool :=
  match a, b with
  | .string s, .string t => s = t
  | a, b =>
    match a.number?, b.number? with
    | some (.inl m), some (.inl n) => m = n
    | some (.inr x), some (.inr y) => x.sameNumber y
    | _, _ => false

/-! ### Values in messages -/

/-- Numbers in messages are positional from `0.0001` up to sixteen digits before the point, whole
doubles end in `.0`, and an exponent has two digits or more. -/
def messageStyle : NumeralStyle := ⟨-4, 16, ".0", 2⟩

/-- A value, or the absence of one, as messages show it. -/
def message : Option Ground → WideString
  | none => "None"
  | some (.bool b) => (if b then "True" else "False" : String)
  | some (.int n) => digitsText n
  | some (.string s) => s
  | some (.double x) =>
    (if x.isNaN then "nan"
    else (if x.negative then "-" else "") ++
      (if !x.isFinite then "inf"
      else if x.isZero then "0.0"
      else messageStyle.write (Decimal.shortest x)) : String)

end Ground

end RhoScript
