import RhoScript.Json.Basic
import RhoScript.Number.Numeral
import RhoScript.Text.Hex

/-!
# Reading JSON texts

The grammar is the standard one, with the words `NaN`, `Infinity` and `-Infinity` as further
numbers. A number with a fraction or an exponent is a double, any other an integer. Strings hold no
control characters, and an escaped surrogate only as a half of a pair. A number whose whole part
has more than `Json.Reader.wholeLimit` digits is refused.
-/

namespace RhoScript.Json.Reader

open Number Text

/-- The greatest number of digits of a number up to its point or exponent. -/
def wholeLimit : Nat := 4300

/-- A blank between the parts of a text. -/
def isSpace (c : Char) : Bool := c = ' ' || c = '\t' || c = '\n' || c = '\r'

/-- The text after blanks. -/
def skip (text : List Char) : List Char := text.dropWhile isSpace

/-! ### Strings -/

/-- The character of an escape of one letter. -/
def simpleEscape? : Char → Option Char
  | '"' => some '"'
  | '\\' => some '\\'
  | '/' => some '/'
  | 'b' => some '\x08'
  | 'f' => some '\x0c'
  | 'n' => some '\n'
  | 'r' => some '\r'
  | 't' => some '\t'
  | _ => none

/-- The rest of a string after its opening quote: its characters, and what follows the closing one.
-/
def string? : List Char → Option (List Char × List Char)
  | [] => none
  | '"' :: rest => some ([], rest)
  | '\\' :: 'u' :: a :: b :: c :: d :: rest => do
    let n ← hexValue? 0 [a, b, c, d]
    if isHighSurrogate n then
      match rest with
      | '\\' :: 'u' :: a' :: b' :: c' :: d' :: rest => do
        let m ← hexValue? 0 [a', b', c', d']
        if isLowSurrogate m then
          let (text, rest) ← string? rest
          return (Char.ofNat (joinSurrogates n m) :: text, rest)
        else none
      | _ => none
    else if isLowSurrogate n then none
    else
      let (text, rest) ← string? rest
      return (Char.ofNat n :: text, rest)
  | '\\' :: e :: rest => do
    let c ← simpleEscape? e
    let (text, rest) ← string? rest
    return (c :: text, rest)
  | c :: rest =>
    if c.toNat < 0x20 || c = '\\' then none
    else do
      let (text, rest) ← string? rest
      return (c :: text, rest)

/-! ### Numbers -/

/-- The digits in front of a text, at least one, and the rest. -/
def digits? (text : List Char) : Option (List Char × List Char) :=
  let (digits, rest) := text.span Char.isDigit
  if digits.isEmpty then none else some (digits, rest)

/-- A point and digits, or nothing. -/
def fraction? : List Char → Option (List Char × List Char)
  | '.' :: rest => digits? rest
  | rest => some ([], rest)

/-- An exponent, or nothing. -/
def exponent? : List Char → Option (Option Int × List Char)
  | c :: rest =>
    if c = 'e' ∨ c = 'E' then do
      let (negative, rest) := Numeral.sign rest
      let (digits, rest) ← digits? rest
      let n : Int := Numeral.valueOf digits
      return (some (if negative then -n else n), rest)
    else some (none, c :: rest)
  | [] => some (none, [])

/-- A number after its sign. -/
def number? (negative : Bool) (text : List Char) : Option (Json × List Char) := do
  let (whole, rest) ← match text with
    | '0' :: rest => some (['0'], rest)
    | text => digits? text
  if wholeLimit < whole.length then none
  let (part, rest) ← fraction? rest
  let (e, rest) ← exponent? rest
  if part.isEmpty && e.isNone then
    let n : Int := Numeral.valueOf whole
    return (.int (if negative then -n else n), rest)
  else
    let x := Double.ofDecimal negative (Numeral.valueOf (whole ++ part)) (e.getD 0 - part.length)
    return (.double x, rest)

/-- The text after a word that it starts with. -/
def afterWord? (word : String) (text : List Char) : Option (List Char) :=
  if word.toList.isPrefixOf text then some (text.drop word.length) else none

/-- A value without parts. -/
def scalar? (text : List Char) : Option (Json × List Char) :=
  (afterWord? "null" text).map (Json.null, ·)
    <|> (afterWord? "true" text).map (Json.bool true, ·)
    <|> (afterWord? "false" text).map (Json.bool false, ·)
    <|> (afterWord? "NaN" text).map (Json.double .nan, ·)
    <|> (afterWord? "Infinity" text).map (Json.double (.infinity false), ·)
    <|> (afterWord? "-Infinity" text).map (Json.double (.infinity true), ·)
    <|> match text with
      | '"' :: rest => (string? rest).map fun (s, rest) => (.string (String.ofList s), rest)
      | '-' :: rest => number? true rest
      | text => number? false text

/-! ### Documents -/

mutual

/-- A value, at the start of the text, and the rest. The first argument bounds the number of steps.
-/
def value? : Nat → List Char → Option (Json × List Char)
  | 0, _ => none
  | steps + 1, '[' :: rest =>
    match skip rest with
    | ']' :: rest => some (.array [], rest)
    | rest => (items? steps rest).map fun (items, rest) => (.array items, rest)
  | steps + 1, '\x7b' :: rest =>
    match skip rest with
    | '\x7d' :: rest => some (.object [], rest)
    | rest => (fields? steps rest).map fun (fields, rest) => (.object fields, rest)
  | _ + 1, text => scalar? text

/-- The members of an array up to its closing bracket. -/
def items? : Nat → List Char → Option (List Json × List Char)
  | 0, _ => none
  | steps + 1, text => do
    let (item, rest) ← value? steps (skip text)
    match skip rest with
    | ',' :: rest => (items? steps rest).map fun (items, rest) => (item :: items, rest)
    | ']' :: rest => some ([item], rest)
    | _ => none

/-- The fields of an object up to its closing brace. -/
def fields? : Nat → List Char → Option (List (String × Json) × List Char)
  | 0, _ => none
  | steps + 1, text => do
    let (key, rest) ← match skip text with
      | '"' :: rest => string? rest
      | _ => none
    let (item, rest) ← match skip rest with
      | ':' :: rest => value? steps (skip rest)
      | _ => none
    match skip rest with
    | ',' :: rest =>
      (fields? steps rest).map fun (fields, rest) => ((String.ofList key, item) :: fields, rest)
    | '\x7d' :: rest => some ([(String.ofList key, item)], rest)
    | _ => none

end

/-- The document that a text is, if it is one. Every second step takes a character. -/
def read? (text : String) : Option Json :=
  let chars := text.toList
  match value? (2 * chars.length + 1) (skip chars) with
  | some (document, rest) => if (skip rest).isEmpty then some document else none
  | none => none

end RhoScript.Json.Reader
