/-!
# Numerals in base sixteen

Escapes name characters by numerals in base sixteen. Only ASCII digits and letters count, in either
case; numerals are written with small letters.
-/

namespace RhoScript.Text

/-- The digits of a number in base sixteen, padded with zeros to the given width. -/
def hex (width n : Nat) : List Char :=
  let digits := Nat.toDigits 16 n
  List.replicate (width - digits.length) '0' ++ digits

/-- The value of a digit in base sixteen. -/
def hexDigit? (c : Char) : Option Nat :=
  if c.isDigit then some (c.toNat - 48)
  else if 'a' ≤ c ∧ c ≤ 'f' then some (c.toNat - 87)
  else if 'A' ≤ c ∧ c ≤ 'F' then some (c.toNat - 55)
  else none

/-- The number that digits in base sixteen denote, after those that gave `n`. -/
def hexValue? (n : Nat) : List Char → Option Nat
  | [] => some n
  | c :: rest => match hexDigit? c with
    | some d => hexValue? (16 * n + d) rest
    | none => none

/-! ### Surrogates -/

/-- The first half of a pair of 16-bit units. -/
def isHighSurrogate (n : Nat) : Bool := 0xd800 ≤ n && n < 0xdc00

/-- The second half of a pair of 16-bit units. -/
def isLowSurrogate (n : Nat) : Bool := 0xdc00 ≤ n && n < 0xe000

/-- The code point that a pair of 16-bit units stands for. -/
def joinSurrogates (high low : Nat) : Nat := 0x10000 + (high - 0xd800) * 0x400 + (low - 0xdc00)

end RhoScript.Text
