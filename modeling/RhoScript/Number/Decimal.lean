import RhoScript.Number.Double

/-!
# Decimal texts of doubles

A finite double is written with the fewest significant digits that read back as the same double;
of several such numerals the nearest is taken, and a tie goes to the even last digit. How those
digits are laid out (where the point stands, when an exponent is written) is the business of a
`NumeralStyle`.
-/

namespace RhoScript.Number

/-- A positive decimal number `digits * 10 ^ exponent`. -/
structure Decimal where
  /-- The significant digits, as a number. -/
  digits : Nat
  /-- The power of ten that the last digit counts. -/
  exponent : Int
deriving DecidableEq, Repr, Inhabited

namespace Decimal

/-- The greatest `e` such that `10 ^ e` is at most the positive quotient. -/
def floorLog10 (num den : Nat) : Int :=
  if den ≤ num then (Nat.toDigits 10 (num / den)).length - 1
  else
    let l := (Nat.toDigits 10 (den / num)).length
    if den ≤ num * Nat.pow 10 (l - 1) then 1 - (l : Int) else -l

/-- The two multiples of `10 ^ e` around a quotient, the nearer first. -/
def neighbours (num den : Nat) (e : Int) : Nat × Nat :=
  let (n, d) :=
    if 0 ≤ e then (num, den * Nat.pow 10 e.toNat) else (num * Nat.pow 10 (-e).toNat, den)
  let low := n / d
  let near := divNearest n d
  (near, if near = low then low + 1 else low)

/-- Without the zeros at the end. -/
def strip : Nat → Nat → Int → Decimal
  | 0, digits, e => ⟨digits, e⟩
  | fuel + 1, digits, e =>
    if digits % 10 = 0 then strip fuel (digits / 10) (e + 1) else ⟨digits, e⟩

/-- The first numeral that reads back, among those with `17 - left` digits or more. With seventeen
digits the nearest numeral always does. -/
def search (x : Double) (num den : Nat) (top : Int) : Nat → Decimal
  | 0 =>
    let e := top - 16
    strip 17 (neighbours num den e).1 e
  | left + 1 =>
    let e := top - (15 - left : Nat)
    let (near, far) := neighbours num den e
    let readsBack := fun digits => (Double.ofDecimal x.negative digits e).magnitude = x.magnitude
    if readsBack near then strip 17 near e
    else if readsBack far then strip 17 far e
    else search x num den top left

/-- The shortest decimal number that reads back as the given finite double other than zero. -/
def shortest (x : Double) : Decimal :=
  let (num, den) := x.ratio
  search x num den (floorLog10 num den) 16

end Decimal

/-- Where a style of writing numbers puts the point and the exponent. -/
structure NumeralStyle where
  /-- Positional notation is used while the point stands right of this place. -/
  low : Int
  /-- The last place of the point with positional notation. -/
  high : Int
  /-- What follows the digits of a whole number. -/
  wholeEnd : String
  /-- The least number of digits of an exponent. -/
  exponentWidth : Nat
deriving Repr

namespace NumeralStyle

/-- The text of a decimal number. The place of the point counts from the left of the digits. -/
def write (style : NumeralStyle) (x : Decimal) : String :=
  let digits := Nat.toDigits 10 x.digits
  let point := x.exponent + digits.length
  let zeros (n : Int) := List.replicate n.toNat '0'
  if digits.length ≤ point ∧ point ≤ style.high then
    String.ofList (digits ++ zeros (point - digits.length)) ++ style.wholeEnd
  else if 0 < point ∧ point ≤ style.high then
    String.ofList (digits.take point.toNat ++ '.' :: digits.drop point.toNat)
  else if style.low < point ∧ point ≤ 0 then
    String.ofList ('0' :: '.' :: zeros (-point) ++ digits)
  else
    let fraction := if digits.length = 1 then [] else '.' :: digits.drop 1
    let e := point - 1
    let power := Nat.toDigits 10 e.natAbs
    let padding := List.replicate (style.exponentWidth - power.length) '0'
    String.ofList (digits.take 1 ++ fraction ++
      'e' :: (if 0 ≤ e then '+' else '-') :: padding ++ power)

end NumeralStyle

end RhoScript.Number
