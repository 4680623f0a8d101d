/-!
# Binary floating-point numbers of 64 bits

A double is a sign and a magnitude. The non-negative doubles stand in increasing order, and the
magnitude is a number's place in that order, which is also the value of its 63 lower bits. Zero is
at place 0, infinity at `Double.infinitePlace`, and the places beyond infinity are no numbers.

All arithmetic here is exact, on natural numbers: a double stands for the quotient
`Double.ratio`, and `Double.ofRatio` rounds a quotient to the nearest double, a tie to the even
one of its two neighbours.
-/

namespace RhoScript.Number

/-- The quotient of two natural numbers, rounded to nearest, a tie to the even neighbour. -/
def divNearest (num den : Nat) : Nat :=
  let whole := num / den
  let twice := 2 * (num % den)
  if twice < den then whole
  else if den < twice then whole + 1
  else if whole % 2 = 0 then whole else whole + 1

/-- A sign and a place in the order of non-negative doubles. -/
structure Double where
  /-- The sign, which zero has too. -/
  negative : Bool
  /-- How many non-negative doubles are smaller in absolute value. -/
  magnitude : Nat
deriving DecidableEq, Repr, Inhabited

namespace Double

/-- The place of infinity: after 2047 binades of `2 ^ 52` numbers each. -/
def infinitePlace : Nat := 2047 * Nat.pow 2 52

/-- A number, and not infinite. -/
def isFinite (x : Double) : Bool := x.magnitude < infinitePlace

/-- Neither a number nor infinite. -/
def isNaN (x : Double) : Bool := infinitePlace < x.magnitude

/-- One of the two zeros. -/
def isZero (x : Double) : Bool := x.magnitude = 0

/-- The infinity of that sign. -/
def infinity (negative : Bool) : Double := ⟨negative, infinitePlace⟩

/-- The one double of this library that is not a number. -/
def nan : Double := ⟨false, infinitePlace + Nat.pow 2 51⟩

/-- The integer `m` of the form `m * 2 ^ e` in which the absolute value is written. -/
def significand (x : Double) : Nat :=
  if x.magnitude < Nat.pow 2 52 then x.magnitude
  else x.magnitude % Nat.pow 2 52 + Nat.pow 2 52

/-- The exponent `e` of the form `m * 2 ^ e` in which the absolute value is written. -/
def exponent (x : Double) : Int :=
  if x.magnitude < Nat.pow 2 52 then -1074 else (x.magnitude / Nat.pow 2 52 : Nat) - 1075

/-- The quotient `num / den * 2 ^ e` as a numerator and a denominator. -/
def scale (num den : Nat) (e : Int) : Nat × Nat :=
  if 0 ≤ e then (num * Nat.pow 2 e.toNat, den) else (num, den * Nat.pow 2 (-e).toNat)

/-- The absolute value of a finite double as a quotient. -/
def ratio (x : Double) : Nat × Nat := scale x.significand 1 x.exponent

/-- The greatest `e` such that `2 ^ e` is at most the positive quotient. -/
def floorLog2 (num den : Nat) : Int :=
  let guess : Int := (num.log2 : Int) - den.log2
  let (n, d) := scale num den (-guess)
  if d ≤ n then guess else guess - 1

/-- The double nearest to a quotient, of the given sign. What lies half a step or more beyond the
largest finite double becomes infinite. -/
def ofRatio (negative : Bool) (num den : Nat) : Double :=
  if num = 0 then ⟨negative, 0⟩
  else
    let e := max (floorLog2 num den - 52) (-1074)
    let (n, d) := scale num den (-e)
    ⟨negative, min ((e + 1074).toNat * Nat.pow 2 52 + divNearest n d) infinitePlace⟩

/-- The double nearest to an integer. -/
def ofInt (n : Int) : Double := ofRatio (n < 0) n.natAbs 1

/-- The double nearest to `digits * 10 ^ e`. A number of at most `10 ^ -330` is rounded to zero and
one of at least `10 ^ 310` to infinity without computing the power. -/
def ofDecimal (negative : Bool) (digits : Nat) (e : Int) : Double :=
  let top := e + (Nat.toDigits 10 digits).length
  if digits = 0 ∨ top ≤ -330 then ⟨negative, 0⟩
  else if 310 < top then infinity negative
  else if 0 ≤ e then ofRatio negative (digits * Nat.pow 10 e.toNat) 1
  else ofRatio negative digits (Nat.pow 10 (-e).toNat)

/-- The double of a 64-bit pattern. -/
def ofBits (bits : UInt64) : Double :=
  ⟨Nat.pow 2 63 ≤ bits.toNat, bits.toNat % Nat.pow 2 63⟩

/-- The 64-bit pattern of a double. -/
def toBits (x : Double) : UInt64 :=
  UInt64.ofNat (x.magnitude % Nat.pow 2 63 + if x.negative then Nat.pow 2 63 else 0)

/-- The integer that a double is, if it is one. -/
def toInt? (x : Double) : Option Int :=
  if x.isFinite then
    let (n, d) := x.ratio
    if n % d = 0 then some (if x.negative then -(n / d : Nat) else (n / d : Nat)) else none
  else none

/-- Equality of the numbers that two doubles stand for: the zeros are equal, and what is not a
number equals nothing. -/
def sameNumber (x y : Double) : Bool :=
  !x.isNaN && !y.isNaN && x.magnitude = y.magnitude && (x.negative = y.negative || x.isZero)

end Double

end RhoScript.Number
