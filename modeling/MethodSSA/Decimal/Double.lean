import MethodSSA.Decimal.Shortest

/-!
# Floats of 64 bits and their text

A float constant is kept as its 64 bits, so that two constants are equal exactly
when they are the same number, sign of zero included. Its text has the fewest
digits that read back and never an exponent.
-/

namespace MethodSSA

/-- A float of 64 bits in the binary interchange format. -/
structure Double where
  /-- sign, biased exponent and fraction -/
  bits : UInt64
  deriving DecidableEq, Repr

namespace Double

/-- Positive zero. -/
def zero : Double := ⟨0⟩

/-- Whether the sign bit is set. -/
def isNegative (x : Double) : Bool := Nat.pow 2 63 ≤ x.bits.toNat

/-- The biased exponent. -/
def biased (x : Double) : Nat := x.bits.toNat / Nat.pow 2 52 % Nat.pow 2 11

/-- The bits after the leading one. -/
def fraction (x : Double) : Nat := x.bits.toNat % Nat.pow 2 52

/-- The reals whose nearest float is the magnitude of `x`. Above a power of two
the floats lie twice as far apart as below it, so there the lower half of the
interval is half as wide. -/
def interval (x : Double) : RoundingInterval :=
  let subnormal := x.biased == 0
  let mantissa := if subnormal then x.fraction else Nat.pow 2 52 + x.fraction
  let atPower := x.fraction == 0 && 1 < x.biased
  { low := 4 * mantissa - (if atPower then 1 else 2)
    middle := 4 * mantissa
    high := 4 * mantissa + 2
    closed := mantissa % 2 == 0
    exponent := (if subnormal then 1 else (x.biased : Int)) - 1077 }

/-- The text of the magnitude. -/
def magnitudeText (x : Double) : String :=
  if x.biased = 0 ∧ x.fraction = 0 then "0"
  else if x.biased = 2047 then "inf"
  else x.interval.shortest.positional

/-- The text of a float: its sign unless it is no number, and its magnitude. -/
def text (x : Double) : String :=
  if x.biased = 2047 ∧ x.fraction ≠ 0 then "NaN"
  else if x.isNegative then "-" ++ x.magnitudeText
  else x.magnitudeText

end Double

end MethodSSA
