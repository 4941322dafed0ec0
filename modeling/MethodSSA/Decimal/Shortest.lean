/-!
# The fewest digits that read back

A float is read back from a decimal text as long as the decimal falls into the
float's **rounding interval**: the reals that are nearer to it than to its two
neighbours, with both ends when its mantissa is even. The decimals of at most
one digit past the position `10 ^ k` form the *grid* of exponent `k`; the
shortest text lies on the coarsest grid that meets the interval. On that grid
only the two points next to the float can be inside, and the nearer of them is
taken, the upper one when both are equally near.

All comparisons are between whole numbers.
-/

namespace MethodSSA

/-- A decimal number `digits * 10 ^ exponent`. -/
structure Decimal where
  /-- the significant digits, as one number -/
  digits : Nat
  /-- the position of the last digit -/
  exponent : Int
  deriving DecidableEq, Repr

namespace Decimal

/-- A decimal without an exponent: zeros fill the places up to the point, and a
point stands only before digits. -/
def positional (d : Decimal) : String :=
  let text := (Nat.toDigits 10 d.digits)
  if 0 ≤ d.exponent then
    String.ofList (text ++ List.replicate d.exponent.toNat '0')
  else
    let places := (-d.exponent).toNat
    if places < text.length then
      String.ofList (text.take (text.length - places) ++ '.' :: text.drop (text.length - places))
    else
      String.ofList ('0' :: '.' :: (List.replicate (places - text.length) '0' ++ text))

end Decimal

/-- The reals that round to one float, in units of `2 ^ exponent`. -/
structure RoundingInterval where
  /-- the lower end -/
  low : Nat
  /-- the float itself -/
  middle : Nat
  /-- the upper end -/
  high : Nat
  /-- whether the ends belong to the interval -/
  closed : Bool
  /-- the power of two that is the unit -/
  exponent : Int

namespace RoundingInterval

/-- Numerator of the unit, counted in `10 ^ k`. -/
def unitNum (i : RoundingInterval) (k : Int) : Nat :=
  Nat.pow 2 i.exponent.toNat * Nat.pow 10 (-k).toNat

/-- Denominator of the unit, counted in `10 ^ k`. -/
def unitDen (i : RoundingInterval) (k : Int) : Nat :=
  Nat.pow 2 (-i.exponent).toNat * Nat.pow 10 k.toNat

/-- Whether `d * 10 ^ k` lies in the interval. -/
def has (i : RoundingInterval) (k : Int) (d : Nat) : Bool :=
  let low := i.low * i.unitNum k
  let high := i.high * i.unitNum k
  let point := d * i.unitDen k
  if i.closed then low ≤ point && point ≤ high else low < point && point < high

/-- The point of the grid of exponent `k` that lies in the interval, the nearer
one to the float if there are two. -/
def onGrid? (i : RoundingInterval) (k : Int) : Option Nat :=
  let float := i.middle * i.unitNum k
  let below := float / i.unitDen k
  let above := below + 1
  if i.has k below then
    if i.has k above && (below + above) * i.unitDen k ≤ 2 * float then some above else some below
  else if i.has k above then some above
  else none

/-- The first hit on the grids of exponent `k`, `k - 1`, …, at most `count` of
them. -/
def firstHit (i : RoundingInterval) : Nat → Int → Decimal
  | 0, k => ⟨0, k⟩
  | count + 1, k =>
    match i.onGrid? k with
    | some d => ⟨d, k⟩
    | none => firstHit i count (k - 1)

/-- The shortest decimal in the interval. The search starts above the float and
ends at the latest on a grid finer than the interval is wide; no interval of a
64-bit float is narrower than `10 ^ (-324)`. -/
def shortest (i : RoundingInterval) : Decimal :=
  let whole := i.middle * i.unitNum 0 / i.unitDen 0
  let places := (Nat.toDigits 10 whole).length
  i.firstHit (places + 400) places

end RoundingInterval

end MethodSSA
