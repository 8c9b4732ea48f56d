import LateBinding.Number.Binary64

/-!
# Shortest decimal text of a number

A finite number is written with the fewest decimal digits that read back as the same number, and of
those with the ones nearest to it. The digits are written out positionally, without an exponent,
and a whole number has no decimal point.

The number is taken as an exact fraction, and so are the ends of the interval of all reals that
round to it. For one digit, two digits and so on, its two neighbours on the decimal grid with that
many digits are tried; the first grid with a neighbour in the interval wins.
-/

namespace LateBinding

/-- The reals that round to a number, all as multiples of one positive fraction `1 / den`. -/
structure RoundingInterval where
  value : Nat
  low : Nat
  high : Nat
  den : Nat
  /-- Whether the two ends round to the number as well. -/
  closed : Bool

namespace RoundingInterval

/-- The interval of the magnitude of a finite number other than zero. The gap below a power of two
is half as wide as the gap above it. -/
def of (x : Binary64) : RoundingInterval :=
  let mantissa := if x.exponent = 0 then x.fraction else (1 <<< 52) + x.fraction
  let power := if x.exponent = 0 then 1 else x.exponent
  let below := if x.fraction = 0 ∧ 1 < x.exponent then 1 else 2
  let scale := if 1077 ≤ power then 1 <<< (power - 1077) else 1
  { value := 4 * mantissa * scale
    low := (4 * mantissa - below) * scale
    high := (4 * mantissa + 2) * scale
    den := if 1077 ≤ power then 1 else 1 <<< (1077 - power)
    closed := mantissa % 2 = 0 }

def contains (interval : RoundingInterval) (num den : Nat) : Bool :=
  if interval.closed then
    interval.low * den ≤ num * interval.den && num * interval.den ≤ interval.high * den
  else interval.low * den < num * interval.den && num * interval.den < interval.high * den

end RoundingInterval

/-- A decimal number `digits * 10 ^ power`. -/
structure Decimal where
  digits : Nat
  power : Int
  deriving DecidableEq, Repr

namespace Decimal

def digitCount (n : Nat) : Nat := (Nat.toDigits 10 n).length

/-- The power of ten just above a positive fraction: the least `k` with `num / den < 10 ^ k`. -/
def magnitude (num den : Nat) : Int :=
  if den ≤ num then digitCount (num / den) else 1 - digitCount ((den - 1) / num)

def tenPower (power : Int) : Nat × Nat :=
  if 0 ≤ power then (Nat.pow 10 power.toNat, 1) else (1, Nat.pow 10 (-power).toNat)

/-- The neighbours of the number on the grid of multiples of `10 ^ power`, if in the interval; of
two, the nearer one, and the upper one if both are equally near. -/
def onGrid (interval : RoundingInterval) (power : Int) : Option Decimal :=
  let (up, down) := tenPower power
  let num := interval.value * down
  let den := interval.den * up
  let lower := num / den
  let fits (digits : Nat) : Bool := interval.contains (digits * up) down
  let upperIsNearer : Bool := den ≤ 2 * (num % den)
  match fits lower, fits (lower + 1) with
  | true, true => some ⟨if upperIsNearer then lower + 1 else lower, power⟩
  | true, false => some ⟨lower, power⟩
  | false, true => some ⟨lower + 1, power⟩
  | false, false => none

/-- The number on the first of the grids with `count` digits and more that has one. Seventeen digits
are always enough. -/
def firstOnGrid (interval : RoundingInterval) (magnitude : Int) : Nat → Nat → Decimal
  | 0, _ => ⟨0, 0⟩
  | left + 1, count =>
    (onGrid interval (magnitude - count)).getD
      (firstOnGrid interval magnitude left (count + 1))

/-- The shortest decimal that rounds to the magnitude of a finite number other than zero. -/
def shortest (x : Binary64) : Decimal :=
  let interval := RoundingInterval.of x
  firstOnGrid interval (magnitude interval.value interval.den) 17 1

/-- The digits in place, with zeros where no digit stands, and a point only before a fraction. -/
def positional (decimal : Decimal) : String :=
  let digits := Nat.toDigits 10 decimal.digits
  if 0 ≤ decimal.power then
    String.ofList (digits ++ List.replicate decimal.power.toNat '0')
  else
    let places := (-decimal.power).toNat
    let padded := List.replicate (places + 1 - digits.length) '0' ++ digits
    let whole := padded.take (padded.length - places)
    let parts := (padded.drop (padded.length - places)).reverse.dropWhile (· = '0')
    String.ofList (if parts = [] then whole else whole ++ '.' :: parts.reverse)

end Decimal

def Binary64.text (x : Binary64) : String :=
  if x.isNaN then "NaN"
  else
    let sign := if x.isNegative then "-" else ""
    if x.isInfinite then sign ++ "inf"
    else if x.isZero then sign ++ "0"
    else sign ++ (Decimal.shortest x).positional

end LateBinding
