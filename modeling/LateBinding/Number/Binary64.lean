/-!
# Floating-point numbers

A number of the binary64 format, held as its 64 bits: a sign, eleven bits of exponent and 52 bits of
fraction. Keeping the bits tells all values apart, the payloads of NaN and the two zeros included;
`equals` is the comparison of the format, which does not.
-/

namespace LateBinding

structure Binary64 where
  bits : UInt64
  deriving DecidableEq, Repr, Inhabited

namespace Binary64

def isNegative (x : Binary64) : Bool := x.bits >>> 63 == 1

def exponent (x : Binary64) : Nat := ((x.bits >>> 52) &&& 0x7FF).toNat

def fraction (x : Binary64) : Nat := (x.bits &&& 0xFFFFFFFFFFFFF).toNat

def isNaN (x : Binary64) : Bool := x.exponent == 0x7FF && x.fraction != 0

def isInfinite (x : Binary64) : Bool := x.exponent == 0x7FF && x.fraction == 0

def isZero (x : Binary64) : Bool := x.exponent == 0 && x.fraction == 0

/-- Equality of numbers: NaN equals nothing, the two zeros equal each other. -/
def equals (x y : Binary64) : Bool :=
  !x.isNaN && !y.isNaN && (x.bits == y.bits || (x.isZero && y.isZero))

/-- A positive number below `2 ^ 64`, rounded to 53 bits; a half goes to the even neighbour. A sum
that carries out of the fraction raises the exponent, as it should. -/
def roundedBits (n : Nat) : Nat :=
  let top := n.log2
  if top ≤ 52 then ((top + 1023) <<< 52) + (n <<< (52 - top) - 1 <<< 52)
  else
    let cut := top - 52
    let kept := n >>> cut
    let rest := n % (1 <<< cut)
    let half := 1 <<< (cut - 1)
    let up := half < rest || (rest == half && kept % 2 == 1)
    ((top + 1023) <<< 52) + (kept - 1 <<< 52) + (if up then 1 else 0)

/-- The nearest number to an integer. -/
def ofInt (n : Int64) : Binary64 :=
  let magnitude := n.toInt.natAbs
  if magnitude = 0 then ⟨0⟩
  else ⟨UInt64.ofNat (roundedBits magnitude + if n < 0 then 1 <<< 63 else 0)⟩

end Binary64

end LateBinding
