import Deliberation.Double.Decimal

/-!
# Remainder of double-precision numbers

The remainder is exact: both numbers are whole multiples of one power of two,
and so is what is left. It takes the sign of the dividend first and is then
lifted by the size of the divisor when it is negative.
-/

namespace Deliberation.Double

set_option autoImplicit false

/-- The magnitude of `units * 2 ^ exponent`, for a value that has an encoding. -/
def magnitudeOf (units : Nat) (exponent : Int) : Nat :=
  if units = 0 then 0
  else
    let top := Int.ofNat units.log2 + exponent
    if top < -1022 then units <<< (exponent + 1074).toNat
    else
      let significand :=
        if units.log2 ≤ 52 then units <<< (52 - units.log2) else units >>> (units.log2 - 52)
      (top + 1022).toNat * hiddenBit + significand

def remainderMagnitude (dividend divisor : Nat) : Nat :=
  let exponent := min (binaryExponent dividend) (binaryExponent divisor)
  let units (magnitude : Nat) : Nat :=
    significand magnitude <<< (binaryExponent magnitude - exponent).toNat
  magnitudeOf (units dividend % units divisor) exponent

/-- The remainder with the sign of the dividend. -/
def truncatedRemainder (dividend divisor : Float) : Float :=
  if isNaN dividend || isNaN divisor || isInfinite dividend || isZero divisor then
    Float.ofBits (UInt64.ofNat (infinityMagnitude + hiddenBit / 2))
  else if isInfinite divisor then dividend
  else
    let left := remainderMagnitude (magnitude dividend) (magnitude divisor)
    Float.ofBits (UInt64.ofNat (if isNegative dividend then signPlace + left else left))

def euclideanRemainder (dividend divisor : Float) : Float :=
  let left := truncatedRemainder dividend divisor
  if rank left < rank 0 then left + absolute divisor else left

end Deliberation.Double
