/-!
# Order of double-precision numbers

`rank` reads the place of a number off its encoding: the magnitude with its
sign, both zeros at 0 and every NaN above infinity. Equality and order of
stored values and degrees are those of `rank`; `compare?` is the partial order
of arithmetic, in which a NaN has no place.
-/

namespace Deliberation.Double

set_option autoImplicit false

/-- The sign is the highest of 64 bits. -/
def signPlace : Nat := 0x8000000000000000

/-- The magnitude of infinity; all greater magnitudes encode NaN. -/
def infinityMagnitude : Nat := 0x7FF0000000000000

def magnitude (number : Float) : Nat :=
  number.toBits.toNat % signPlace

def isNegative (number : Float) : Bool :=
  decide (signPlace ≤ number.toBits.toNat)

def isNaN (number : Float) : Bool :=
  decide (infinityMagnitude < magnitude number)

def isInfinite (number : Float) : Bool :=
  decide (magnitude number = infinityMagnitude)

def isZero (number : Float) : Bool :=
  decide (magnitude number = 0)

def rank (number : Float) : Int :=
  if isNaN number then Int.ofNat infinityMagnitude + 1
  else if isNegative number then -Int.ofNat (magnitude number)
  else Int.ofNat (magnitude number)

def same (left right : Float) : Bool :=
  decide (rank left = rank right)

def compare? (left right : Float) : Option Ordering :=
  if isNaN left || isNaN right then none
  else some (compare (rank left) (rank right))

/-- The later of two equals wins. -/
def highest (left right : Float) : Float :=
  if rank right < rank left then left else right

/-- The earlier of two equals wins. -/
def lowest (left right : Float) : Float :=
  if rank right < rank left then right else left

/-- NaN lies on neither side of a bound and stays. -/
def clampUnit (number : Float) : Float :=
  if isNaN number then number
  else if rank number < rank 0 then 0
  else if rank 1 < rank number then 1
  else number

def absolute (number : Float) : Float :=
  Float.ofBits (UInt64.ofNat (magnitude number))

end Deliberation.Double
