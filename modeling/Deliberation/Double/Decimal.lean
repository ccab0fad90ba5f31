import Deliberation.Double.Order

/-!
# Decimal text of double-precision numbers

A finite number is written with the fewest digits that read back as the same
number, in positional notation at every size. Grids of powers of ten are tried
from the coarsest down; the first one with a point among the reals that round
to the number has the fewest digits. A tie between two points of that grid goes
away from zero.
-/

namespace Deliberation.Double

set_option autoImplicit false

/-- The reals that round to a positive number, in units of `2 ^ exponent`.
The ends belong to them when `closed` holds. -/
structure Interval where
  lower : Nat
  centre : Nat
  upper : Nat
  exponent : Int
  closed : Bool
  deriving DecidableEq

/-- The place of the leading bit that the encoding of a normal number leaves
out, 2 to the power 52. -/
def hiddenBit : Nat := 0x10000000000000

/-- The encoding of a positive finite number as `significand * 2 ^ exponent`. -/
def significand (magnitude : Nat) : Nat :=
  if magnitude < hiddenBit then magnitude else magnitude % hiddenBit + hiddenBit

def binaryExponent (magnitude : Nat) : Int :=
  if magnitude < hiddenBit then -1074 else Int.ofNat (magnitude / hiddenBit) - 1075

/-- The gap below a power of two is half the gap above it. -/
def roundingInterval (magnitude : Nat) : Interval :=
  let significand := significand magnitude
  let atPower := decide (magnitude % hiddenBit = 0 ∧ 2 * hiddenBit ≤ magnitude)
  { lower := 4 * significand - (if atPower then 1 else 2)
    centre := 4 * significand
    upper := 4 * significand + 2
    exponent := binaryExponent magnitude - 2
    closed := significand % 2 == 0 }

/-- A power with a whole exponent, 1 where the exponent is negative. -/
def scaleUp (base : Nat) (exponent : Int) : Nat :=
  Nat.pow base exponent.toNat

/-- A point of the grid of step `10 ^ exponent` inside the interval, the nearer
one to the centre where there are two. -/
def gridPoint? (interval : Interval) (exponent : Int) : Option Nat :=
  let factor := scaleUp 2 interval.exponent * scaleUp 10 (-exponent)
  let step := scaleUp 2 (-interval.exponent) * scaleUp 10 exponent
  let inside (point : Nat) : Bool :=
    if interval.closed then
      decide (interval.lower * factor ≤ point * step ∧ point * step ≤ interval.upper * factor)
    else
      decide (interval.lower * factor < point * step ∧ point * step < interval.upper * factor)
  let below := interval.centre * factor / step
  let lowerGap := interval.centre * factor - below * step
  let upperGap := (below + 1) * step - interval.centre * factor
  if inside below && (!inside (below + 1) || decide (lowerGap < upperGap)) then some below
  else if inside (below + 1) then some (below + 1)
  else none

/-- The least exponent of a grid that any number needs. -/
def finestExponent : Int := -324

/-- Tries the grids `finestExponent + remaining`, …, `finestExponent`. -/
def coarsestPoint (interval : Interval) : Nat → Nat × Int
  | 0 => ((gridPoint? interval finestExponent).getD 0, finestExponent)
  | remaining + 1 =>
      let exponent := finestExponent + Int.ofNat (remaining + 1)
      match gridPoint? interval exponent with
      | some point => (point, exponent)
      | none => coarsestPoint interval remaining

/-- No number reaches `10 ^ 309`. -/
def shortestDigits (magnitude : Nat) : Nat × Int :=
  coarsestPoint (roundingInterval magnitude) 633

/-- The digits of `point * 10 ^ exponent` without an exponent mark. -/
def positional (point : Nat) (exponent : Int) : List Char :=
  let digits := Nat.toDigits 10 point
  if 0 ≤ exponent then digits ++ List.replicate exponent.toNat '0'
  else
    let places := (-exponent).toNat
    if places < digits.length then
      digits.take (digits.length - places) ++ '.' :: digits.drop (digits.length - places)
    else '0' :: '.' :: List.replicate (places - digits.length) '0' ++ digits

def magnitudeText (magnitude : Nat) : String :=
  if magnitude = 0 then "0"
  else if magnitude = infinityMagnitude then "inf"
  else
    let (point, exponent) := shortestDigits magnitude
    String.ofList (positional point exponent)

def text (number : Float) : String :=
  if isNaN number then "NaN"
  else if isNegative number then "-" ++ magnitudeText (magnitude number)
  else magnitudeText (magnitude number)

end Deliberation.Double
