import Deliberation.Double.Order

/-!
# Reading double-precision numbers

A decimal literal has perhaps a sign, digits, perhaps a point among them, and
perhaps an exponent after an `e`. It is read as the nearest number; too large a literal is
infinite, too small a one is the zero of its sign.
-/

namespace Deliberation.Double

set_option autoImplicit false

def digitsValue? (digits : List Char) : Option Nat :=
  if digits.isEmpty || !digits.all Char.isDigit then none
  else some (digits.foldl (fun number digit => 10 * number + (digit.toNat - '0'.toNat)) 0)

def isExponentMark (character : Char) : Bool :=
  character == 'e' || character == 'E'

def exponentValue? : List Char → Option Int
  | [] => some 0
  | _ :: '-' :: digits => (digitsValue? digits).map fun number => -Int.ofNat number
  | _ :: '+' :: digits => (digitsValue? digits).map Int.ofNat
  | _ :: digits => (digitsValue? digits).map Int.ofNat

def ofDecimal (significand : Nat) (exponent : Int) : Float :=
  if significand = 0 then 0
  else Float.ofScientific significand (decide (exponent < 0)) exponent.natAbs

def magnitudeOfText? (text : List Char) : Option Float :=
  let mantissa := text.takeWhile fun character => !isExponentMark character
  let whole := mantissa.takeWhile (· != '.')
  let fraction := (mantissa.dropWhile (· != '.')).drop 1
  match digitsValue? (whole ++ fraction),
      exponentValue? (text.dropWhile fun character => !isExponentMark character) with
  | some significand, some exponent =>
      some (ofDecimal significand (exponent - Int.ofNat fraction.length))
  | _, _ => none

def infinity : Float := Float.ofBits (UInt64.ofNat infinityMagnitude)

def ofText? (text : String) : Option Float :=
  if text = "NaN" then some (infinity - infinity)
  else if text = "inf" then some infinity
  else if text = "-inf" then some (-infinity)
  else
    match text.toList with
    | '-' :: rest => (magnitudeOfText? rest).map fun number => -number
    | '+' :: rest => magnitudeOfText? rest
    | rest => magnitudeOfText? rest

end Deliberation.Double
