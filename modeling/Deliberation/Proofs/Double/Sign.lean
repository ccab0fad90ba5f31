import Deliberation.Double.Order
import Mathlib

/-!
# Arithmetic without a sign

A number without the sign bit is a zero, a positive number, infinity or the NaN; sums and
quotients of such numbers are again among them, whatever is rounded or overflows on the
way. The two zeros differ as addends: the negative one changes no number, the positive one
no number but the negative zero.

The laws of packing that are used here come with the whole of Mathlib and with no single
module of it.
-/

namespace Deliberation.Double

set_option autoImplicit false

open Float.Model
open UnpackedFloat (pack_unpack_of_valid packComponents unpackSign unpackSign_packComponents)

inductive Unsigned : UnpackedFloat → Prop where
  | notANumber : Unsigned .notANumber
  | infinity : Unsigned (.infinity .positive)
  | zero : Unsigned (.zero .positive)
  | finite {mantissa : Nat} {exponent : Int} (positive : 0 < mantissa) :
      Unsigned (.finite .positive mantissa exponent positive)

namespace Unsigned

variable {format : Format}

theorem round (mantissa : Nat) (exponent : Int) (accuracy : UnpackedFloat.Accuracy) :
    Unsigned (.roundWithAccuracy format .positive mantissa exponent accuracy) := by
  rw [UnpackedFloat.roundWithAccuracy]
  dsimp only
  split
  next => exact .zero
  next => exact .finite _

theorem normalize (mantissa : Nat) (exponent : Int) :
    Unsigned (.normalize format mantissa exponent .positive) := by
  rw [UnpackedFloat.normalize]
  split
  next below => exact absurd (Int.compare_eq_lt.mp below) (by omega)
  next => exact .zero
  next => exact round ..

section Operations

variable {left right : UnpackedFloat} (leftUnsigned : Unsigned left)
  (rightUnsigned : Unsigned right)

include leftUnsigned rightUnsigned

theorem add : Unsigned (left.add format right) := by
  cases leftUnsigned with
  | finite =>
      cases rightUnsigned with
      | finite => exact normalize (_ + _) _
      | _ => constructor
  | _ => cases rightUnsigned <;> constructor

theorem mul : Unsigned (left.mul format right) := by
  cases leftUnsigned with
  | finite =>
      cases rightUnsigned with
      | finite => exact round ..
      | _ => constructor
  | _ => cases rightUnsigned <;> constructor

theorem div : Unsigned (left.div format right) := by
  cases leftUnsigned with
  | finite =>
      cases rightUnsigned with
      | finite => exact round ..
      | _ => constructor
  | _ => cases rightUnsigned <;> constructor

end Operations

theorem scientific (mantissa : Nat) (exponent : Int) :
    Unsigned (.ofScientific format mantissa exponent) := by
  rw [UnpackedFloat.ofScientific]
  split_ifs
  · exact .zero
  · exact .infinity
  · exact .zero
  · exact mul (.finite _) (.finite _)
  · exact div (.finite _) (.finite _)

theorem unpack {bits : BitVec format.numBits} (sign : unpackSign bits = 0) :
    Unsigned (.unpack format bits) := by
  rw [UnpackedFloat.unpack, sign]
  split_ifs
  · exact .infinity
  · exact .notANumber
  · exact .zero
  · exact .finite _
  · exact .finite _

theorem sign_pack {number : UnpackedFloat} (isUnsigned : Unsigned number) :
    unpackSign (number.pack format) = 0 := by
  have components : ∃ exponent mantissa,
      number.pack format = packComponents format .positive exponent mantissa := by
    cases isUnsigned with
    | notANumber => exact ⟨_, _, rfl⟩
    | infinity => exact ⟨_, _, rfl⟩
    | zero => exact ⟨_, _, rfl⟩
    | finite positive =>
        rw [UnpackedFloat.pack]
        split_ifs
        · exact ⟨_, _, rfl⟩
        · exact ⟨_, _, rfl⟩
        · exact ⟨_, _, rfl⟩
  obtain ⟨exponent, mantissa, packed⟩ := components
  rw [packed, unpackSign_packComponents]
  rfl

theorem add_zero {number : UnpackedFloat} (isUnsigned : Unsigned number) :
    number.add format (.zero .positive) = number := by
  cases isUnsigned <;> rfl

end Unsigned

def unsigned (number : Float) : Bool :=
  !isNegative number

theorem unsigned_iff_sign (number : Float) :
    unsigned number = true ↔
      @unpackSign .binary64 number.toBits.toBitVec = 0 := by
  have bounded := number.toBits.toNat_lt
  rw [unsigned, Bool.not_eq_true', isNegative, decide_eq_false_iff_not, signPlace,
    UnpackedFloat.unpackSign_def, ← BitVec.toNat_inj, BitVec.extractLsb'_toNat]
  change _ ↔ number.toBits.toNat >>> 63 % 2 = 0
  rw [Nat.shiftRight_eq_div_pow]
  omega

theorem unsigned_unpack {number : Float} (isUnsigned : unsigned number = true) :
    Unsigned number.toModel.unpack :=
  Unsigned.unpack ((unsigned_iff_sign number).mp isUnsigned)

theorem unsigned_pack {number : UnpackedFloat} (isUnsigned : Unsigned number) :
    unsigned ⟨pack number⟩ = true :=
  (unsigned_iff_sign ⟨pack number⟩).mpr isUnsigned.sign_pack

theorem pack_unpack (number : Float) : ⟨pack number.toModel.unpack⟩ = number := by
  rcases number with ⟨⟨bits, valid⟩⟩
  have packed := pack_unpack_of_valid valid
  simp only [pack, unpack, packed]

section Operations

variable {left right : Float} (leftUnsigned : unsigned left = true)
  (rightUnsigned : unsigned right = true)

include leftUnsigned rightUnsigned

theorem unsigned_add : unsigned (left + right) = true :=
  unsigned_pack ((unsigned_unpack leftUnsigned).add (unsigned_unpack rightUnsigned))

theorem unsigned_mul : unsigned (left * right) = true :=
  unsigned_pack ((unsigned_unpack leftUnsigned).mul (unsigned_unpack rightUnsigned))

theorem unsigned_div : unsigned (left / right) = true :=
  unsigned_pack ((unsigned_unpack leftUnsigned).div (unsigned_unpack rightUnsigned))

end Operations

/-- Small numbers are converted by a product with a power of ten, others by the model. -/
theorem unsigned_of_nat (number : Nat) : unsigned (Float.ofNat number) = true := by
  change unsigned (Float.ofScientific number false 0) = true
  rw [Float.ofScientific]
  split
  next =>
    have digits : unsigned number.toUInt64.toFloat = true :=
      unsigned_pack (Unsigned.normalize number.toUInt64.toNat 0)
    have power : unsigned (Float.ofBits 0x3FF0000000000000) = true := by decide +kernel
    exact unsigned_mul digits power
  next => exact unsigned_pack (Unsigned.scientific ..)

theorem unpacked_add_comm {format : Format} (left right : UnpackedFloat) :
    left.add format right = right.add format left := by
  cases left with
  | notANumber => cases right <;> rfl
  | infinity sign =>
      cases right with
      | infinity other => cases sign <;> cases other <;> rfl
      | _ => rfl
  | zero sign =>
      cases right with
      | zero other => cases sign <;> cases other <;> rfl
      | _ => rfl
  | finite sign mantissa exponent _ =>
      cases right with
      | finite other otherMantissa otherExponent _ =>
          simp only [UnpackedFloat.add, Int.min_comm otherExponent, Int.add_comm (other.apply _)]
      | _ => rfl

theorem add_comm (left right : Float) : left + right = right + left :=
  congrArg (fun sum => Float.ofModel (pack sum)) (unpacked_add_comm ..)

theorem add_negative_zero (number : Float) : number + (-0.0) = number := by
  have unchanged : number.toModel.unpack.add .binary64 (.zero .negative) =
      number.toModel.unpack := by
    cases number.toModel.unpack with
    | zero sign => cases sign <;> rfl
    | _ => rfl
  calc
    number + (-0.0) = ⟨pack (number.toModel.unpack.add .binary64 (.zero .negative))⟩ := rfl
    _ = number := by rw [unchanged, pack_unpack]

theorem add_zero {number : Float} (isUnsigned : unsigned number = true) :
    number + 0 = number :=
  calc
    number + 0 = ⟨pack (number.toModel.unpack.add .binary64 (.zero .positive))⟩ := rfl
    _ = number := by rw [(unsigned_unpack isUnsigned).add_zero, pack_unpack]

end Deliberation.Double
