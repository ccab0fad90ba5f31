import Deliberation.Proofs.Aggregation
import Deliberation.Proofs.Double.Widening

/-!
# What a number leaves of one

A number above zero and up to one is a count of units of which a power of two makes one, so
what it leaves of one is a whole number of them as well. Rounding that to 53 bits may reach
one but does not pass it. A NaN leaves a NaN.
-/

namespace Deliberation.Double

set_option autoImplicit false

open Float.Model
open UnpackedFloat (unpackExponent unpackMantissa unpackSign)

section Parts

variable (number : Float)

def signPart : UnpackedFloat.Sign :=
  .ofBitVec (@unpackSign .binary64 number.toBits.toBitVec)

/-- The exponent as it is encoded; the least one is that of numbers without a leading bit. -/
def exponentPart : Nat :=
  number.toBits.toNat / 2 ^ 52 % 2 ^ 11

/-- The mantissa as it is encoded, without its leading bit. -/
def mantissaPart : Nat :=
  number.toBits.toNat % 2 ^ 52

theorem unpack_exponent_eq :
    (@unpackExponent .binary64 number.toBits.toBitVec).toNat = exponentPart number := by
  rw [UnpackedFloat.unpackExponent_def, BitVec.extractLsb'_toNat, Nat.shiftRight_eq_div_pow]
  rfl

theorem unpack_mantissa_eq :
    (@unpackMantissa .binary64 number.toBits.toBitVec).toNat = mantissaPart number := by
  rw [UnpackedFloat.unpackMantissa_def, BitVec.extractLsb'_toNat, Nat.shiftRight_zero]
  rfl

variable {number}

theorem unpack_cases (notFull : exponentPart number < 2047) :
    (exponentPart number = 0 ∧ mantissaPart number = 0 ∧
        number.toModel.unpack = .zero (signPart number)) ∨
      (exponentPart number = 0 ∧ ∃ positive : 0 < mantissaPart number,
        number.toModel.unpack =
          .finite (signPart number) (mantissaPart number) (-1074) positive) ∨
      (0 < exponentPart number ∧ ∃ positive : 0 < 2 ^ 52 + mantissaPart number,
        number.toModel.unpack =
          .finite (signPart number) (2 ^ 52 + mantissaPart number) (exponentPart number - 1075)
            positive) := by
  have exponent := unpack_exponent_eq number
  have mantissa := unpack_mantissa_eq number
  have unpacked : number.toModel.unpack =
    UnpackedFloat.unpack .binary64 number.toBits.toBitVec := rfl
  have finite : @unpackExponent .binary64 number.toBits.toBitVec ≠ -1#11 := by
    intro full
    rw [full] at exponent
    change 2047 = _ at exponent
    omega
  rw [UnpackedFloat.unpack, if_neg finite] at unpacked
  split at unpacked
  next least =>
    rw [least] at exponent
    split at unpacked
    next none =>
      rw [none] at mantissa
      exact .inl ⟨exponent.symm, mantissa.symm, unpacked⟩
    next notZero =>
      have positive : 0 < mantissaPart number := by
        rw [← mantissa]
        exact Nat.pos_of_ne_zero fun none => notZero (BitVec.eq_of_toNat_eq none)
      refine .inr (.inl ⟨exponent.symm, positive, unpacked.trans ?_⟩)
      simp only [least, mantissa]
      rfl
  next higher =>
    have positive : 0 < exponentPart number := by
      rw [← exponent]
      exact Nat.pos_of_ne_zero fun none => higher (BitVec.eq_of_toNat_eq none)
    have leading : (1#1 ++ @unpackMantissa .binary64 number.toBits.toBitVec).toNat =
        2 ^ 52 + mantissaPart number := by
      rw [BitVec.toNat_append, ← Nat.shiftLeft_add_eq_or_of_lt (BitVec.isLt _), mantissa]
      rfl
    refine .inr (.inr ⟨positive, by omega, unpacked.trans ?_⟩)
    simp only [leading, exponent]
    rfl

theorem unpack_nan (nan : isNaN number = true) : number.toModel.unpack = .notANumber := by
  have exponent := unpack_exponent_eq number
  have mantissa := unpack_mantissa_eq number
  rw [isNaN, decide_eq_true_iff, magnitude, signPlace, infinityMagnitude] at nan
  rw [exponentPart] at exponent
  rw [mantissaPart] at mantissa
  have full : @unpackExponent .binary64 number.toBits.toBitVec = -1#11 := by
    apply BitVec.eq_of_toNat_eq
    change _ = 2047
    omega
  have notZero : @unpackMantissa .binary64 number.toBits.toBitVec ≠ 0#52 := by
    intro none
    rw [none] at mantissa
    change 0 = _ at mantissa
    omega
  change UnpackedFloat.unpack .binary64 number.toBits.toBitVec = _
  rw [UnpackedFloat.unpack, if_pos full, if_neg notZero]

end Parts

/-- The numbers from 0 to 1. A NaN is ranked above them. -/
def InUnit (number : Float) : Prop :=
  rank 0 ≤ rank number ∧ rank number ≤ rank 1

theorem rank_one : rank 1 = 1023 * 2 ^ 52 := by decide +kernel

theorem in_unit_iff {number : Float} :
    InUnit number ↔ 0 ≤ rank number ∧ rank number ≤ 1023 * 2 ^ 52 := by
  rw [InUnit, rank_zero, rank_one]

theorem in_unit_zero : InUnit 0 := by
  rw [in_unit_iff, rank_zero]
  decide

theorem in_unit_one : InUnit 1 := by
  rw [in_unit_iff, rank_one]
  decide

theorem not_in_unit_nan {number : Float} (nan : isNaN number = true) : ¬InUnit number := by
  rw [in_unit_iff, rank, if_pos nan]
  decide

theorem at_most_one_of_fits {mantissa places : Nat} (fits : mantissa < 2 ^ 53)
    (wide : 53 ≤ places) : mantissa ≤ 2 ^ places :=
  fits.le.trans (Nat.pow_le_pow_right (by decide) wide)

/-- A number above zero and up to one, in units of which so many places of binary make one. -/
structure Fraction where
  mantissa : Nat
  places : Nat
  positive : 0 < mantissa
  fits : mantissa < 2 ^ 53
  wide : 52 ≤ places
  atMostOne : mantissa ≤ 2 ^ places

namespace Fraction

variable (fraction : Fraction)

def unpacked : UnpackedFloat :=
  .finite .positive fraction.mantissa (-fraction.places) fraction.positive

/-- What is left of one, in the same units. -/
def rest : Nat :=
  2 ^ fraction.places - fraction.mantissa

theorem one_sub_unpacked :
    UnpackedFloat.sub .binary64 (1 : Float).toModel.unpack fraction.unpacked =
      .normalize .binary64 fraction.rest (-fraction.places) .positive := by
  have one : (1 : Float).toModel.unpack = .finite .positive (2 ^ 52) (-52) (by decide) := rfl
  have wide := fraction.wide
  have smaller : min (-52 : Int) (-fraction.places) = -fraction.places := by omega
  have shifted : (-52 - -(fraction.places : Int)).toNat = fraction.places - 52 := by omega
  have whole : 2 ^ 52 <<< (fraction.places - 52) = 2 ^ fraction.places := by
    rw [Nat.shiftLeft_eq, ← Nat.pow_add, Nat.add_sub_cancel' wide]
  have exact : ((2 ^ fraction.places : Nat) : Int) - fraction.mantissa = fraction.rest :=
    (Int.ofNat_sub fraction.atMostOne).symm
  rw [one, unpacked]
  simp only [UnpackedFloat.sub, smaller, UnpackedFloat.decreaseExponent, shifted, whole,
    Int.sub_self, Int.toNat_zero, Nat.shiftLeft_zero, UnpackedFloat.Sign.apply, exact]

/-- What is left has its leading bit at most 53 places below one. -/
theorem log2_rest_bounds (below : 0 < fraction.rest) :
    fraction.rest.log2 < fraction.places ∧ fraction.places ≤ fraction.rest.log2 + 53 := by
  have positive := fraction.positive
  have fits := fraction.fits
  constructor
  · rw [Nat.log2_lt below.ne', rest]
    exact Nat.sub_lt (Nat.two_pow_pos _) positive
  · -- With fine units at least half of one is left, and coarse ones are few anyway.
    rcases Nat.lt_or_ge 53 fraction.places with far | near
    · have half : 2 ^ (fraction.places - 1) ≤ fraction.rest := by
        have doubled : 2 ^ fraction.places = 2 * 2 ^ (fraction.places - 1) := by
          rw [← Nat.pow_succ', Nat.succ_eq_add_one, Nat.sub_add_cancel (by omega)]
        have large : 2 ^ 53 ≤ 2 ^ (fraction.places - 1) :=
          Nat.pow_le_pow_right (by decide) (by omega)
        rw [rest, doubled]
        omega
      have leading := (Nat.le_log2 below.ne').mpr half
      omega
    · omega

end Fraction

/-- Rounded to 53 bits, what lies below one comes to one at most. -/
theorem round_below_one {units places : Nat} (positive : 0 < units)
    (below : units.log2 < places) (near : places ≤ units.log2 + 53) :
    ∃ normal : Normal,
      UnpackedFloat.round .binary64 .positive units (-places) = normal.unpacked .positive ∧
        normal.place ≤ 1023 * 2 ^ 52 := by
  have log2 := log2_shift positive.ne' (52 - units.log2)
  have bounds := @rounded_bounds (units * 2 ^ (52 - units.log2)) (by omega)
  obtain ⟨normal, rounded, place⟩ := @round_normal (units * 2 ^ (52 - units.log2))
    (-places - (52 - units.log2 : Nat)) .positive (by omega) (by omega) (by omega)
  refine ⟨normal, ?_, by omega⟩
  rw [round_lengthened .positive (by omega)]
  exact rounded

section Complement

variable {number : Float}

theorem unpack_of_rank_zero (level : rank number = 0) :
    number.toModel.unpack = .zero (signPart number) := by
  have noMagnitude : magnitude number = 0 := by
    rw [rank] at level
    split_ifs at level
    · exact absurd level (by decide)
    · exact Int.ofNat.inj (Int.neg_eq_zero.mp level)
    · exact Int.ofNat.inj level
  rw [magnitude, signPlace] at noMagnitude
  have noExponent : exponentPart number = 0 := by
    rw [exponentPart]
    omega
  have noMantissa : mantissaPart number = 0 := by
    rw [mantissaPart]
    omega
  rcases @unpack_cases number (by omega) with zero | ⟨_, above, _⟩ | ⟨above, _⟩
  · exact zero.2.2
  · omega
  · omega

theorem from_zero_of_in_unit (inUnit : InUnit number) (above : rank number ≠ 0) :
    fromZero number = true := by
  rw [in_unit_iff, rank] at inUnit
  rw [rank] at above
  rw [from_zero_iff]
  split_ifs at inUnit above with nan negative
  · exact absurd inUnit.2 (by decide)
  · simp only [Int.ofNat_eq_natCast] at inUnit above
    omega
  · exact ⟨by simpa using nan, by simpa using negative⟩

theorem unpack_of_in_unit (inUnit : InUnit number) (above : rank number ≠ 0) :
    ∃ fraction : Fraction, number.toModel.unpack = fraction.unpacked := by
  have passes := from_zero_of_in_unit inUnit above
  rw [in_unit_iff] at inUnit
  have word : rank number = number.toBits.toNat := rank_from_zero passes
  have parts : (rank number : Int) = exponentPart number * 2 ^ 52 + mantissaPart number := by
    rw [exponentPart, mantissaPart]
    omega
  have small : mantissaPart number < 2 ^ 52 := Nat.mod_lt _ (by decide)
  have positive : signPart number = .positive := by
    have unsignedNumber := (Bool.and_eq_true_iff.mp passes).2
    rw [signPart, (unsigned_iff_sign number).mp unsignedNumber]
    rfl
  have notFull : exponentPart number < 2047 := by omega
  rcases unpack_cases notFull with ⟨noExponent, noMantissa, _⟩ | ⟨_, present, unpacked⟩ |
    ⟨higher, present, unpacked⟩
  · omega
  · have fits : mantissaPart number < 2 ^ 53 := by omega
    refine ⟨⟨_, 1074, present, fits, by decide, at_most_one_of_fits fits (by decide)⟩, ?_⟩
    rw [unpacked, positive]
    rfl
  · have fits : 2 ^ 52 + mantissaPart number < 2 ^ 53 := by omega
    have exponent : (exponentPart number : Int) - 1075 = -(1075 - exponentPart number : Nat) := by
      omega
    have atMostOne : 2 ^ 52 + mantissaPart number ≤ 2 ^ (1075 - exponentPart number) := by
      -- The exponent of one is the highest, and one is the only number in range that has it.
      rcases Nat.lt_or_ge (exponentPart number) 1023 with lower | highest
      · exact at_most_one_of_fits fits (by omega)
      · have one : 1075 - exponentPart number = 52 := by omega
        rw [one]
        omega
    refine ⟨⟨_, _, present, fits, by omega, atMostOne⟩, ?_⟩
    simp only [unpacked, positive, exponent]
    rfl

theorem one_sub_eq (number : Float) :
    1 - number = ⟨pack (.sub .binary64 (1 : Float).toModel.unpack number.toModel.unpack)⟩ :=
  rfl

theorem complement_in_unit (inUnit : InUnit number) : InUnit (1 - number) := by
  by_cases level : rank number = 0
  · have whole : 1 - number = 1 := by
      rw [one_sub_eq, unpack_of_rank_zero level]
      exact pack_unpack 1
    rw [whole]
    exact in_unit_one
  · obtain ⟨fraction, unpacked⟩ := unpack_of_in_unit inUnit level
    rw [one_sub_eq, unpacked, fraction.one_sub_unpacked]
    rcases Nat.eq_zero_or_pos fraction.rest with none | below
    · rw [none]
      exact in_unit_zero
    · obtain ⟨lower, near⟩ := fraction.log2_rest_bounds below
      obtain ⟨normal, rounded, place⟩ := round_below_one below lower near
      have above := normal.place_bounds.1
      rw [UnpackedFloat.normalize, Int.compare_eq_gt.mpr (Int.natCast_pos.mpr below),
        Int.toNat_natCast]
      simp only [rounded]
      change InUnit (normal.float .positive)
      rw [in_unit_iff, normal.rank_float]
      exact ⟨above.le, place⟩

theorem complement_nan (nan : isNaN number = true) : isNaN (1 - number) = true := by
  rw [one_sub_eq, unpack_nan nan]
  decide +kernel

end Complement

end Deliberation.Double
