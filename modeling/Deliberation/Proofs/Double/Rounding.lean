import Deliberation.Proofs.Double.Sign

/-!
# Rounding and packing

Shifting a mantissa to the right keeps two bits of what is shifted out, and the three
together read as one number: shifts and the final rounding are monotone in it, and exact
where only zeros are shifted out. What is rounded to 53 bits is packed into 64 bits without
loss; the encoding, read as a number, has the exponent above the mantissa, so that the rank
of the packed number is linear in both.
-/

namespace Deliberation.Double

set_option autoImplicit false

open Float.Model
open UnpackedFloat (Accuracy ExtendedMantissa packComponents roundWithAccuracy
  shiftToTargetExponent unpackSign_packComponents)

section Rounding

/-- A mantissa with the two bits kept of what was shifted out, as one number. -/
def weight (extended : ExtendedMantissa) : Nat :=
  4 * extended.mantissa + 2 * extended.roundBit.toNat + extended.stickyBit.toNat

/-- The weight after a shift by one place. -/
def halved (weight : Nat) : Nat :=
  2 * (weight / 4) + min 1 (weight % 4)

/-- The nearest mantissa; a half goes to the even neighbour. -/
def nearest (weight : Nat) : Nat :=
  weight / 4 +
    if weight % 4 = 3 then 1 else if weight % 4 = 2 then weight / 4 % 2 else 0

theorem halved_mono : Monotone halved := by
  intro left right ordered
  rw [halved, halved]
  omega

theorem nearest_mono : Monotone nearest := by
  intro left right ordered
  rw [nearest, nearest]
  split_ifs <;> omega

theorem weight_shift_right_one (extended : ExtendedMantissa) :
    weight extended.shiftRightOne = halved (weight extended) := by
  obtain ⟨mantissa, roundBit, stickyBit⟩ := extended
  have parity : (mantissa % 2 != 0).toNat = mantissa % 2 := by
    rcases Nat.mod_two_eq_zero_or_one mantissa with even | odd
    · rw [even]; rfl
    · rw [odd]; rfl
  simp only [weight, ExtendedMantissa.shiftRightOne, halved, parity]
  cases roundBit <;> cases stickyBit <;> simp <;> omega

theorem weight_shift_right (extended : ExtendedMantissa) (places : Nat) :
    weight (extended >>> places) = halved^[places] (weight extended) := by
  induction places with
  | zero => rfl
  | succ places ih =>
      rw [Function.iterate_succ_apply', ← ih]
      exact weight_shift_right_one _

theorem nearest_of_parts (mantissa : Nat) {rest : Nat} (small : rest < 4) :
    nearest (4 * mantissa + rest) =
      mantissa + if rest = 3 then 1 else if rest = 2 then mantissa % 2 else 0 := by
  have quotient : (4 * mantissa + rest) / 4 = mantissa := by omega
  have remainder : (4 * mantissa + rest) % 4 = rest := by omega
  rw [nearest, quotient, remainder]

theorem rounded_mantissa_eq (extended : ExtendedMantissa) :
    extended.roundedMantissa = nearest (weight extended) := by
  obtain ⟨mantissa, roundBit, stickyBit⟩ := extended
  have small : 2 * roundBit.toNat + stickyBit.toNat < 4 := by
    cases roundBit <;> cases stickyBit <;> decide
  rw [weight, Nat.add_assoc, nearest_of_parts mantissa small]
  cases roundBit <;> cases stickyBit <;> rfl

/-- What a mantissa is rounded to when its last places are dropped. -/
def rounded (places mantissa : Nat) : Nat :=
  nearest (halved^[places] (4 * mantissa))

theorem rounded_mono (places : Nat) : Monotone (rounded places) := by
  intro left right ordered
  exact nearest_mono (halved_mono.iterate places (Nat.mul_le_mul_left 4 ordered))

theorem rounded_exact (places mantissa : Nat) :
    rounded places (mantissa * 2 ^ places) = mantissa := by
  rw [rounded]
  induction places with
  | zero =>
      rw [Function.iterate_zero_apply, nearest]
      split_ifs <;> omega
  | succ places ih =>
      have shifted : halved (4 * (mantissa * 2 ^ (places + 1))) = 4 * (mantissa * 2 ^ places) := by
        have doubled : mantissa * 2 ^ (places + 1) = 2 * (mantissa * 2 ^ places) := by
          rw [Nat.pow_succ, ← Nat.mul_assoc, Nat.mul_comm]
        rw [halved, doubled]
        omega
      rwa [Function.iterate_succ_apply, shifted]

/-- The leading bit stays where it is or moves up by one place. -/
theorem rounded_bounds {mantissa : Nat} (wide : 52 ≤ mantissa.log2) :
    2 ^ 52 ≤ rounded (mantissa.log2 - 52) mantissa ∧
      rounded (mantissa.log2 - 52) mantissa ≤ 2 ^ 53 := by
  have positive : mantissa ≠ 0 := by
    rintro rfl
    exact absurd wide (by decide)
  constructor
  · rw [← rounded_exact (mantissa.log2 - 52) (2 ^ 52), ← Nat.pow_add,
      Nat.add_sub_cancel' wide]
    exact rounded_mono _ (Nat.log2_self_le positive)
  · rw [← rounded_exact (mantissa.log2 - 52) (2 ^ 53), ← Nat.pow_add,
      show 53 + (mantissa.log2 - 52) = mantissa.log2 + 1 by omega]
    exact rounded_mono _ Nat.lt_log2_self.le

end Rounding

/-- A number whose leading bit stands first of 53 bits, without its sign. -/
structure Normal where
  mantissa : Nat
  exponent : Int
  lower : 2 ^ 52 ≤ mantissa
  upper : mantissa < 2 ^ 53
  least : -1074 ≤ exponent
  most : exponent ≤ 971

namespace Normal

variable (normal : Normal) (sign : UnpackedFloat.Sign)

theorem positive : 0 < normal.mantissa :=
  Nat.lt_of_lt_of_le (by decide) normal.lower

theorem log2_eq : normal.mantissa.log2 = 52 :=
  (Nat.log2_eq_iff normal.positive.ne').mpr ⟨normal.lower, normal.upper⟩

def unpacked : UnpackedFloat :=
  .finite sign normal.mantissa normal.exponent normal.positive

def float : Float :=
  ⟨pack (normal.unpacked sign)⟩

/-- The encoding without the sign: the leading bit of the mantissa counts for the exponent. -/
def place : Int :=
  (normal.exponent + 1074) * 2 ^ 52 + normal.mantissa

/-- The exponent as it is encoded. -/
def biased : Nat :=
  (normal.exponent + 1075).toNat

theorem biased_eq : (normal.biased : Int) = normal.exponent + 1075 := by
  have least := normal.least
  rw [biased]
  omega

theorem biased_bounds : 0 < normal.biased ∧ normal.biased < 2047 := by
  have least := normal.least
  have most := normal.most
  rw [biased]
  omega

theorem to_nat_biased : (BitVec.ofNat 11 normal.biased).toNat = normal.biased := by
  have bounds := normal.biased_bounds
  rw [BitVec.toNat_ofNat, Nat.mod_eq_of_lt (by omega)]

theorem to_nat_mantissa : (BitVec.ofNat 52 normal.mantissa).toNat + 2 ^ 52 = normal.mantissa := by
  have lower := normal.lower
  have upper := normal.upper
  rw [BitVec.toNat_ofNat, Nat.mod_eq_sub_mod lower, Nat.mod_eq_of_lt (by omega)]
  exact Nat.sub_add_cancel lower

theorem pack_unpacked :
    UnpackedFloat.pack .binary64 (normal.unpacked sign) =
      packComponents .binary64 sign (BitVec.ofNat 11 normal.biased)
        (BitVec.ofNat 52 normal.mantissa) := by
  have biased : normal.exponent + Format.binary64.exponentBias +
      Format.binary64.mantissaBitsWithoutImplicit = normal.exponent + 1075 := by
    change normal.exponent + 1023 + 52 = _
    omega
  have bounded : ¬2 ^ Format.binary64.exponentBits ≤ (normal.exponent + 1075).toNat + 1 := by
    have most := normal.most
    change ¬2 ^ 11 ≤ _
    omega
  have full : normal.mantissa.log2 + 1 = Format.binary64.mantissaBits := by
    rw [normal.log2_eq]
    rfl
  simp only [unpacked, UnpackedFloat.pack, biased, bounded, full, if_true, if_false]
  rfl

theorem unpack_float : (normal.float sign).toModel.unpack = normal.unpacked sign := by
  have bounds := normal.biased_bounds
  have notFull : BitVec.ofNat 11 normal.biased ≠ -1#11 := by
    intro full
    have number := normal.to_nat_biased
    rw [full] at number
    change 2047 = _ at number
    omega
  have notEmpty : BitVec.ofNat 11 normal.biased ≠ 0#11 := by
    intro empty
    have number := normal.to_nat_biased
    rw [empty] at number
    change 0 = _ at number
    omega
  have mantissaBack : (1#1 ++ BitVec.ofNat 52 normal.mantissa).toNat = normal.mantissa := by
    rw [BitVec.toNat_append, ← Nat.shiftLeft_add_eq_or_of_lt (BitVec.isLt _), Nat.add_comm]
    exact normal.to_nat_mantissa
  have exponentBack : ((BitVec.ofNat 11 normal.biased).toNat : Int) -
      (Format.binary64.exponentBias + Format.binary64.mantissaBitsWithoutImplicit) =
        normal.exponent := by
    rw [normal.to_nat_biased, normal.biased_eq]
    change _ - (1023 + 52) = _
    omega
  change UnpackedFloat.unpack .binary64 (UnpackedFloat.pack .binary64 _) = _
  rw [normal.pack_unpacked, UnpackedFloat.unpack]
  simp only [UnpackedFloat.unpackMantissa_packComponents,
    UnpackedFloat.unpackExponent_packComponents, unpackSign_packComponents]
  rw [if_neg notFull, if_neg notEmpty]
  simp only [UnpackedFloat.Sign.ofBitVec_toBitVec, mantissaBack, exponentBack]
  rfl

theorem to_bits_float :
    ((normal.float sign).toBits.toNat : Int) = sign.toBitVec.toNat * 2 ^ 63 + normal.place := by
  have biased := normal.biased_eq
  have mantissa := normal.to_nat_mantissa
  change ((UnpackedFloat.pack .binary64 _).toNat : Int) = _
  rw [normal.pack_unpacked, packComponents, BitVec.toNat_append, BitVec.toNat_append,
    ← Nat.shiftLeft_add_eq_or_of_lt (BitVec.isLt _),
    ← Nat.shiftLeft_add_eq_or_of_lt (BitVec.isLt _), normal.to_nat_biased, Nat.shiftLeft_eq,
    Nat.shiftLeft_eq, place]
  omega

/-- The place lies between those of the zero and of infinity. -/
theorem place_bounds : 0 < normal.place ∧ normal.place < infinityMagnitude := by
  obtain ⟨mantissa, exponent, lower, upper, least, most⟩ := normal
  rw [place, infinityMagnitude]
  dsimp only
  omega

theorem magnitude_float : (magnitude (normal.float sign) : Int) = normal.place := by
  have bits := normal.to_bits_float sign
  have bounds := normal.place_bounds
  rw [infinityMagnitude] at bounds
  rw [magnitude, signPlace]
  cases sign with
  | positive =>
      change _ = (0 : Int) * _ + _ at bits
      omega
  | negative =>
      change _ = (1 : Int) * _ + _ at bits
      omega

theorem is_nan_float : isNaN (normal.float sign) = false := by
  have magnitude := normal.magnitude_float sign
  have bounds := normal.place_bounds
  rw [isNaN, decide_eq_false_iff_not]
  omega

theorem rank_float : rank (normal.float sign) = sign.apply normal.place := by
  have bits := normal.to_bits_float sign
  have magnitude := normal.magnitude_float sign
  have bounds := normal.place_bounds
  rw [infinityMagnitude] at bounds
  rw [rank, is_nan_float, isNegative, signPlace, if_neg Bool.false_ne_true]
  cases sign with
  | positive =>
      change _ = (0 : Int) * _ + _ at bits
      rw [decide_eq_false (by omega)]
      exact magnitude
  | negative =>
      change _ = (1 : Int) * _ + _ at bits
      rw [decide_eq_true (by omega)]
      exact congrArg Neg.neg magnitude

end Normal

section Shifts

theorem shift_to_target {mantissa : Nat} {exponent : Int} (wide : 52 ≤ mantissa.log2)
    (least : -1074 ≤ exponent + (mantissa.log2 - 52 : Nat)) :
    shiftToTargetExponent .binary64 mantissa exponent .exact =
      (ExtendedMantissa.mk mantissa false false >>> (mantissa.log2 - 52),
        exponent + (mantissa.log2 - 52 : Nat)) := by
  have target : Format.binary64.targetExponent (totalExponent mantissa exponent) - exponent =
      (mantissa.log2 - 52 : Nat) := by
    change max (mantissa.log2 + 1 + exponent - 53) (-1074) - exponent = _
    omega
  simp only [shiftToTargetExponent, UnpackedFloat.shiftToExponent, target, Int.toNat_natCast]
  rfl

theorem Normal.shift_eq (normal : Normal) :
    shiftToTargetExponent .binary64 normal.mantissa normal.exponent .exact =
      (ExtendedMantissa.mk normal.mantissa false false, normal.exponent) := by
  have least := normal.least
  have shifted := @shift_to_target normal.mantissa normal.exponent normal.log2_eq.ge (by omega)
  rw [normal.log2_eq] at shifted
  rw [shifted]
  exact congrArg (Prod.mk _) (Int.add_zero normal.exponent)

/-- A mantissa that was rounded up to one bit more loses a zero. -/
theorem shift_carried {exponent : Int} (least : -1074 ≤ exponent) :
    shiftToTargetExponent .binary64 (2 ^ 53) exponent .exact =
      (ExtendedMantissa.mk (2 ^ 52) false false, exponent + 1) :=
  shift_to_target (by decide) (by omega)

theorem round_of_shifts {mantissa result : Nat} {exponent target : Int}
    {extended : ExtendedMantissa} {normal : Normal} (sign : UnpackedFloat.Sign)
    (first : shiftToTargetExponent .binary64 mantissa exponent .exact = (extended, target))
    (between : extended.roundedMantissa = result)
    (second : shiftToTargetExponent .binary64 result target .exact =
      (ExtendedMantissa.mk normal.mantissa false false, normal.exponent)) :
    roundWithAccuracy .binary64 sign mantissa exponent .exact = normal.unpacked sign := by
  simp only [roundWithAccuracy, first, between, second]
  rw [dif_neg normal.positive.ne']
  rfl

theorem Normal.round_self (normal : Normal) (sign : UnpackedFloat.Sign) :
    roundWithAccuracy .binary64 sign normal.mantissa normal.exponent .exact =
      normal.unpacked sign :=
  round_of_shifts sign normal.shift_eq rfl normal.shift_eq

/-- Before it is rounded a mantissa gets zeros behind it up to 53 bits. -/
theorem round_lengthened {mantissa : Nat} {exponent : Int} (sign : UnpackedFloat.Sign)
    (least : -1022 ≤ mantissa.log2 + exponent) :
    UnpackedFloat.round .binary64 sign mantissa exponent =
      roundWithAccuracy .binary64 sign (mantissa * 2 ^ (52 - mantissa.log2))
        (exponent - (52 - mantissa.log2 : Nat)) .exact := by
  have target : Format.binary64.targetExponent (totalExponent mantissa exponent) =
      mantissa.log2 + exponent - 52 := by
    change max ((mantissa.log2 : Int) + 1 + exponent - 53) (-1074) = _
    omega
  have amount : (exponent - (mantissa.log2 + exponent - 52)).toNat = 52 - mantissa.log2 := by
    omega
  simp only [UnpackedFloat.round, target, UnpackedFloat.decreaseExponent, amount,
    Nat.shiftLeft_eq]

theorem round_normal {mantissa : Nat} {exponent : Int} (sign : UnpackedFloat.Sign)
    (wide : 52 ≤ mantissa.log2) (least : -1074 ≤ exponent + (mantissa.log2 - 52 : Nat))
    (most : exponent + (mantissa.log2 - 52 : Nat) ≤ 970) :
    ∃ normal : Normal,
      roundWithAccuracy .binary64 sign mantissa exponent .exact = normal.unpacked sign ∧
        normal.place = (exponent + (mantissa.log2 - 52 : Nat) + 1074) * 2 ^ 52 +
          rounded (mantissa.log2 - 52) mantissa := by
  obtain ⟨lower, upper⟩ := rounded_bounds wide
  have first := shift_to_target wide least
  have between : (ExtendedMantissa.mk mantissa false false >>>
      (mantissa.log2 - 52)).roundedMantissa = rounded (mantissa.log2 - 52) mantissa := by
    rw [rounded_mantissa_eq, weight_shift_right]
    rfl
  generalize rounded (mantissa.log2 - 52) mantissa = result at *
  rcases Nat.lt_or_ge result (2 ^ 53) with fits | carried
  · let normal : Normal :=
      ⟨result, exponent + (mantissa.log2 - 52 : Nat), lower, fits, least, by omega⟩
    exact ⟨normal, round_of_shifts sign first between normal.shift_eq, rfl⟩
  · obtain rfl : result = 2 ^ 53 := Nat.le_antisymm upper carried
    let normal : Normal :=
      ⟨2 ^ 52, exponent + (mantissa.log2 - 52 : Nat) + 1, by decide, by decide, by omega, by omega⟩
    refine ⟨normal, round_of_shifts sign first between (shift_carried least), ?_⟩
    change (exponent + (mantissa.log2 - 52 : Nat) + 1 + 1074) * 2 ^ 52 + (2 ^ 52 : Nat) = _
    omega

end Shifts

end Deliberation.Double
