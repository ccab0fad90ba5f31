import Deliberation.Proofs.Double.Rounding

/-!
# Whole numbers as doubles

The nearest double of a whole number is found by a product with one where 53 bits do, and by
rounding elsewhere. Both ways lead to one place in the order of ranks. Places never decrease
as the numbers increase, and a number below 2 to the power 53 shares its place with no other.
-/

namespace Deliberation.Double

set_option autoImplicit false

open Float.Model

section Whole

theorem log2_shift {number : Nat} (positive : number ≠ 0) (places : Nat) :
    (number * 2 ^ places).log2 = number.log2 + places := by
  rw [Nat.log2_eq_iff (Nat.mul_ne_zero positive (by positivity)), Nat.add_right_comm, Nat.pow_add,
    Nat.pow_add]
  exact ⟨Nat.mul_le_mul_right _ (Nat.log2_self_le positive),
    Nat.mul_lt_mul_of_pos_right Nat.lt_log2_self (by positivity)⟩

variable {number : Nat}

/-- The place of the nearest double of a positive whole number. -/
def widened (number : Nat) : Int :=
  (number.log2 + 1022) * 2 ^ 52 + rounded (number.log2 + 1) (number * 2 ^ 53)

/-- A small number loses nothing. -/
theorem widened_small (small : number.log2 ≤ 52) :
    widened number =
      (number.log2 + 1022) * 2 ^ 52 + (number * 2 ^ (52 - number.log2) : Nat) := by
  have parted : number * 2 ^ 53 = number * 2 ^ (52 - number.log2) * 2 ^ (number.log2 + 1) := by
    rw [Nat.mul_assoc, ← Nat.pow_add, show 52 - number.log2 + (number.log2 + 1) = 53 by omega]
  rw [widened, parted, rounded_exact]

variable (positive : 0 < number)

include positive

theorem log2_le_52 (small : number < 2 ^ 53) : number.log2 ≤ 52 :=
  Nat.le_of_lt_succ ((Nat.log2_lt positive.ne').mpr small)

theorem scaled_bounds (small : number.log2 ≤ 52) :
    2 ^ 52 ≤ number * 2 ^ (52 - number.log2) ∧ number * 2 ^ (52 - number.log2) < 2 ^ 53 := by
  apply (Nat.log2_eq_iff (Nat.mul_pos positive (Nat.two_pow_pos _)).ne').mp
  rw [log2_shift positive.ne', Nat.add_sub_cancel' small]

/-- A small number as it is. -/
def smallNormal (small : number.log2 ≤ 52) : Normal where
  mantissa := number * 2 ^ (52 - number.log2)
  exponent := number.log2 - 52
  lower := (scaled_bounds positive small).1
  upper := (scaled_bounds positive small).2
  least := by omega
  most := by omega

theorem normalize_small (small : number.log2 ≤ 52) :
    UnpackedFloat.normalize .binary64 number 0 .positive =
      (smallNormal positive small).unpacked .positive := by
  have least : -1022 ≤ (number.log2 : Int) + 0 := by omega
  have exponent : (0 : Int) - (52 - number.log2 : Nat) = number.log2 - 52 := by omega
  rw [UnpackedFloat.normalize, Int.compare_eq_gt.mpr (by omega), Int.toNat_natCast]
  simp only [round_lengthened .positive least, exponent]
  exact (smallNormal positive small).round_self .positive

theorem to_float_small (small : number.log2 ≤ 52) :
    number.toUInt64.toFloat = (smallNormal positive small).float .positive := by
  have bounded : number < 2 ^ 64 :=
    Nat.lt_of_lt_of_le Nat.lt_log2_self (Nat.pow_le_pow_right (by decide) (by omega))
  have fits : number.toUInt64.toNat = number := Nat.mod_eq_of_lt bounded
  change (⟨pack (.normalize .binary64 number.toUInt64.toNat 0 .positive)⟩ : Float) = _
  rw [fits, normalize_small positive small]
  rfl

theorem of_nat_small (small : number < 2 ^ 53) :
    ∃ normal : Normal,
      Float.ofNat number = normal.float .positive ∧ normal.place = widened number := by
  have log2 := log2_le_52 positive small
  have one : (Float.ofBits 0x3FF0000000000000).toModel.unpack =
      .finite .positive (2 ^ 52) (-52) (by decide) := rfl
  have wide : (number * 2 ^ (52 - number.log2) * 2 ^ 52).log2 = 104 := by
    rw [Nat.mul_assoc, ← Nat.pow_add, log2_shift positive.ne']
    omega
  obtain ⟨normal, product, place⟩ := @round_normal (number * 2 ^ (52 - number.log2) * 2 ^ 52)
    (number.log2 - 52 + -52) .positive (by omega) (by omega) (by omega)
  refine ⟨normal, ?_, ?_⟩
  · change Float.ofScientific number false 0 = _
    rw [Float.ofScientific, dif_pos ⟨small, by decide⟩]
    change number.toUInt64.toFloat * Float.ofBits 0x3FF0000000000000 = _
    rw [to_float_small positive log2]
    change (⟨pack (.mul .binary64 (Normal.float _ _).toModel.unpack
      (Float.ofBits _).toModel.unpack)⟩ : Float) = _
    rw [Normal.unpack_float, one]
    exact congrArg (fun result => Float.ofModel (pack result)) product
  · rw [wide, rounded_exact] at place
    rw [widened_small log2]
    omega

theorem of_nat_large (large : 2 ^ 53 ≤ number) (bounded : number < 2 ^ 64) :
    ∃ normal : Normal,
      Float.ofNat number = normal.float .positive ∧ normal.place = widened number := by
  have wide : (number <<< 53 * 10 ^ 0).log2 = number.log2 + 53 := by
    rw [Nat.pow_zero, Nat.mul_one, Nat.shiftLeft_eq, log2_shift positive.ne']
  have log2 : number.log2 < 64 := (Nat.log2_lt positive.ne').mpr bounded
  obtain ⟨normal, product, place⟩ := @round_normal (number <<< 53 * 10 ^ 0) (-53 + 0) .positive
    (by omega) (by omega) (by omega)
  refine ⟨normal, ?_, ?_⟩
  · change Float.ofScientific number false 0 = _
    rw [Float.ofScientific, dif_neg (by omega)]
    change (⟨pack (.ofScientific .binary64 number 0)⟩ : Float) = _
    rw [UnpackedFloat.ofScientific, dif_neg positive.ne', if_neg, if_neg, if_pos]
    · exact congrArg (fun result => Float.ofModel (pack result)) product
    · decide
    · change ¬(0 : Int) < -(2 ^ 11 + number.log2)
      omega
    · decide
  · rw [wide, Nat.pow_zero, Nat.mul_one, Nat.shiftLeft_eq] at place
    rw [widened, show number.log2 + 1 = number.log2 + 53 - 52 by omega]
    omega

theorem of_nat_normal (bounded : number < 2 ^ 64) :
    ∃ normal : Normal,
      Float.ofNat number = normal.float .positive ∧ normal.place = widened number := by
  rcases Nat.lt_or_ge number (2 ^ 53) with small | large
  · exact of_nat_small positive small
  · exact of_nat_large positive large bounded

theorem widened_bounds :
    (number.log2 + 1023) * 2 ^ 52 ≤ widened number ∧
      widened number ≤ (number.log2 + 1024) * 2 ^ 52 := by
  have log2 : (number * 2 ^ 53).log2 = number.log2 + 53 := log2_shift positive.ne' 53
  have bounds := @rounded_bounds (number * 2 ^ 53) (by omega)
  rw [log2, show number.log2 + 53 - 52 = number.log2 + 1 by omega] at bounds
  rw [widened]
  omega

theorem log2_le_of_le {greater : Nat} (ordered : number ≤ greater) :
    number.log2 ≤ greater.log2 :=
  (Nat.le_log2 (Nat.lt_of_lt_of_le positive ordered).ne').mpr
    ((Nat.log2_self_le positive.ne').trans ordered)

theorem widened_mono {greater : Nat} (ordered : number ≤ greater) :
    widened number ≤ widened greater := by
  rcases (log2_le_of_le positive ordered).lt_or_eq with below | level
  · have upper := (widened_bounds positive).2
    have lower := (widened_bounds (Nat.lt_of_lt_of_le positive ordered)).1
    omega
  · have rounding := rounded_mono (greater.log2 + 1) (Nat.mul_le_mul_right (2 ^ 53) ordered)
    rw [widened, widened, level]
    omega

/-- Below 2 to the power 53 no two whole numbers share a place. -/
theorem widened_lt {greater : Nat} (small : number < 2 ^ 53) (ordered : number < greater) :
    widened number < widened greater := by
  have log2 := log2_le_52 positive small
  rw [widened_small log2]
  rcases (log2_le_of_le positive ordered.le).lt_or_eq with below | level
  · have upper := (scaled_bounds positive log2).2
    have lower := (widened_bounds (Nat.lt_trans positive ordered)).1
    omega
  · have scaled := Nat.mul_lt_mul_of_pos_right ordered (Nat.two_pow_pos (52 - number.log2))
    rw [widened_small (level ▸ log2), ← level]
    omega

end Whole

section Integers

/-- The rank of the nearest double. -/
def place (number : Int) : Int :=
  number.sign * widened number.natAbs

theorem place_neg (number : Int) : place (-number) = -place number := by
  rw [place, place, Int.sign_neg, Int.natAbs_neg, Int.neg_mul]

theorem place_nat {number : Nat} (positive : 0 < number) : place number = widened number := by
  rw [place, Int.sign_natCast_of_ne_zero positive.ne', Int.one_mul, Int.natAbs_natCast]

theorem place_nat_mono {number greater : Nat} (ordered : number ≤ greater) :
    place number ≤ place greater := by
  rcases Nat.eq_zero_or_pos number with rfl | positive
  · rcases Nat.eq_zero_or_pos greater with rfl | positive
    · exact le_rfl
    · have lower := (widened_bounds positive).1
      rw [place_nat positive]
      exact Int.le_trans (Int.natCast_nonneg _) lower
  · rw [place_nat positive, place_nat (Nat.lt_of_lt_of_le positive ordered)]
    exact widened_mono positive ordered

theorem place_nat_lt {number greater : Nat} (small : number < 2 ^ 53) (ordered : number < greater) :
    place number < place greater := by
  rcases Nat.eq_zero_or_pos number with rfl | positive
  · have lower := (widened_bounds ordered).1
    rw [place_nat ordered]
    change 0 < widened greater
    omega
  · rw [place_nat positive, place_nat (Nat.lt_trans positive ordered)]
    exact widened_lt positive small ordered

theorem place_mono : Monotone place := by
  apply monotone_of_odd_of_monotoneOn_nonneg place_neg
  intro number nonnegative greater greaterNonnegative ordered
  lift number to Nat using nonnegative
  lift greater to Nat using greaterNonnegative
  exact place_nat_mono (Int.ofNat_le.mp ordered)

theorem place_lt_succ {number : Int} (small : number.natAbs < 2 ^ 53) :
    place number < place (number + 1) := by
  cases number with
  | ofNat number => exact place_nat_lt small number.lt_succ_self
  | negSucc number =>
      have below := place_nat_lt (Nat.lt_of_succ_lt small) number.lt_succ_self
      rw [Int.negSucc_eq, place_neg, Int.neg_add, Int.neg_add_cancel_right, place_neg]
      exact Int.neg_lt_neg below

theorem place_lt {number greater : Int} (ordered : number < greater)
    (small : number.natAbs < 2 ^ 53 ∨ greater.natAbs < 2 ^ 53) : place number < place greater := by
  rcases small with small | small
  · exact (place_lt_succ small).trans_le (place_mono ordered)
  · have below : place (-greater) < place (-greater + 1) :=
      place_lt_succ (by rwa [Int.natAbs_neg])
    have reached : place (-greater + 1) ≤ place (-number) := place_mono (by omega)
    rw [place_neg] at below reached
    omega

theorem of_int_placed {number : Int} (bounded : number.natAbs < 2 ^ 64) :
    isNaN (Float.ofInt number) = false ∧ rank (Float.ofInt number) = place number := by
  cases number with
  | ofNat number =>
      rcases Nat.eq_zero_or_pos number with rfl | positive
      · exact ⟨by decide +kernel, by decide +kernel⟩
      · obtain ⟨normal, converted, placed⟩ := of_nat_normal positive bounded
        rw [Float.ofInt, converted, normal.rank_float, placed]
        exact ⟨normal.is_nan_float .positive, (place_nat positive).symm⟩
  | negSucc number =>
      obtain ⟨normal, converted, placed⟩ := of_nat_normal number.succ_pos bounded
      have negated : Float.ofInt (Int.negSucc number) = normal.float .negative := by
        rw [Float.ofInt, converted]
        change (⟨pack (normal.float .positive).toModel.unpack.neg⟩ : Float) = _
        rw [normal.unpack_float]
        rfl
      rw [negated, normal.rank_float, placed, Int.negSucc_eq, place_neg]
      exact ⟨normal.is_nan_float .negative, congrArg Neg.neg (place_nat number.succ_pos).symm⟩

section Words

variable (number : Int64)

theorem nat_abs_word : number.toInt.natAbs < 2 ^ 64 := by
  have lower := number.le_toInt
  have upper := number.toInt_lt
  omega

theorem is_nan_word : isNaN (Float.ofInt number.toInt) = false :=
  (of_int_placed (nat_abs_word number)).1

theorem rank_word : rank (Float.ofInt number.toInt) = place number.toInt :=
  (of_int_placed (nat_abs_word number)).2

end Words

end Integers

end Deliberation.Double
