import Deliberation.Aggregation
import Deliberation.Proofs.Double.Sign

/-!
# The score of nothing

Each aggregation has a score for no scores at all. Put among other scores, that of the sum
changes no sum. Among scores from 0 on, that of the largest score changes no largest score,
whereas that of the smallest score is itself the smallest then, and that of the mean leaves
the total as it is and is counted.
-/

namespace Deliberation

set_option autoImplicit false

/-- Whether a number is neither NaN nor below the positive zero. -/
def Double.fromZero (number : Float) : Bool :=
  !isNaN number && unsigned number

namespace Double

theorem from_zero_iff (number : Float) :
    fromZero number = true ↔ isNaN number = false ∧ isNegative number = false := by
  rw [fromZero, Bool.and_eq_true, unsigned, Bool.not_eq_true', Bool.not_eq_true']

theorem from_zero_zero : fromZero 0 = true := by decide +kernel

theorem from_zero_one : fromZero 1 = true := by decide +kernel

theorem unsigned_zero : unsigned 0 = true := by decide +kernel

theorem unsigned_one : unsigned 1 = true := by decide +kernel

theorem rank_zero : rank 0 = 0 := by decide +kernel

theorem rank_from_zero {number : Float} (passes : fromZero number = true) :
    rank number = Int.ofNat number.toBits.toNat := by
  obtain ⟨isNumber, unsigned⟩ := (from_zero_iff number).mp passes
  have below : number.toBits.toNat < signPlace := by simpa [isNegative] using unsigned
  rw [rank, isNumber, unsigned, magnitude, Nat.mod_eq_of_lt below]
  rfl

theorem rank_nonneg {number : Float} (passes : fromZero number = true) : 0 ≤ rank number := by
  rw [rank_from_zero passes]
  exact Int.natCast_nonneg _

theorem eq_zero_of_rank {number : Float} (passes : fromZero number = true)
    (noHigher : rank number ≤ 0) : number = 0 := by
  rw [rank_from_zero passes] at noHigher
  have bits : number.toBits = (0 : Float).toBits :=
    UInt64.toNat_inj.mp (Int.ofNat.inj (le_antisymm noHigher (Int.natCast_nonneg _)))
  exact Float.toBits_inj.mp bits

end Double

namespace Aggregation

open Double (isNaN unsigned rank compare? fromZero from_zero_iff from_zero_zero unsigned_zero
  rank_zero rank_nonneg eq_zero_of_rank)

section Choices

variable {kept next : Float} (keptFrom : fromZero kept = true) (nextFrom : fromZero next = true)

include keptFrom nextFrom

theorem larger_from_zero : larger kept next = if rank kept < rank next then next else kept := by
  have keptNumber := ((from_zero_iff kept).mp keptFrom).1
  have nextNumber := ((from_zero_iff next).mp nextFrom).1
  simp [larger, compare?, keptNumber, nextNumber, compare_lt_iff_lt]

theorem smaller_from_zero : smaller kept next = if rank next < rank kept then next else kept := by
  have keptNumber := ((from_zero_iff kept).mp keptFrom).1
  have nextNumber := ((from_zero_iff next).mp nextFrom).1
  simp [smaller, compare?, keptNumber, nextNumber, compare_gt_iff_gt]

end Choices

section Zero

variable {score : Float} (passes : fromZero score = true)

include passes

theorem larger_zero : larger score 0 = score := by
  have nonneg := rank_nonneg passes
  rw [larger_from_zero passes from_zero_zero, rank_zero, if_neg (by omega)]

theorem zero_larger : larger 0 score = score := by
  rw [larger_from_zero from_zero_zero passes, rank_zero]
  split
  next => rfl
  next noHigher => exact (eq_zero_of_rank passes (by omega)).symm

theorem smaller_zero : smaller score 0 = 0 := by
  rw [smaller_from_zero passes from_zero_zero, rank_zero]
  split
  next => rfl
  next noHigher => exact eq_zero_of_rank passes (by omega)

theorem zero_smaller : smaller 0 score = 0 := by
  have nonneg := rank_nonneg passes
  rw [smaller_from_zero from_zero_zero passes, rank_zero, if_neg (by omega)]

end Zero

/-- The larger and the smaller of two scores are one of them. -/
def Selects (choose : Float → Float → Float) : Prop :=
  ∀ kept next, choose kept next = kept ∨ choose kept next = next

theorem larger_selects : Selects larger := by
  intro kept next
  rw [larger]
  split_ifs
  · exact .inr rfl
  · exact .inr rfl
  · exact .inl rfl

theorem smaller_selects : Selects smaller := by
  intro kept next
  rw [smaller]
  split_ifs
  · exact .inr rfl
  · exact .inr rfl
  · exact .inl rfl

section Selection

variable {choose : Float → Float → Float} (selects : Selects choose)

include selects

theorem fold_from_zero {kept : Float} (keptFrom : fromZero kept = true) {scores : List Float}
    (passes : ∀ score ∈ scores, fromZero score = true) :
    fromZero (scores.foldl choose kept) = true := by
  refine List.foldlRecOn (motive := fun best => fromZero best = true) scores choose keptFrom
    fun best bestFrom next member => ?_
  rcases selects best next with chosen | chosen
  · rwa [chosen]
  · rw [chosen]
    exact passes next member

theorem extreme_from_zero {scores : List Float}
    (passes : ∀ score ∈ scores, fromZero score = true) :
    fromZero (extreme choose scores) = true := by
  cases scores with
  | nil => exact from_zero_zero
  | cons first rest =>
      obtain ⟨firstFrom, restFrom⟩ := List.forall_mem_cons.mp passes
      exact fold_from_zero selects firstFrom restFrom

end Selection

theorem extreme_larger_eq_fold {scores : List Float}
    (passes : ∀ score ∈ scores, fromZero score = true) :
    extreme larger scores = scores.foldl larger 0 := by
  cases scores with
  | nil => rfl
  | cons first rest =>
      rw [extreme, List.foldl_cons, zero_larger (passes first List.mem_cons_self)]

theorem fold_smaller_zero {scores : List Float}
    (passes : ∀ score ∈ scores, fromZero score = true) : scores.foldl smaller 0 = 0 := by
  refine List.foldlRecOn (motive := fun least => least = 0) scores smaller rfl
    fun least isZero next member => ?_
  rw [isZero, zero_smaller (passes next member)]

theorem total_cons (score : Float) (scores : List Float) :
    total (score :: scores) = scores.foldl (· + ·) score := by
  rw [total, List.foldl_cons, Double.add_comm, Double.add_negative_zero]

theorem unsigned_fold {start : Float} (startUnsigned : unsigned start = true)
    {scores : List Float} (allUnsigned : ∀ score ∈ scores, unsigned score = true) :
    unsigned (scores.foldl (· + ·) start) = true :=
  List.foldlRecOn (motive := fun sum => unsigned sum = true) scores _ startUnsigned
    fun _ sumUnsigned next member => Double.unsigned_add sumUnsigned (allUnsigned next member)

theorem mean_of_ne_nil {scores : List Float} (nonempty : scores ≠ []) :
    evaluate .mean scores = total scores / Float.ofNat scores.length := by
  cases scores with
  | nil => exact absurd rfl nonempty
  | cons first rest => rfl

theorem unsigned_mean {scores : List Float}
    (allUnsigned : ∀ score ∈ scores, unsigned score = true) :
    unsigned (evaluate .mean scores) = true := by
  cases scores with
  | nil => exact unsigned_zero
  | cons first rest =>
      obtain ⟨firstUnsigned, restUnsigned⟩ := List.forall_mem_cons.mp allUnsigned
      rw [mean_of_ne_nil (List.cons_ne_nil first rest), total_cons]
      exact Double.unsigned_div (unsigned_fold firstUnsigned restUnsigned)
        (Double.unsigned_of_nat _)

section Insertion

variable {before behind : List Float}

theorem sum_insert_empty :
    evaluate .sum (before ++ evaluate .sum [] :: behind) = evaluate .sum (before ++ behind) := by
  change total (before ++ -0.0 :: behind) = total (before ++ behind)
  rw [total, total, List.foldl_append, List.foldl_append, List.foldl_cons,
    Double.add_negative_zero]

theorem max_insert_empty (passes : ∀ score ∈ before ++ behind, fromZero score = true) :
    evaluate .max (before ++ evaluate .max [] :: behind) = evaluate .max (before ++ behind) := by
  change extreme larger (before ++ 0 :: behind) = extreme larger (before ++ behind)
  have passesBefore := fun score member => passes score (List.mem_append_left behind member)
  have passesAll : ∀ score ∈ before ++ 0 :: behind, fromZero score = true := by
    simpa [from_zero_zero, or_imp, forall_and] using passes
  rw [extreme_larger_eq_fold passes, extreme_larger_eq_fold passesAll, List.foldl_append,
    List.foldl_append, List.foldl_cons,
    larger_zero (fold_from_zero larger_selects from_zero_zero passesBefore)]

theorem min_insert_empty (passes : ∀ score ∈ before ++ behind, fromZero score = true) :
    evaluate .min (before ++ evaluate .min [] :: behind) = 0 := by
  change extreme smaller (before ++ 0 :: behind) = 0
  have passesBehind := fun score member => passes score (List.mem_append_right before member)
  cases before with
  | nil => exact fold_smaller_zero passesBehind
  | cons first rest =>
      obtain ⟨firstFrom, restFrom⟩ := List.forall_mem_cons.mp passes
      have passesRest := fun score member => restFrom score (List.mem_append_left behind member)
      rw [List.cons_append, extreme, List.foldl_append, List.foldl_cons,
        smaller_zero (fold_from_zero smaller_selects firstFrom passesRest),
        fold_smaller_zero passesBehind]

theorem total_insert_zero (nonempty : before ++ behind ≠ [])
    (allUnsigned : ∀ score ∈ before ++ behind, unsigned score = true) :
    total (before ++ 0 :: behind) = total (before ++ behind) := by
  cases before with
  | nil =>
      cases behind with
      | nil => exact absurd rfl nonempty
      | cons first rest =>
          rw [List.nil_append, List.nil_append, total_cons, total_cons, List.foldl_cons,
            Double.add_comm, Double.add_zero (allUnsigned first List.mem_cons_self)]
  | cons first rest =>
      obtain ⟨firstUnsigned, othersUnsigned⟩ := List.forall_mem_cons.mp allUnsigned
      have restUnsigned := fun score member =>
        othersUnsigned score (List.mem_append_left behind member)
      rw [List.cons_append, List.cons_append, total_cons, total_cons, List.foldl_append,
        List.foldl_append, List.foldl_cons,
        Double.add_zero (unsigned_fold firstUnsigned restUnsigned)]

theorem mean_insert_empty (nonempty : before ++ behind ≠ [])
    (allUnsigned : ∀ score ∈ before ++ behind, unsigned score = true) :
    evaluate .mean (before ++ evaluate .mean [] :: behind) =
      total (before ++ behind) / Float.ofNat ((before ++ behind).length + 1) := by
  have notEmpty : before ++ (0 : Float) :: behind ≠ [] := by simp
  change evaluate .mean (before ++ 0 :: behind) = _
  rw [mean_of_ne_nil notEmpty, total_insert_zero nonempty allUnsigned]
  simp only [List.length_append, List.length_cons, Nat.add_assoc]

end Insertion

end Aggregation

end Deliberation
