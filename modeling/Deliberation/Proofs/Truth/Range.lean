import Deliberation.Proofs.Double.Complement
import Deliberation.Proofs.Truth.Distribution

/-!
# The range of degrees

Degrees are brought into the range from 0 to 1 when a truth gets one. The operations on truths
keep one of the degrees they find or take one from one, so they never leave the range. A NaN
lies on neither side of the range and is let through, and what it leaves of one is a NaN again.
No truth has a NaN for its degree unless one was given.
-/

namespace Deliberation

set_option autoImplicit false

theorem Double.clamp_unit_in_unit {number : Float} (isNumber : isNaN number = false) :
    InUnit (clampUnit number) := by
  rw [clampUnit, if_neg (Bool.eq_false_iff.mp isNumber)]
  split_ifs with below above
  · exact in_unit_zero
  · exact in_unit_one
  · exact ⟨not_lt.mp below, not_lt.mp above⟩

theorem Double.clamp_unit_nan {number : Float} (nan : isNaN number = true) :
    clampUnit number = number := by
  rw [clampUnit, if_pos nan]

theorem Double.highest_selects : Aggregation.Selects highest := by
  intro left right
  rw [highest]
  split_ifs
  · exact .inl rfl
  · exact .inr rfl

theorem Double.lowest_selects : Aggregation.Selects lowest := by
  intro left right
  rw [lowest]
  split_ifs
  · exact .inr rfl
  · exact .inl rfl

namespace Truth

/-- A truth together with the way it came about. -/
inductive Formula where
  | plain (value : Bool)
  | graded (value : Bool) (degree : Float)
  | zero
  | one
  | disjunction (left right : Formula)
  | conjunction (left right : Formula)
  | negation (inner : Formula)

namespace Formula

def truth : Formula → Truth
  | plain value => ofBool value
  | graded value degree => withDegree value degree
  | zero => Truth.zero
  | one => Truth.one
  | disjunction left right => left.truth + right.truth
  | conjunction left right => left.truth * right.truth
  | negation inner => inner.truth.not

/-- The degrees that were given, as they were given. -/
def degrees : Formula → List Float
  | plain _ => []
  | graded _ degree => [degree]
  | zero => []
  | one => []
  | disjunction left right => left.degrees ++ right.degrees
  | conjunction left right => left.degrees ++ right.degrees
  | negation inner => inner.degrees

end Formula

theorem combined_degree_mem {choose : Float → Float → Float} (selects : Aggregation.Selects choose)
    {left right : Option Float} {degree : Float}
    (member : degree ∈ combineDegrees choose left right) : degree ∈ left ∨ degree ∈ right := by
  cases left with
  | none =>
      cases right with
      | none => exact .inl member
      | some second => exact .inr member
  | some first =>
      cases right with
      | none => exact .inl member
      | some second =>
          obtain rfl : choose first second = degree := Option.some.inj member
          rcases selects first second with isFirst | isSecond
          · exact .inl (congrArg some isFirst.symm)
          · exact .inr (congrArg some isSecond.symm)

/-- What holds of the degrees given, once they are brought into range, and is kept by complements
holds of the degree in the end: the other operations make no degrees of their own. -/
theorem Formula.degree_invariant {property : Float → Prop}
    (complement : ∀ degree, property degree → property (1 - degree)) (formula : Formula)
    (given : ∀ degree ∈ formula.degrees, property (Double.clampUnit degree)) :
    ∀ degree ∈ formula.truth.degree, property degree := by
  induction formula with
  | plain value => exact fun degree member => absurd member (Option.not_mem_none degree)
  | zero => exact fun degree member => absurd member (Option.not_mem_none degree)
  | one => exact fun degree member => absurd member (Option.not_mem_none degree)
  | graded value clamped =>
      intro degree member
      obtain rfl : Double.clampUnit clamped = degree := Option.some.inj member
      exact given clamped List.mem_cons_self
  | disjunction left right ofLeft ofRight =>
      rw [degrees, List.forall_mem_append] at given
      intro degree member
      rcases combined_degree_mem Double.highest_selects member with inLeft | inRight
      · exact ofLeft given.1 degree inLeft
      · exact ofRight given.2 degree inRight
  | conjunction left right ofLeft ofRight =>
      rw [degrees, List.forall_mem_append] at given
      intro degree member
      rcases combined_degree_mem Double.lowest_selects member with inLeft | inRight
      · exact ofLeft given.1 degree inLeft
      · exact ofRight given.2 degree inRight
  | negation inner ih =>
      intro degree member
      obtain ⟨own, ofInner, rfl⟩ := Option.map_eq_some_iff.mp member
      exact complement own (ih given own ofInner)

theorem with_degree_in_unit_iff (value : Bool) (degree : Float) :
    (withDegree value degree).InUnit ↔ Double.isNaN degree = false := by
  constructor
  · intro inUnit
    apply Bool.eq_false_iff.mpr
    intro nan
    have kept := inUnit (Double.clampUnit degree) rfl
    rw [Double.clamp_unit_nan nan] at kept
    exact Double.not_in_unit_nan nan kept
  · rintro isNumber _ ⟨⟩
    exact Double.clamp_unit_in_unit isNumber

/-- In range, or a NaN after one was given. -/
def Formula.Allows (formula : Formula) (degree : Float) : Prop :=
  Double.InUnit degree ∨
    Double.isNaN degree = true ∧ ∃ given ∈ formula.degrees, Double.isNaN given = true

theorem Formula.allows_complement (formula : Formula) {degree : Float}
    (allowed : formula.Allows degree) : formula.Allows (1 - degree) := by
  rcases allowed with inUnit | ⟨nan, given⟩
  · exact .inl (Double.complement_in_unit inUnit)
  · exact .inr ⟨Double.complement_nan nan, given⟩

theorem Formula.allows_given (formula : Formula) {degree : Float}
    (given : degree ∈ formula.degrees) : formula.Allows (Double.clampUnit degree) := by
  cases nan : Double.isNaN degree with
  | false => exact .inl (Double.clamp_unit_in_unit nan)
  | true =>
      rw [Double.clamp_unit_nan nan]
      exact .inr ⟨nan, degree, given, nan⟩

theorem Formula.degree_allowed (formula : Formula) :
    ∀ degree ∈ formula.truth.degree, formula.Allows degree := by
  apply @Formula.degree_invariant formula.Allows
  · intro degree allowed
    exact formula.allows_complement allowed
  · intro degree given
    exact formula.allows_given given

/-- However a truth came about, it has no degree or one from 0 to 1, unless its degree is a NaN
and a NaN was given for one. The degree given to a single truth is in range just if it is not
a NaN. -/
theorem degrees_in_unit_unless_nan (formula : Formula) :
    (formula.truth.InUnit ∨
      (∃ degree ∈ formula.truth.degree, Double.isNaN degree = true) ∧
        ∃ given ∈ formula.degrees, Double.isNaN given = true) ∧
      ∀ value degree, (withDegree value degree).InUnit ↔ Double.isNaN degree = false := by
  refine ⟨?_, with_degree_in_unit_iff⟩
  have allowed := formula.degree_allowed
  rw [InUnit]
  generalize formula.truth.degree = found at allowed ⊢
  cases found with
  | none => exact .inl fun degree member => absurd member (Option.not_mem_none degree)
  | some own =>
      rcases allowed own rfl with inUnit | ⟨nan, given⟩
      · left
        rintro _ ⟨⟩
        exact inUnit
      · exact .inr ⟨⟨own, rfl, nan⟩, given⟩

/-- A NaN stays the degree of the truth it is given for. It stays that of the disjunction with a
truth of degree one as well. -/
theorem nan_out_of_range :
    ¬(Formula.graded true (0.0 / 0.0)).truth.InUnit ∧
    ¬((Formula.graded true (0.0 / 0.0)).disjunction (.graded true 1)).truth.InUnit := by
  decide +kernel

end Truth

end Deliberation
