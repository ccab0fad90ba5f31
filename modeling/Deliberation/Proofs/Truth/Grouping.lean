import Deliberation.Call
import Deliberation.Proofs.Truth
import Mathlib.Data.Fintype.Order
import Mathlib.Data.List.Induction
import Mathlib.Data.Multiset.Lattice
import Mathlib.Order.CompletePartialOrder
import Mathlib.Order.WithBot
import Mathlib.Tactic.SplitIfs

/-!
# Order and grouping of graded truths

Up to equality a truth is a point of a lattice: its value together with the rank of its
degree. Disjunction joins such points and conjunction meets them. A missing degree is the
least one for disjunction and the greatest one for conjunction, so it takes two lattices,
one for each. What a number of operands come to in either is settled by which they are.
-/

namespace Deliberation

set_option autoImplicit false

theorem Double.rank_highest (left right : Float) :
    rank (highest left right) = rank left ⊔ rank right := by
  unfold highest
  split_ifs with rightLower
  · exact (max_eq_left rightLower.le).symm
  · exact (max_eq_right (not_lt.mp rightLower)).symm

theorem Double.rank_lowest (left right : Float) :
    rank (lowest left right) = rank left ⊓ rank right := by
  unfold lowest
  split_ifs with rightLower
  · exact (min_eq_right rightLower.le).symm
  · exact (min_eq_left (not_lt.mp rightLower)).symm

/-- Operands together with a way to group them; there may be none at all. -/
inductive Grouping (α : Type) where
  | nothing
  | single (operand : α)
  | both (left right : Grouping α)

namespace Grouping

variable {α β : Type}

def operands : Grouping α → List α
  | nothing => []
  | single operand => [operand]
  | both left right => left.operands ++ right.operands

def combined (combine : α → α → α) (neutral : α) : Grouping α → α
  | nothing => neutral
  | single operand => operand
  | both left right => combine (left.combined combine neutral) (right.combined combine neutral)

/-- One operand after the other is put to those before it. -/
def leftwards (operands : List α) : Grouping α :=
  operands.foldl (fun before operand => both before (single operand)) nothing

theorem operands_leftwards (operands : List α) : (leftwards operands).operands = operands := by
  have appended : operands.foldl (fun before operand => before ++ [operand]) [] = operands := by
    induction operands using List.reverseRecOn with
    | nil => rfl
    | append_singleton before operand ih => rw [List.foldl_concat, ih]
  refine Eq.trans ?_ appended
  exact (List.foldl_hom Grouping.operands fun _ _ => rfl).symm

theorem combined_leftwards (combine : α → α → α) (neutral : α) (operands : List α) :
    (leftwards operands).combined combine neutral = operands.foldl combine neutral :=
  (List.foldl_hom (Grouping.combined combine neutral) fun _ _ => rfl).symm

/-- Where combining is joining, a grouping comes to the supremum of its operands. -/
theorem combined_sup [SemilatticeSup β] [OrderBot β] {view : α → β} {combine : α → α → α}
    {neutral : α} (least : view neutral = ⊥)
    (joins : ∀ left right, view (combine left right) = view left ⊔ view right)
    (grouping : Grouping α) :
    view (grouping.combined combine neutral) =
      ((grouping.operands : Multiset α).map view).sup := by
  induction grouping with
  | nothing => exact least
  | single operand => exact (Multiset.sup_singleton).symm
  | both left right ofLeft ofRight =>
      rw [combined, joins, ofLeft, ofRight, operands, ← Multiset.coe_add, Multiset.map_add,
        Multiset.sup_add]

end Grouping

namespace Truth

/-- For disjunction: no degree lies below all of them. -/
def joinPoint (truth : Truth) : Bool × WithBot ℤ :=
  (truth.value, (truth.degree.map fun degree => (Double.rank degree : WithBot ℤ)).getD ⊥)

/-- For conjunction: no degree lies above all of them. -/
def meetPoint (truth : Truth) : Bool × WithTop ℤ :=
  (truth.value, (truth.degree.map fun degree => (Double.rank degree : WithTop ℤ)).getD ⊤)

theorem same_iff_join_point (left right : Truth) :
    left.same right = true ↔ left.joinPoint = right.joinPoint := by
  rcases left with ⟨value, degree⟩
  rcases right with ⟨other, otherDegree⟩
  cases degree <;> cases otherDegree <;>
    simp [same, sameDegree, joinPoint, Double.same]

theorem same_iff_meet_point (left right : Truth) :
    left.same right = true ↔ left.meetPoint = right.meetPoint := by
  rcases left with ⟨value, degree⟩
  rcases right with ⟨other, otherDegree⟩
  cases degree <;> cases otherDegree <;>
    simp [same, sameDegree, meetPoint, Double.same]

theorem join_point_zero : zero.joinPoint = ⊥ := rfl

theorem meet_point_one : one.meetPoint = ⊤ := rfl

theorem join_point_add (left right : Truth) :
    (left + right).joinPoint = left.joinPoint ⊔ right.joinPoint := by
  rcases left with ⟨value, degree⟩
  rcases right with ⟨other, otherDegree⟩
  refine Prod.ext rfl ?_
  change ((combineDegrees Double.highest degree otherDegree).map _).getD ⊥ = _ ⊔ _
  cases degree <;> cases otherDegree <;>
    simp [combineDegrees, joinPoint, Double.rank_highest]

theorem meet_point_mul (left right : Truth) :
    (left * right).meetPoint = left.meetPoint ⊓ right.meetPoint := by
  rcases left with ⟨value, degree⟩
  rcases right with ⟨other, otherDegree⟩
  refine Prod.ext rfl ?_
  change ((combineDegrees Double.lowest degree otherDegree).map _).getD ⊤ = _ ⊓ _
  cases degree <;> cases otherDegree <;>
    simp [combineDegrees, meetPoint, Double.rank_lowest]

/-- Equality is that of points in a lattice whose joins are what is combined. -/
structure Joins {β : Type} [SemilatticeSup β] [OrderBot β] (view : Truth → β)
    (combine : Truth → Truth → Truth) (neutral : Truth) : Prop where
  same_iff : ∀ left right : Truth, left.same right = true ↔ view left = view right
  combined : ∀ left right, view (combine left right) = view left ⊔ view right
  neutral : view neutral = ⊥

theorem add_joins : Joins joinPoint (· + ·) zero :=
  ⟨same_iff_join_point, join_point_add, join_point_zero⟩

/-- Conjunctions are joins in the lattice turned over. -/
theorem mul_joins : Joins (fun truth => OrderDual.toDual truth.meetPoint) (· * ·) one :=
  ⟨same_iff_meet_point, meet_point_mul, meet_point_one⟩

/-- Order, grouping and repetition of operands do not matter, up to equality, nor does the
neutral truth among them. -/
structure Orderless (combine : Truth → Truth → Truth) (neutral : Truth) : Prop where
  assoc : ∀ first second third, (combine (combine first second) third).same
    (combine first (combine second third)) = true
  comm : ∀ left right, (combine left right).same (combine right left) = true
  idem : ∀ truth, (combine truth truth).same truth = true
  neutral_left : ∀ truth, (combine neutral truth).same truth = true
  neutral_right : ∀ truth, (combine truth neutral).same truth = true
  grouping : ∀ left right : Grouping Truth, left.operands.Perm right.operands →
    (left.combined combine neutral).same (right.combined combine neutral) = true

theorem Joins.orderless {β : Type} [SemilatticeSup β] [OrderBot β] {view : Truth → β}
    {combine : Truth → Truth → Truth} {neutral : Truth} (joins : Joins view combine neutral) :
    Orderless combine neutral := by
  constructor
  case assoc =>
    intro first second third
    rw [joins.same_iff, joins.combined, joins.combined, joins.combined, joins.combined,
      sup_assoc]
  case comm =>
    intro left right
    rw [joins.same_iff, joins.combined, joins.combined, sup_comm]
  case idem =>
    intro truth
    rw [joins.same_iff, joins.combined, sup_idem]
  case neutral_left =>
    intro truth
    rw [joins.same_iff, joins.combined, joins.neutral, bot_sup_eq]
  case neutral_right =>
    intro truth
    rw [joins.same_iff, joins.combined, joins.neutral, sup_bot_eq]
  case grouping =>
    intro left right reordered
    rw [joins.same_iff, Grouping.combined_sup joins.neutral joins.combined,
      Grouping.combined_sup joins.neutral joins.combined, Multiset.coe_eq_coe.mpr reordered]

/-- The truth of a call that asks all its candidates groups their truths leftwards. -/
theorem disjoin_eq_combined (completions : List Completion) :
    disjoin completions =
      (Grouping.leftwards (completions.map Completion.truth)).combined (· + ·) zero := by
  rw [Grouping.combined_leftwards, List.foldl_map]
  rfl

/-- Both operations are associative, commutative and idempotent with a neutral truth, and
in both any two groupings of the same operands in any order come to equal truths. So what
a call comes to that asks all its candidates does not depend on their order either. -/
theorem combination_orderless :
    Orderless (· + ·) zero ∧ Orderless (· * ·) one ∧
      ∀ (completions : List Completion) (grouping : Grouping Truth),
        grouping.operands.Perm (completions.map Completion.truth) →
          (grouping.combined (· + ·) zero).same (disjoin completions) = true := by
  have disjunction := add_joins.orderless
  refine ⟨disjunction, mul_joins.orderless, ?_⟩
  intro completions grouping reordered
  rw [disjoin_eq_combined]
  refine disjunction.grouping grouping _ ?_
  rw [Grouping.operands_leftwards]
  exact reordered

/-- Three truths: without a degree, with one half and with a NaN for a degree. -/
def opinions : List Completion :=
  [⟨zero, [], []⟩, ⟨withDegree true 0.5, [], []⟩, ⟨⟨true, some (0.0 / 0.0)⟩, [], []⟩]

/-- The last two are grouped first, and the first one comes last. -/
def regrouped : Grouping Truth :=
  .both (.both (.single (withDegree true 0.5)) (.single ⟨true, some (0.0 / 0.0)⟩)) (.single zero)

theorem opinions_regrouped :
    regrouped.operands.Perm (opinions.map Completion.truth) ∧
      (regrouped.combined (· + ·) zero).same (disjoin opinions) = true := by
  have reordered : regrouped.operands.Perm (opinions.map Completion.truth) :=
    List.perm_append_comm
  exact ⟨reordered, combination_orderless.2.2 opinions regrouped reordered⟩

end Truth

end Deliberation
