import Deliberation.Proofs.Frame.Resolving
import Deliberation.Proofs.Match.Completeness
import Deliberation.Proofs.Match.Head
import Deliberation.Proofs.Term.Equivalence
import Deliberation.Proofs.Term.Shape

/-!
# Ground literals matched two ways

A ground call can be asked of the one fact in a belief base or matched with the same
literal as the head of a rule. Both ways want equal functors, signs and value digests.
The query then wants as many leaves and compares all of them, by their raw values where
both have one; the head match compares only those pairs of leaves that are raw values
themselves. So the query is the stricter of the two. They differ where variables carry
terms of their own, and where one digest stands for two numbers of leaves.
-/

namespace Deliberation

set_option autoImplicit false

/-- What both ways want before they look at any leaf. -/
structure Literal.Fits (pattern call : Literal) : Prop where
  functor : pattern.functor = call.functor
  negated : pattern.negated = call.negated
  digest : pattern.matchesValue .rotating call = true

/-- The pair is no clash of two raw values. -/
def Tolerates (pattern call : Term) : Prop :=
  ∀ left right, pattern = .value left → call = .value right → left.same right = true

theorem values_clash_iff (pattern call : Term) :
    valuesClash pattern call = false ↔ Tolerates pattern call := by
  cases pattern <;> cases call <;> simp [valuesClash, Tolerates]

theorem Agrees.tolerates {call pattern : Term} (agrees : Agrees call pattern) :
    Tolerates pattern call := by
  rintro left right rfl rfl
  rw [Value.same_comm]
  simpa [Agrees, Term.raw?] using agrees

theorem Tolerates.agrees {left right : Value}
    (tolerates : Tolerates (.value left) (.value right)) :
    Agrees (.value right) (.value left) := by
  refine .inl ⟨right, left, rfl, rfl, ?_⟩
  rw [Value.same_comm]
  exact tolerates left right rfl rfl

/-- Unless their digests agree by chance, literals that fit have as many leaves. -/
theorem Literal.Fits.leaves_length_eq {pattern call : Literal} (fits : pattern.Fits call)
    (separates : Hasher.rotating.Separates [pattern.valueWords, call.valueWords]) :
    pattern.leaves.length = call.leaves.length := by
  have alike := alike_of_value_digest separates ((matches_value_iff _).mp fits.digest)
  have count := alike.pairing.2.1
  rwa [argument_leaves_eq, argument_leaves_eq] at count

theorem HeadMatch.meet_all_bound {pairs : List (Term × Term)}
    (bound : ∀ pair ∈ pairs, ∀ name, pair.1 ≠ .variable name ∧ pair.2 ≠ .variable name)
    (found : HeadMatch) :
    (meetAll? pairs found).isSome = true ↔
      ∀ pair ∈ pairs, valuesClash pair.1 pair.2 = false := by
  induction pairs with
  | nil => simp [meetAll?]
  | cons pair rest ih =>
      rcases pair with ⟨pattern, call⟩
      have here := bound _ List.mem_cons_self
      have later := ih fun other member => bound other (List.mem_cons_of_mem _ member)
      have patternBound := (unbound_eq_none_iff pattern).mpr fun name => (here name).1
      have callBound := (unbound_eq_none_iff call).mpr fun name => (here name).2
      rw [meetAll?, meet?, callBound]
      dsimp only
      rw [patternBound]
      cases clash : valuesClash pattern call with
      | true => simp [clash]
      | false => simpa [clash] using later

namespace Literal

variable {pattern call : Literal}

theorem ground_head_iff (groundPattern : pattern.isGround = true)
    (groundCall : call.isGround = true) :
    (pattern.matchHead? call).isSome = true ↔
      pattern.Fits call ∧ ∀ pair ∈ pattern.leaves.zip call.leaves, Tolerates pair.1 pair.2 := by
  have bound : ∀ pair ∈ pattern.leaves.zip call.leaves, ∀ name,
      pair.1 ≠ .variable name ∧ pair.2 ≠ .variable name := by
    intro pair member name
    obtain ⟨inPattern, inCall⟩ := List.of_mem_zip member
    constructor
    · intro free
      exact ground_leaves_not_free.2 pattern groundPattern name (free ▸ inPattern)
    · intro free
      exact ground_leaves_not_free.2 call groundCall name (free ▸ inCall)
  have met := HeadMatch.meet_all_bound bound .empty
  simp only [values_clash_iff] at met
  rw [Option.isSome_iff_exists] at met ⊢
  simp only [match_head_eq_some_iff, exists_and_left, met]
  constructor
  · rintro ⟨⟨functor, negated, digest⟩, tolerant⟩
    exact ⟨⟨functor, negated, digest⟩, tolerant⟩
  · rintro ⟨fits, tolerant⟩
    exact ⟨⟨fits.functor, fits.negated, fits.digest⟩, tolerant⟩

end Literal

theorem mem_believing_query (pattern : Literal) (tally : Tally) (negated : Bool) (path : Path)
    (fact : Literal) :
    fact ∈ (Mind.believing pattern tally).beliefs.query negated path ↔
      fact = pattern ∧ pattern.functor = path ∧ pattern.negated = negated := by
  have stored : (Storage.empty.putMulti pattern.functor pattern).2 =
      ⟨[(pattern.functor, ⟨[pattern], [pattern]⟩)], []⟩ := rfl
  have empty : ∀ sign, BeliefBase.empty.storage sign = Storage.empty := by
    intro sign
    cases sign <;> rfl
  have multi : (⟨[(pattern.functor, ⟨[pattern], [pattern]⟩)], []⟩ : Storage).multi path =
      if pattern.functor = path then [pattern] else [] := by
    rw [Storage.multi, Storage.bucket?, Storage.findEntry, Storage.findEntry]
    split_ifs <;> rfl
  have nothing : Storage.empty.multi path = [] := rfl
  rw [Mind.believing, BeliefBase.add, BeliefBase.query]
  dsimp only
  rw [empty, stored]
  cases pattern.negated <;> cases negated <;>
    simp [BeliefBase.withStorage, BeliefBase.storage, BeliefBase.empty, multi, nothing, and_comm]

theorem ground_query_iff {pattern call : Literal} (ground : call.isGround = true) (frame : Frame)
    (output : List Term) (tally : Tally) :
    (∃ after, unify call none ⟨frame, output, Mind.believing pattern tally⟩ =
        some (.ok Truth.one, after)) ↔
      pattern.Fits call ∧ List.Forall₂ Agrees call.leaves pattern.leaves := by
  rw [unguarded_true_iff, BeliefBase.binding_sets_ne_nil_iff]
  simp only [mem_believing_query]
  rw [Frame.instantiate, frame.instantiate_ground [] call ground]
  constructor
  · rintro ⟨fact, ⟨rfl, functor, negated⟩, set, accepted | accepted⟩
    · have digests := ((Literal.matches_exact_iff _).mp accepted.digests).1
      exact ⟨⟨functor, negated, (Literal.matches_value_iff _).mpr digests.symm⟩,
        accepted.equal ground⟩
    · have digest := accepted.digests
      rw [Literal.matches_value_comm] at digest
      exact ⟨⟨functor, negated, digest⟩, accepted.equal ground⟩
  · rintro ⟨fits, agree⟩
    refine ⟨pattern, ⟨rfl, fits.functor, fits.negated⟩,
      firstOffers (pairOffers (Tier.valueExact.aligned call pattern)), .inr ?_⟩
    constructor
    case digests =>
      rw [Literal.matches_value_comm]
      exact fits.digest
    case kept => exact keeps_first_offers _
    case equal => exact fun _ => agree
    case binds =>
      intro notGround
      rw [ground] at notGround
      exact absurd notGround (by decide)

section Ground

variable {pattern call : Literal} (groundPattern : pattern.isGround = true)
  (groundCall : call.isGround = true)

include groundPattern groundCall

theorem head_met_of_query {frame : Frame} {output : List Term} {tally : Tally} {after : State}
    (answered : unify call none ⟨frame, output, Mind.believing pattern tally⟩ =
      some (.ok Truth.one, after)) :
    (pattern.matchHead? call).isSome = true := by
  obtain ⟨fits, agree⟩ := (ground_query_iff groundCall frame output tally).mp ⟨after, answered⟩
  rw [Literal.ground_head_iff groundPattern groundCall]
  have tolerant := List.forall₂_iff_zip.mp (agree.flip.imp fun _ _ => Agrees.tolerates)
  exact ⟨fits, fun pair paired => tolerant.2 paired⟩

/-- Without variables that carry terms, and without chance among digests, the two ways
agree. -/
theorem plain_ground_matches_agree (plainPattern : pattern.isPlain = true)
    (plainCall : call.isPlain = true)
    (separates : Hasher.rotating.Separates [pattern.valueWords, call.valueWords]) (frame : Frame)
    (output : List Term) (tally : Tally) :
    (pattern.matchHead? call).isSome = true ↔
      ∃ after, unify call none ⟨frame, output, Mind.believing pattern tally⟩ =
        some (.ok Truth.one, after) := by
  constructor
  · intro met
    obtain ⟨fits, tolerant⟩ := (Literal.ground_head_iff groundPattern groundCall).mp met
    refine (ground_query_iff groundCall frame output tally).mpr ⟨fits, ?_⟩
    have count := fits.leaves_length_eq separates
    refine List.Forall₂.flip (List.forall₂_iff_zip.mpr ⟨count, fun {left right} member => ?_⟩)
    obtain ⟨inPattern, inCall⟩ := List.of_mem_zip member
    obtain ⟨raw, rfl⟩ := Literal.leaf_eq_value plainPattern inPattern fun name free =>
      ground_leaves_not_free.2 pattern groundPattern name (free ▸ inPattern)
    obtain ⟨other, rfl⟩ := Literal.leaf_eq_value plainCall inCall fun name free =>
      ground_leaves_not_free.2 call groundCall name (free ▸ inCall)
    exact Tolerates.agrees (tolerant _ member)
  · rintro ⟨after, answered⟩
    exact head_met_of_query groundPattern groundCall answered

end Ground

/-- A query of a ground call finds the one fact exactly when the two fit, have as many
leaves, and all these agree. A ground head is met exactly when the two fit and no two raw
values that meet clash, whatever the variables among the leaves carry; unless their digests
agree by chance, all leaves meet then. -/
theorem ground_matches_compared (pattern call : Literal) (groundPattern : pattern.isGround = true)
    (groundCall : call.isGround = true) (frame : Frame) (output : List Term) (tally : Tally) :
    ((∃ after, unify call none ⟨frame, output, Mind.believing pattern tally⟩ =
        some (.ok Truth.one, after)) ↔
      pattern.Fits call ∧ List.Forall₂ Agrees call.leaves pattern.leaves) ∧
    ((pattern.matchHead? call).isSome = true ↔
      pattern.Fits call ∧ ∀ pair ∈ pattern.leaves.zip call.leaves, Tolerates pair.1 pair.2) ∧
    (Hasher.rotating.Separates [pattern.valueWords, call.valueWords] →
      ((pattern.matchHead? call).isSome = true ↔
        pattern.Fits call ∧ List.Forall₂ Tolerates pattern.leaves call.leaves)) := by
  have head := Literal.ground_head_iff groundPattern groundCall
  refine ⟨ground_query_iff groundCall frame output tally, head, fun separates => ?_⟩
  rw [head, List.forall₂_iff_zip]
  exact and_congr_right fun fits =>
    ⟨fun tolerant => ⟨fits.leaves_length_eq separates, fun paired => tolerant _ paired⟩,
      fun tolerant pair paired => tolerant.2 paired⟩

/-- `price(term)`. -/
def price (term : Term) : Literal :=
  .ofArguments ⟨"price"⟩ [term]

/-- Equal prices are found both ways, one of them seen through a variable. -/
theorem carried_price_met_and_found :
    (price (.bound "X" (.value (.int 1)))).isGround = true ∧
      (price (.value (.int 1))).isGround = true ∧
      ((price (.bound "X" (.value (.int 1)))).matchHead? (price (.value (.int 1)))).isSome = true ∧
      ∃ after, unify (price (.value (.int 1))) none
        ⟨.empty, [], Mind.believing (price (.bound "X" (.value (.int 1)))) .zero⟩ =
          some (.ok Truth.one, after) := by
  have compared := ground_matches_compared (price (.bound "X" (.value (.int 1))))
    (price (.value (.int 1))) rfl rfl .empty [] .zero
  have fits : (price (.bound "X" (.value (.int 1)))).Fits (price (.value (.int 1))) :=
    ⟨rfl, rfl, Literal.matches_value_of_shape .rotating rfl⟩
  have agree : List.Forall₂ Agrees (price (.value (.int 1))).leaves
      (price (.bound "X" (.value (.int 1)))).leaves :=
    .cons (.inl ⟨_, _, rfl, rfl, rfl⟩) .nil
  have tolerant := List.forall₂_iff_zip.mp (agree.flip.imp fun _ _ => Agrees.tolerates)
  exact ⟨rfl, rfl, compared.2.1.mpr ⟨fits, fun pair paired => tolerant.2 paired⟩,
    compared.1.mpr ⟨fits, agree⟩⟩

/-- A head whose variable carries 1 is met by a call with 2, which no query finds. -/
theorem carried_price_met_not_found :
    (price (.bound "X" (.value (.int 1)))).isGround = true ∧
      (price (.value (.int 2))).isGround = true ∧
      ((price (.bound "X" (.value (.int 1)))).matchHead? (price (.value (.int 2)))).isSome = true ∧
      ¬∃ after, unify (price (.value (.int 2))) none
        ⟨.empty, [], Mind.believing (price (.bound "X" (.value (.int 1)))) .zero⟩ =
          some (.ok Truth.one, after) := by
  refine ⟨rfl, rfl, by cbv, ?_⟩
  rw [ground_query_iff rfl]
  rintro ⟨_, agree⟩
  rcases agree with _ | ⟨⟨left, right, isLeft, isRight, same⟩ | ⟨isNone, _⟩, _⟩
  · rw [← Option.some.inj isLeft, ← Option.some.inj isRight] at same
    exact absurd same (by decide)
  · simp [Term.raw?] at isNone

end Deliberation
