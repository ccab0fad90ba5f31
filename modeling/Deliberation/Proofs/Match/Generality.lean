import Deliberation.Proofs.Match.Ground
import Deliberation.Proofs.Term.Assigned
import Deliberation.Proofs.Term.Plain
import Deliberation.Proofs.Term.Substitution

/-!
# Head matches are most general

Let head and call be plain, and let no variable stand twice among the leaves of the call.
They then match exactly when they fit and some values for the variables of either, each
side with values of its own, make the leaves that are paired the same. Whatever such values
are, they agree with each binding that is made on the way, so no pair is refused; and in
turn the bindings and exports that are made in the end are such values. All leaves are
paired unless the digests agree by chance.
-/

namespace Deliberation

set_option autoImplicit false

/-- A raw value or an unbound variable. -/
def Term.PlainLeaf (leaf : Term) : Prop :=
  (∃ raw, leaf = .value raw) ∨ ∃ name, leaf = .variable name

theorem Literal.plain_leaf {whole : Literal} (plain : whole.isPlain = true) {leaf : Term}
    (member : leaf ∈ whole.leaves) : leaf.PlainLeaf := by
  by_cases free : ∃ name, leaf = .variable name
  · exact .inr free
  · rw [not_exists] at free
    exact .inl (leaf_eq_value plain member free)

theorem find_binding_append (name : String) (bindings more : Bindings) :
    findBinding name (bindings ++ more) =
      (findBinding name bindings).or (findBinding name more) := by
  induction bindings with
  | nil => rfl
  | cons binding rest ih =>
      rcases binding with ⟨key, term⟩
      rw [List.cons_append, findBinding, findBinding, ih]
      split_ifs <;> rfl

theorem find_binding_none {name : String} {bindings : Bindings}
    (unbound : findBinding name bindings = none) : name ∉ bindings.map Prod.fst := by
  induction bindings with
  | nil => exact List.not_mem_nil
  | cons binding rest ih =>
      rcases binding with ⟨key, term⟩
      rw [findBinding] at unbound
      split_ifs at unbound with isKey
      rw [List.map_cons, List.mem_cons, not_or]
      exact ⟨Ne.symm isKey, ih unbound⟩

namespace HeadMatch

/-- What holds before the first pair, and behind every pair that it holds before, holds
in the end. -/
theorem meet_all_invariant {kept : HeadMatch → Prop}
    (step : ∀ {found next : HeadMatch} {pattern call : Term},
      found.meet? pattern call = some next → kept found → kept next)
    {pairs : List (Term × Term)} {found last : HeadMatch}
    (met : meetAll? pairs found = some last) (holds : kept found) : kept last := by
  induction pairs generalizing found with
  | nil => exact Option.some.inj met ▸ holds
  | cons pair rest ih =>
      rcases pair with ⟨pattern, call⟩
      rw [meetAll?] at met
      split at met
      next next first => exact ih met (step first holds)
      next => cases met

/-- A name that is bound stays bound as it is. -/
theorem meet_keeps {found next : HeadMatch} {pattern call : Term}
    (met : found.meet? pattern call = some next) {name : String} {term : Term}
    (bound : findBinding name found.bindings = some term) :
    findBinding name next.bindings = some term := by
  rcases meet_cases met with ⟨_, _, rfl⟩ | ⟨_, _, _, _, rfl⟩ | ⟨_, _, _, _, _, _, rfl⟩ |
    ⟨_, _, _, rfl⟩
  · exact bound
  · rw [find_binding_append, bound]
    rfl
  · exact bound
  · exact bound

theorem meet_names_nodup {found next : HeadMatch} {pattern call : Term}
    (met : found.meet? pattern call = some next) (nodup : (found.bindings.map Prod.fst).Nodup) :
    (next.bindings.map Prod.fst).Nodup := by
  rcases meet_cases met with ⟨_, _, rfl⟩ | ⟨name, _, _, unbound, rfl⟩ |
    ⟨_, _, _, _, _, _, rfl⟩ | ⟨_, _, _, rfl⟩
  · exact nodup
  · rw [List.map_append, List.map_singleton, List.nodup_append]
    refine ⟨nodup, List.nodup_singleton _, ?_⟩
    rintro other isOther _ isName rfl
    rw [List.mem_singleton.mp isName] at isOther
    exact find_binding_none unbound isOther
  · exact nodup
  · exact nodup

/-- What a raw value of the call demands of the leaf that it meets: to be that value, or
to be a variable bound to it. -/
def Demands (head : HeadMatch) (pattern : Term) (raw : Value) : Prop :=
  (∀ own, pattern = .value own → own.same raw = true) ∧
    ∀ name, pattern = .variable name →
      ∃ own, findBinding name head.bindings = some (.value own) ∧ own.same raw = true

theorem Demands.keeps {found next : HeadMatch} {pattern other call : Term} {raw : Value}
    (before : found.Demands pattern raw) (met : found.meet? other call = some next) :
    next.Demands pattern raw := by
  refine ⟨before.1, fun name isFree => ?_⟩
  obtain ⟨own, bound, same⟩ := before.2 name isFree
  exact ⟨own, meet_keeps met bound, same⟩

theorem meet_demands {found next : HeadMatch} {pattern : Term} {raw : Value}
    (met : found.meet? pattern (.value raw) = some next) : next.Demands pattern raw := by
  rcases meet_cases met with ⟨_, impossible, _⟩ | ⟨name, rfl, _, unbound, rfl⟩ |
    ⟨name, earlier, rfl, _, bound, same, rfl⟩ | ⟨notFree, _, noClash, rfl⟩
  · cases impossible
  · refine ⟨nofun, fun other isFree => ?_⟩
    obtain rfl := Term.variable.inj isFree
    refine ⟨raw, ?_, raw.same_refl⟩
    rw [find_binding_append, unbound, findBinding, if_pos rfl]
    rfl
  · refine ⟨nofun, fun other isFree => ?_⟩
    obtain rfl := Term.variable.inj isFree
    obtain ⟨own, rfl⟩ := eq_value_of_same (same_symmetric.1 _ _ same)
    rw [Term.same] at same
    exact ⟨own, bound, same⟩
  · refine ⟨?_, fun name isFree => absurd isFree (notFree name)⟩
    rintro own rfl
    exact (values_clash_iff _ _).mp noClash own raw rfl rfl

theorem meet_all_demands {pairs : List (Term × Term)} {found last : HeadMatch}
    (met : meetAll? pairs found = some last) {pattern : Term} {raw : Value}
    (member : (pattern, Term.value raw) ∈ pairs) : last.Demands pattern raw := by
  induction pairs generalizing found with
  | nil => cases member
  | cons pair rest ih =>
      rcases pair with ⟨first, call⟩
      rw [meetAll?] at met
      split at met
      next next here =>
        rcases List.mem_cons.mp member with isFirst | later
        · obtain ⟨rfl, rfl⟩ := Prod.mk.inj isFirst
          have demands : next.Demands pattern raw := meet_demands here
          exact meet_all_invariant (fun step before => Demands.keeps before step) met demands
        · exact ih met later
      next => cases met

end HeadMatch

/-- Values for the head and others for the call make a pair of leaves the same. -/
def Unifies (inHead inCall : String → Value) (pattern call : Term) : Prop :=
  (pattern.assign inHead).same (call.assign inCall) = true

theorem unifies_values_iff (inHead inCall : String → Value) (own raw : Value) :
    Unifies inHead inCall (.value own) (.value raw) ↔ own.same raw = true := by
  rw [Unifies, Term.assign, Term.assign, Term.same]

theorem unifies_free_iff (inHead inCall : String → Value) (name : String) (raw : Value) :
    Unifies inHead inCall (.variable name) (.value raw) ↔ (inHead name).same raw = true := by
  rw [Unifies, Term.assign, Term.assign, Term.same]

namespace HeadMatch

/-- The bindings are among the values for the variables of the head. -/
def Follows (head : HeadMatch) (inHead : String → Value) : Prop :=
  ∀ name term, (name, term) ∈ head.bindings → (Term.value (inHead name)).same term = true

theorem meet_of_unifies {inHead inCall : String → Value} {found : HeadMatch}
    (follows : found.Follows inHead) {pattern call : Term} (plainPattern : pattern.PlainLeaf)
    (plainCall : call.PlainLeaf) (unifies : Unifies inHead inCall pattern call) :
    ∃ next, found.meet? pattern call = some next ∧ next.Follows inHead := by
  rcases plainCall with ⟨raw, rfl⟩ | ⟨wanted, rfl⟩
  · rcases plainPattern with ⟨own, rfl⟩ | ⟨name, rfl⟩
    · have noClash : valuesClash (.value own) (.value raw) = false := by
        rw [valuesClash, (unifies_values_iff ..).mp unifies]
        rfl
      refine ⟨found, ?_, follows⟩
      simp only [meet?, Term.unbound?, noClash, Bool.false_eq_true, if_false]
    · cases bound : findBinding name found.bindings with
      | some earlier =>
          have same : earlier.same (.value raw) = true :=
            same_transitive.1 _ _ _
              (same_symmetric.1 _ _ (follows name earlier (find_binding_mem bound))) unifies
          refine ⟨found, ?_, follows⟩
          simp only [meet?, Term.unbound?, bound, same, if_true]
      | none =>
          refine ⟨⟨found.bindings ++ [(name, .value raw)], found.exports⟩, ?_, ?_⟩
          · simp only [meet?, Term.unbound?, bound]
          intro other term member
          rcases List.mem_append.mp member with old | new
          · exact follows other term old
          · obtain ⟨rfl, rfl⟩ := Prod.mk.inj (List.mem_singleton.mp new)
            exact unifies
  · exact ⟨_, rfl, follows⟩

theorem meet_all_of_unifies {inHead inCall : String → Value} {pairs : List (Term × Term)}
    (plain : ∀ pair ∈ pairs, pair.1.PlainLeaf ∧ pair.2.PlainLeaf)
    (unify : ∀ pair ∈ pairs, Unifies inHead inCall pair.1 pair.2) {found : HeadMatch}
    (follows : found.Follows inHead) : ∃ last, meetAll? pairs found = some last := by
  induction pairs generalizing found with
  | nil => exact ⟨found, rfl⟩
  | cons pair rest ih =>
      obtain ⟨plainHere, plainRest⟩ := List.forall_mem_cons.mp plain
      obtain ⟨unifiesHere, unifyRest⟩ := List.forall_mem_cons.mp unify
      obtain ⟨next, met, nextFollows⟩ :=
        meet_of_unifies follows plainHere.1 plainHere.2 unifiesHere
      rw [meetAll?, met]
      exact ih plainRest unifyRest nextFollows

/-- The values that the bindings give to variables of the head. -/
def inHead (head : HeadMatch) (name : String) : Value :=
  ((findBinding name head.bindings).bind Term.value?).getD (.bool false)

/-- The values that variables of the call have from the leaves that answer them. -/
def inCall (head : HeadMatch) (name : String) : Value :=
  (((findBinding name head.exports).map (Term.assign head.inHead)).bind Term.value?).getD
    (.bool false)

theorem Demands.unifies {head : HeadMatch} {pattern : Term} {raw : Value}
    (demands : head.Demands pattern raw) (plain : pattern.PlainLeaf) :
    Unifies head.inHead head.inCall pattern (.value raw) := by
  rcases plain with ⟨own, rfl⟩ | ⟨name, rfl⟩
  · exact (unifies_values_iff ..).mpr (demands.1 own rfl)
  · obtain ⟨own, bound, same⟩ := demands.2 name rfl
    have isValue : head.inHead name = own := by
      rw [inHead, bound]
      rfl
    rw [unifies_free_iff, isValue]
    exact same

theorem export_unifies {head : HeadMatch} {pattern : Term} {name : String}
    (plain : pattern.PlainLeaf) (answered : findBinding name head.exports = some pattern) :
    Unifies head.inHead head.inCall pattern (.variable name) := by
  have isAnswer : Term.value (head.inCall name) = pattern.assign head.inHead := by
    rw [inCall, answered]
    rcases plain with ⟨own, rfl⟩ | ⟨other, rfl⟩ <;> rfl
  rw [Unifies, Term.assign, isAnswer]
  exact same_reflexive.1 _

/-- The entries of a head match, told from the leaves that are paired: each variable of
the head that meets a raw value is bound once, to that value, and each variable among the
leaves of the call that have a partner is exported once, with the leaf of the head at its
position. -/
structure Lists (pattern call : Literal) (head : HeadMatch) : Prop where
  bindsMet : ∀ name raw, (Term.variable name, Term.value raw) ∈ pattern.leaves.zip call.leaves →
    ∃ own, (name, Term.value own) ∈ head.bindings ∧ own.same raw = true
  bindsNoOther : ∀ name term, (name, term) ∈ head.bindings →
    ∃ raw, term = .value raw ∧ (Term.variable name, term) ∈ pattern.leaves.zip call.leaves
  bindsOnce : (head.bindings.map Prod.fst).Nodup
  exportsMet : ∀ name leaf, (name, leaf) ∈ head.exports ↔
    (leaf, Term.variable name) ∈ pattern.leaves.zip call.leaves
  exportsOnce : (head.exports.map Prod.fst).Nodup

end HeadMatch

namespace Literal

variable {pattern call : Literal} {head : HeadMatch}

theorem plain_pairs (plainPattern : pattern.isPlain = true) (plainCall : call.isPlain = true) :
    ∀ pair ∈ pattern.leaves.zip call.leaves, pair.1.PlainLeaf ∧ pair.2.PlainLeaf := by
  intro pair member
  obtain ⟨inPattern, inCall⟩ := List.of_mem_zip member
  exact ⟨plain_leaf plainPattern inPattern, plain_leaf plainCall inCall⟩

theorem match_head_fits (matched : pattern.matchHead? call = some head) : pattern.Fits call := by
  obtain ⟨⟨functor, negated, digest⟩, _⟩ := match_head_eq_some_iff.mp matched
  exact ⟨functor, negated, digest⟩

theorem match_head_lists (plainPattern : pattern.isPlain = true)
    (plainCall : call.isPlain = true) (linear : (call.leaves.filterMap Term.unbound?).Nodup)
    (matched : pattern.matchHead? call = some head) :
    HeadMatch.Lists pattern call head := by
  have plain := plain_pairs plainPattern plainCall
  have exports := match_head_exports_eq matched
  have met := (match_head_eq_some_iff.mp matched).2
  have exportsMet : ∀ name leaf, (name, leaf) ∈ head.exports ↔
      (leaf, Term.variable name) ∈ pattern.leaves.zip call.leaves := by
    intro name leaf
    rw [exports, List.mem_filterMap]
    simp only [HeadMatch.wanted_eq_some_iff]
    constructor
    · rintro ⟨_, member, rfl⟩
      exact member
    · intro member
      exact ⟨_, member, rfl⟩
  constructor
  case bindsMet =>
    intro name raw member
    obtain ⟨own, bound, same⟩ := (HeadMatch.meet_all_demands met member).2 name rfl
    exact ⟨own, find_binding_mem bound, same⟩
  case bindsNoOther =>
    intro name term member
    rcases HeadMatch.meet_all_bindings met name term member with initial | ⟨paired, bound⟩
    · cases initial
    · rcases (plain _ paired).2 with ⟨raw, isValue⟩ | ⟨other, isFree⟩
      · exact ⟨raw, isValue, paired⟩
      · exact absurd isFree (bound other)
  case bindsOnce => exact HeadMatch.meet_all_invariant HeadMatch.meet_names_nodup met List.nodup_nil
  case exportsMet => exact exportsMet
  case exportsOnce =>
    rw [exports]
    exact linear.sublist (HeadMatch.wanted_names_sublist _ _)

/-- The values that a head match stands for make every pair of leaves the same. -/
theorem match_head_unifies (plainPattern : pattern.isPlain = true)
    (plainCall : call.isPlain = true) (linear : (call.leaves.filterMap Term.unbound?).Nodup)
    (matched : pattern.matchHead? call = some head) :
    ∀ pair ∈ pattern.leaves.zip call.leaves, Unifies head.inHead head.inCall pair.1 pair.2 := by
  rintro ⟨leaf, other⟩ member
  have plainLeaf := plain_pairs plainPattern plainCall _ member
  have met := (match_head_eq_some_iff.mp matched).2
  have lists := match_head_lists plainPattern plainCall linear matched
  rcases plainLeaf.2 with ⟨raw, isValue⟩ | ⟨name, isFree⟩
  · obtain rfl : other = .value raw := isValue
    exact (HeadMatch.meet_all_demands met member).unifies plainLeaf.1
  · obtain rfl : other = .variable name := isFree
    exact HeadMatch.export_unifies plainLeaf.1
      (find_binding_of_nodup lists.exportsOnce ((lists.exportsMet name leaf).mpr member))

theorem match_head_isSome_iff (plainPattern : pattern.isPlain = true)
    (plainCall : call.isPlain = true) (linear : (call.leaves.filterMap Term.unbound?).Nodup) :
    (pattern.matchHead? call).isSome = true ↔
      pattern.Fits call ∧ ∃ inHead inCall : String → Value,
        ∀ pair ∈ pattern.leaves.zip call.leaves, Unifies inHead inCall pair.1 pair.2 := by
  rw [Option.isSome_iff_exists]
  constructor
  · rintro ⟨head, matched⟩
    exact ⟨match_head_fits matched, head.inHead, head.inCall,
      match_head_unifies plainPattern plainCall linear matched⟩
  · rintro ⟨fits, inHead, inCall, unifies⟩
    have plain := plain_pairs plainPattern plainCall
    have follows : HeadMatch.empty.Follows inHead := fun _ _ none => absurd none List.not_mem_nil
    obtain ⟨head, met⟩ := HeadMatch.meet_all_of_unifies plain unifies follows
    exact ⟨head, match_head_eq_some_iff.mpr ⟨⟨fits.functor, fits.negated, fits.digest⟩, met⟩⟩

/-- Plain head and call, the call with no variable twice among its leaves, match exactly
when they fit and some values make the leaves that are paired the same; what is bound and
exported is then told from these pairs alone. Unless the digests agree by chance, every
leaf is paired, and every variable among the leaves of the call is exported. -/
theorem match_head_most_general (pattern call : Literal) (plainPattern : pattern.isPlain = true)
    (plainCall : call.isPlain = true) (linear : (call.leaves.filterMap Term.unbound?).Nodup) :
    ((pattern.matchHead? call).isSome = true ↔
      pattern.Fits call ∧ ∃ inHead inCall : String → Value,
        ∀ pair ∈ pattern.leaves.zip call.leaves, Unifies inHead inCall pair.1 pair.2) ∧
    (∀ head, pattern.matchHead? call = some head → HeadMatch.Lists pattern call head) ∧
    (Hasher.rotating.Separates [pattern.valueWords, call.valueWords] →
      ((pattern.matchHead? call).isSome = true ↔
        pattern.Fits call ∧ ∃ inHead inCall : String → Value,
          List.Forall₂ (Unifies inHead inCall) pattern.leaves call.leaves) ∧
      ∀ head, pattern.matchHead? call = some head → ∀ name, Term.variable name ∈ call.leaves →
        name ∈ head.exports.map Prod.fst) := by
  have general := match_head_isSome_iff plainPattern plainCall linear
  have lists (head : HeadMatch) (matched : pattern.matchHead? call = some head) :=
    match_head_lists plainPattern plainCall linear matched
  refine ⟨general, lists, fun separates => ⟨?_, fun head matched name member => ?_⟩⟩
  · rw [general]
    refine and_congr_right fun fits => exists_congr fun inHead => exists_congr fun inCall => ?_
    rw [List.forall₂_iff_zip]
    exact ⟨fun unifies => ⟨fits.leaves_length_eq separates, fun paired => unifies _ paired⟩,
      fun unifies pair paired => unifies.2 paired⟩
  · have count := (match_head_fits matched).leaves_length_eq separates
    rw [← List.map_snd_zip count.ge, List.mem_map] at member
    obtain ⟨⟨leaf, _⟩, paired, rfl⟩ := member
    exact List.mem_map.mpr
      ⟨(name, leaf), ((lists head matched).exportsMet name leaf).mpr paired, rfl⟩

/-- `loan(borrower, terms(lender), rate)`. -/
def loan (borrower lender rate : Term) : Literal :=
  .ofArguments ⟨"loan"⟩ [borrower, .literal (.ofArguments ⟨"terms"⟩ [lender]), rate]

/-- The variable that returns meets an unbound variable first and a raw value then; the
one of the same name in the call has nothing to do with it. -/
theorem loan_to_self_matched :
    let pattern := loan (.variable "X") (.variable "X") (.value (.int 3))
    let call := loan (.variable "Y") (.value (.string "bank")) (.variable "X")
    (pattern.isPlain = true ∧ call.isPlain = true ∧
      (call.leaves.filterMap Term.unbound?).Nodup ∧
      Hasher.rotating.Separates [pattern.valueWords, call.valueWords]) ∧
      (pattern.Fits call ∧ ∃ inHead inCall : String → Value,
        List.Forall₂ (Unifies inHead inCall) pattern.leaves call.leaves) ∧
      HeadMatch.Lists pattern call
        ⟨[("X", .value (.string "bank"))], [("Y", .variable "X"), ("X", .value (.int 3))]⟩ := by
  intro pattern call
  have plainPattern : pattern.isPlain = true := by decide
  have plainCall : call.isPlain = true := by decide
  have linear : (call.leaves.filterMap Term.unbound?).Nodup := by decide
  have separates : Hasher.rotating.Separates [pattern.valueWords, call.valueWords] := by
    decide +kernel
  have matched : pattern.matchHead? call =
      some ⟨[("X", .value (.string "bank"))],
        [("Y", .variable "X"), ("X", .value (.int 3))]⟩ := by
    cbv
  obtain ⟨_, lists, whole⟩ := match_head_most_general pattern call plainPattern plainCall linear
  have general := (whole separates).1
  exact ⟨⟨plainPattern, plainCall, linear, separates⟩, general.mp (by rw [matched]; rfl),
    lists _ matched⟩

/-- `order(functor(terms))`. -/
def order (functor : String) (terms : List Term) : Literal :=
  .ofArguments ⟨"order"⟩ [.literal (.ofArguments ⟨functor⟩ terms)]

/-- Two functors for which one leaf and two have one digest: the head has no partner for the
second variable of the call, which is matched although no values make as many leaves of one
as the other has, and is left without an answer. -/
theorem two_leaves_met_by_one :
    let pattern := order "pyigngfixeyNqpbv" [.variable "A"]
    let call := order "items" [.variable "X", .variable "Y"]
    (pattern.isPlain = true ∧ call.isPlain = true ∧
      (call.leaves.filterMap Term.unbound?).Nodup) ∧
      pattern.matchHead? call = some ⟨[], [("X", .variable "A")]⟩ ∧
      (¬∃ inHead inCall : String → Value,
        List.Forall₂ (Unifies inHead inCall) pattern.leaves call.leaves) ∧
      Term.variable "Y" ∈ call.leaves := by
  intro pattern call
  have matched : pattern.matchHead? call = some ⟨[], [("X", .variable "A")]⟩ := by
    cbv
  refine ⟨⟨by decide, by decide, by decide⟩, matched, ?_, List.mem_cons_of_mem _ List.mem_cons_self⟩
  rintro ⟨inHead, inCall, unify⟩
  exact absurd unify.length_eq (by decide)

end Literal

end Deliberation
