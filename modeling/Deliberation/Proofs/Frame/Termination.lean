import Deliberation.Proofs.Frame.Carried
import Deliberation.Proofs.Frame.Instantiation
import Mathlib.Logic.Relation

/-!
# Resolving ends

Resolving is written here once more without a measure, as calls that may be nested to a
given depth only and have no answer beyond it. A visit is one such call, with its chain
and what is resolved under it. It answers as soon as the visits that it makes do. Each
of these has less ahead of it, be it that a slot has joined the chain or that the term
is smaller, so every visit answers whatever cycles the slots form, and with what
resolving gives. No visit has a name on its chain twice.
-/

namespace Deliberation

set_option autoImplicit false

section Lists

variable {α β : Type} {answer : α → Option β} {items : List α}

theorem map_m_is_some_iff :
    (items.mapM answer).isSome = true ↔ ∀ item ∈ items, (answer item).isSome = true := by
  induction items with
  | nil => simp
  | cons head rest ih =>
      rw [List.mapM_cons, List.forall_mem_cons, ← ih]
      cases answer head <;> cases rest.mapM answer <;> simp

theorem map_m_values {expected : α → β} {values : List β}
    (right : ∀ item ∈ items, ∀ value, answer item = some value → value = expected item)
    (found : items.mapM answer = some values) : values = items.map expected := by
  induction items generalizing values with
  | nil =>
      obtain rfl := Option.some.inj found
      rfl
  | cons head rest ih =>
      rw [List.mapM_cons] at found
      obtain ⟨first, isFirst, found⟩ := Option.bind_eq_some_iff.mp found
      obtain ⟨others, areOthers, found⟩ := Option.bind_eq_some_iff.mp found
      obtain rfl := Option.some.inj found
      obtain ⟨rightHead, rightRest⟩ := List.forall_mem_cons.mp right
      rw [rightHead first isFirst, ih rightRest areOthers, List.map_cons]

end Lists

theorem Term.size_lt_of_mem {term : Term} {terms : List Term} (member : term ∈ terms) :
    term.size < Term.totalSize terms := by
  induction terms with
  | nil => cases member
  | cons head rest ih =>
      rw [Term.totalSize]
      rcases List.mem_cons.mp member with rfl | later
      · omega
      · have smaller := ih later
        omega

theorem Literal.size_lt_of_mem {inner : Literal} {literals : List Literal}
    (member : inner ∈ literals) : inner.size < Literal.totalSize literals := by
  induction literals with
  | nil => cases member
  | cons head rest ih =>
      rw [Literal.totalSize]
      rcases List.mem_cons.mp member with rfl | later
      · omega
      · have smaller := ih later
        omega

namespace Frame

variable (frame : Frame)

mutual

def resolveWithin (depth : Nat) (chain : List String) (term : Term) : Option Term :=
  match depth with
  | 0 => none
  | depth + 1 =>
      match term with
      | .value raw => some (.value raw)
      | .variable name =>
          if name ∈ chain then some (.variable name)
          else
            match frame.value? name with
            | some content => resolveWithin depth (name :: chain) content
            | none => some (.variable name)
      | .bound name own =>
          if name ∈ chain then some (.variable name)
          else resolveWithin depth (name :: chain) ((frame.value? name).getD own)
      | .literal inner => (instantiateWithin depth chain inner).map Term.literal

def instantiateWithin (depth : Nat) (chain : List String) (inner : Literal) : Option Literal :=
  match depth with
  | 0 => none
  | depth + 1 =>
      if inner.isGround then some inner
      else
        (inner.arguments.mapM (resolveWithin depth chain)).bind fun arguments =>
          (inner.annotations.mapM (instantiateWithin depth chain)).map fun annotations =>
            .mk inner.functor inner.negated inner.ordered arguments annotations

end

/-- An answer is that of resolving, under whatever depth it is given. -/
theorem within_right (depth : Nat) :
    (∀ chain term answer, frame.resolveWithin depth chain term = some answer →
      answer = frame.resolveFrom chain term) ∧
    ∀ chain inner answer, frame.instantiateWithin depth chain inner = some answer →
      answer = frame.instantiateFrom chain inner := by
  -- A call takes the branch that resolving takes, and what it nests has one depth less.
  induction depth with
  | zero => simp [resolveWithin, instantiateWithin]
  | succ depth ih =>
      rcases ih with ⟨ofTerms, ofLiterals⟩
      constructor
      · intro chain term answer found
        rcases term with raw | name | ⟨name, own⟩ | inner
        · obtain rfl := Option.some.inj found
          rw [resolveFrom]
        · rw [resolveWithin] at found
          rw [resolve_free_from]
          split_ifs at found ⊢ with onChain
          · exact (Option.some.inj found).symm
          · cases slot : frame.value? name with
            | none =>
                rw [slot] at found
                exact (Option.some.inj found).symm
            | some content =>
                rw [slot] at found
                exact ofTerms _ _ _ found
        · rw [resolveWithin] at found
          rw [resolve_bound_from]
          split_ifs at found ⊢ with onChain
          · exact (Option.some.inj found).symm
          · exact ofTerms _ _ _ found
        · rw [resolveWithin] at found
          obtain ⟨instantiated, isInner, rfl⟩ := Option.map_eq_some_iff.mp found
          rw [resolveFrom, ofLiterals _ _ _ isInner]
      · intro chain inner answer found
        rw [instantiateWithin] at found
        split_ifs at found with ground
        · obtain rfl := Option.some.inj found
          exact (frame.instantiate_ground chain inner ground).symm
        · obtain ⟨arguments, areArguments, found⟩ := Option.bind_eq_some_iff.mp found
          obtain ⟨annotations, areAnnotations, rfl⟩ := Option.map_eq_some_iff.mp found
          rw [frame.instantiate_open chain inner ((Bool.not_eq_true _).mp ground),
            map_m_values (fun term _ => ofTerms chain term) areArguments,
            map_m_values (fun note _ => ofLiterals chain note) areAnnotations]

/-- A term or a literal, with the names on the chain under which it is resolved. -/
inductive Visit where
  | term (chain : List String) (term : Term)
  | literal (chain : List String) (inner : Literal)

namespace Visit

def chain : Visit → List String
  | .term names _ => names
  | .literal names _ => names

def size : Visit → Nat
  | .term _ whole => whole.size
  | .literal _ whole => whole.size

end Visit

/-- What a call visits in turn before it can answer. -/
inductive Visits : Visit → Visit → Prop where
  | slot {chain : List String} {name : String} {content : Term} (fresh : name ∉ chain)
      (found : frame.value? name = some content) :
      Visits (.term chain (.variable name)) (.term (name :: chain) content)
  | carrier {chain : List String} {name : String} (own : Term) (fresh : name ∉ chain) :
      Visits (.term chain (.bound name own))
        (.term (name :: chain) ((frame.value? name).getD own))
  | inner (chain : List String) (inner : Literal) :
      Visits (.term chain (.literal inner)) (.literal chain inner)
  | argument {chain : List String} {inner : Literal} {term : Term}
      (isOpen : inner.isGround = false) (member : term ∈ inner.arguments) :
      Visits (.literal chain inner) (.term chain term)
  | note {chain : List String} {inner note : Literal} (isOpen : inner.isGround = false)
      (member : note ∈ inner.annotations) :
      Visits (.literal chain inner) (.literal chain note)

def Answers (depth : Nat) : Visit → Prop
  | .term chain term => (frame.resolveWithin depth chain term).isSome = true
  | .literal chain inner => (frame.instantiateWithin depth chain inner).isSome = true

/-- What is ahead of a visit: slots off its chain and its own term or literal. -/
def ahead (visit : Visit) : Nat :=
  pendingSize visit.chain frame.slots + visit.size

variable {frame}

theorem Visits.ahead_lt {visit next : Visit} (visits : frame.Visits visit next) :
    frame.ahead next < frame.ahead visit := by
  cases visits with
  | @slot chain name content fresh found =>
      have spent := pending_size_enter name chain content frame.slots fresh found
      simp only [ahead, Visit.chain, Visit.size]
      omega
  | @carrier chain name own fresh =>
      simp only [ahead, Visit.chain, Visit.size, Term.size]
      cases found : frame.value? name with
      | none =>
          have kept := pending_size_cons_le name chain frame.slots
          simp only [Option.getD_none]
          omega
      | some content =>
          have spent := pending_size_enter name chain content frame.slots fresh found
          simp only [Option.getD_some]
          omega
  | inner chain inner =>
      simp only [ahead, Visit.chain, Visit.size, Term.size]
      omega
  | @argument chain inner term isOpen member =>
      have smaller := Term.size_lt_of_mem member
      rcases inner with ⟨functor, negated, ordered, arguments, annotations⟩
      simp only [ahead, Visit.chain, Visit.size, Literal.size, Literal.arguments] at smaller ⊢
      omega
  | @note chain inner note isOpen member =>
      have smaller := Literal.size_lt_of_mem member
      rcases inner with ⟨functor, negated, ordered, arguments, annotations⟩
      simp only [ahead, Visit.chain, Visit.size, Literal.size, Literal.annotations] at smaller ⊢
      omega

theorem Visits.chain_nodup {visit next : Visit} (visits : frame.Visits visit next)
    (distinct : visit.chain.Nodup) : next.chain.Nodup := by
  cases visits with
  | slot fresh _ => exact List.nodup_cons.mpr ⟨fresh, distinct⟩
  | carrier _ fresh => exact List.nodup_cons.mpr ⟨fresh, distinct⟩
  | inner => exact distinct
  | argument => exact distinct
  | note => exact distinct

theorem visited_chain_nodup {start visit : Visit}
    (reached : Relation.ReflTransGen frame.Visits start visit) (begins : start.chain = []) :
    visit.chain.Nodup := by
  induction reached with
  | refl =>
      rw [begins]
      exact List.nodup_nil
  | tail _ visits ih => exact visits.chain_nodup ih

variable (frame)

theorem literal_answers_iff (depth : Nat) (chain : List String) (inner : Literal) :
    frame.Answers (depth + 1) (.literal chain inner) ↔
      ∀ next, frame.Visits (.literal chain inner) next → frame.Answers depth next := by
  rw [Answers, instantiateWithin]
  split_ifs with ground
  · refine iff_of_true rfl fun next visits => ?_
    cases visits with
    | argument isOpen => simp [ground] at isOpen
    | note isOpen => simp [ground] at isOpen
  · have isOpen : inner.isGround = false := (Bool.not_eq_true _).mp ground
    have both : (∀ next, frame.Visits (.literal chain inner) next → frame.Answers depth next) ↔
        (inner.arguments.mapM (frame.resolveWithin depth chain)).isSome = true ∧
          (inner.annotations.mapM (frame.instantiateWithin depth chain)).isSome = true := by
      rw [map_m_is_some_iff, map_m_is_some_iff]
      constructor
      · intro answered
        exact ⟨fun term member => answered _ (.argument isOpen member),
          fun note member => answered _ (.note isOpen member)⟩
      · rintro ⟨ofArguments, ofNotes⟩ next visits
        cases visits with
        | argument _ member => exact ofArguments _ member
        | note _ member => exact ofNotes _ member
    rw [both]
    cases inner.arguments.mapM (frame.resolveWithin depth chain) <;>
      cases inner.annotations.mapM (frame.instantiateWithin depth chain) <;> simp

/-- A visit needs one depth more than what it visits, and nothing else. -/
theorem answers_succ_iff (depth : Nat) (visit : Visit) :
    frame.Answers (depth + 1) visit ↔
      ∀ next, frame.Visits visit next → frame.Answers depth next := by
  rcases visit with ⟨chain, raw | name | ⟨name, own⟩ | inner⟩ | ⟨chain, inner⟩
  · have answered : frame.Answers (depth + 1) (.term chain (.value raw)) := rfl
    refine iff_of_true answered fun next visits => ?_
    cases visits
  · rw [Answers, resolveWithin]
    split_ifs with onChain
    · refine iff_of_true rfl fun next visits => ?_
      cases visits with
      | slot fresh _ => exact absurd onChain fresh
    · cases slot : frame.value? name with
      | none =>
          refine iff_of_true rfl fun next visits => ?_
          cases visits with
          | slot _ found => simp [slot] at found
      | some content =>
          constructor
          · intro answered next visits
            cases visits with
            | slot _ found =>
                obtain rfl := Option.some.inj (slot.symm.trans found)
                exact answered
          · intro answered
            exact answered _ (.slot onChain slot)
  · rw [Answers, resolveWithin]
    split_ifs with onChain
    · refine iff_of_true rfl fun next visits => ?_
      cases visits with
      | carrier _ fresh => exact absurd onChain fresh
    · constructor
      · intro answered next visits
        cases visits
        exact answered
      · intro answered
        exact answered _ (.carrier own onChain)
  · rw [Answers, resolveWithin, Option.isSome_map]
    constructor
    · intro answered next visits
      cases visits
      exact answered
    · intro answered
      exact answered _ (.inner chain inner)
  · exact frame.literal_answers_iff depth chain inner

theorem answers_of_ahead {depth : Nat} {visit : Visit} (enough : frame.ahead visit < depth) :
    frame.Answers depth visit := by
  -- Every visit spends some of what is ahead, so the depth that is left suffices again.
  induction depth generalizing visit with
  | zero => cases enough
  | succ depth ih =>
      rw [answers_succ_iff]
      intro next visits
      exact ih (Nat.lt_of_lt_of_le visits.ahead_lt (Nat.le_of_lt_succ enough))

theorem resolve_within_enough {depth : Nat} {term : Term}
    (enough : frame.ahead (.term [] term) < depth) :
    frame.resolveWithin depth [] term = some (frame.resolve term) := by
  obtain ⟨answer, answered⟩ := Option.isSome_iff_exists.mp (frame.answers_of_ahead enough)
  rw [answered, (frame.within_right depth).1 [] term answer answered, resolve]

theorem instantiate_within_enough {depth : Nat} {inner : Literal}
    (enough : frame.ahead (.literal [] inner) < depth) :
    frame.instantiateWithin depth [] inner = some (frame.instantiate inner) := by
  obtain ⟨answer, answered⟩ := Option.isSome_iff_exists.mp (frame.answers_of_ahead enough)
  rw [answered, (frame.within_right depth).2 [] inner answer answered, instantiate]

/-- Calls that may be nested deeply enough answer, in every frame and whatever is
resolved, and the names on their chains are distinct. -/
theorem resolving_ends :
    (∀ term depth, frame.ahead (.term [] term) < depth →
      frame.resolveWithin depth [] term = some (frame.resolve term)) ∧
    (∀ inner depth, frame.ahead (.literal [] inner) < depth →
      frame.instantiateWithin depth [] inner = some (frame.instantiate inner)) ∧
    (∀ depth visit, frame.Answers (depth + 1) visit ↔
      ∀ next, frame.Visits visit next → frame.Answers depth next) ∧
    (∀ start visit, start.chain = [] → Relation.ReflTransGen frame.Visits start visit →
      visit.chain.Nodup) ∧
    ∀ term name own, frame.resolve term ≠ .bound name own := by
  refine ⟨fun term depth => frame.resolve_within_enough,
    fun inner depth => frame.instantiate_within_enough, frame.answers_succ_iff, ?_, ?_⟩
  · intro start visit begins reached
    exact visited_chain_nodup reached begins
  · exact frame.resolve_leaves_no_carrier []

def tangledLiteral : Literal :=
  .mk ⟨"wrap"⟩ false false [.variable "W", .bound "N" (.variable "X")]
    [.ofArguments ⟨"note"⟩ [.variable "Y"]]

/-- `X` and `Y` stand for each other, and `W` for a literal with itself in it. -/
def tangled : Frame :=
  ⟨[("W", some (.literal tangledLiteral)), ("X", some (.variable "Y")),
    ("Y", some (.variable "X"))]⟩

/-- `N` is no slot, so what it carries is followed, and around to `X` again. -/
theorem tangled_resolved :
    tangled.ahead (.term [] (.variable "W")) < 40 ∧
      Relation.ReflTransGen tangled.Visits (.term [] (.variable "W"))
        (.term ["Y", "X", "N", "W"] (.variable "X")) ∧
      ["Y", "X", "N", "W"].Nodup ∧
      tangled.resolve (.variable "W") =
        .literal (.mk ⟨"wrap"⟩ false false [.variable "W", .variable "X"]
          [.ofArguments ⟨"note"⟩ [.variable "Y"]]) := by
  obtain ⟨resolved, -, -, distinct, -⟩ := tangled.resolving_ends
  have enough : tangled.ahead (.term [] (.variable "W")) < 40 := by
    decide
  have reached : Relation.ReflTransGen tangled.Visits (.term [] (.variable "W"))
      (.term ["Y", "X", "N", "W"] (.variable "X")) := by
    apply Relation.ReflTransGen.head (.slot (by decide) rfl)
    apply Relation.ReflTransGen.head (.inner ["W"] tangledLiteral)
    apply Relation.ReflTransGen.head (.argument rfl (.tail _ (.head _)))
    apply Relation.ReflTransGen.head (.carrier (.variable "X") (by decide))
    apply Relation.ReflTransGen.head (.slot (by decide) rfl)
    apply Relation.ReflTransGen.head (.slot (by decide) rfl)
    exact .refl
  refine ⟨enough, reached, distinct _ _ rfl reached, ?_⟩
  have answered := resolved _ _ enough
  exact Option.some.inj (answered.symm.trans rfl)

end Frame

end Deliberation
