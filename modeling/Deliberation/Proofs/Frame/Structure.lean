import Deliberation.Frame.Resolve
import Deliberation.Proofs.Term.Structure

/-!
# Induction over resolving

Resolving goes into the parts of a term under the same chain, and from a variable into
its slot or into what it carries, with its name on the chain. The principle has one case
for each of these steps, so that what is shown of every step holds of all that is resolved.
-/

namespace Deliberation

set_option autoImplicit false

/-- What a property of terms under a chain has to satisfy at each step of resolving. -/
structure InductiveResolution (frame : Frame) (onTerm : List String → Term → Prop)
    (onLiteral : List String → Literal → Prop) : Prop where
  value : ∀ chain raw, onTerm chain (.value raw)
  stopped : ∀ chain name, name ∈ chain → onTerm chain (.variable name)
  followed : ∀ chain name content, name ∉ chain → frame.value? name = some content →
    onTerm (name :: chain) content → onTerm chain (.variable name)
  free : ∀ chain name, name ∉ chain → frame.value? name = none → onTerm chain (.variable name)
  carrierStopped : ∀ chain name own, name ∈ chain → onTerm chain (.bound name own)
  carrierFollowed : ∀ chain name own content, name ∉ chain → frame.value? name = some content →
    onTerm (name :: chain) content → onTerm chain (.bound name own)
  carrierOpened : ∀ chain name own, name ∉ chain → frame.value? name = none →
    onTerm (name :: chain) own → onTerm chain (.bound name own)
  nested : ∀ chain inner, onLiteral chain inner → onTerm chain (.literal inner)
  literal : ∀ chain functor negated ordered arguments annotations,
    (∀ term ∈ arguments, onTerm chain term) → (∀ note ∈ annotations, onLiteral chain note) →
      onLiteral chain (.mk functor negated ordered arguments annotations)

namespace InductiveResolution

variable {frame : Frame} {onTerm : List String → Term → Prop}
  {onLiteral : List String → Literal → Prop}

theorem holds_within (property : InductiveResolution frame onTerm onLiteral) (budget : Nat) :
    (∀ term chain, Frame.pendingSize chain frame.slots ≤ budget → onTerm chain term) ∧
      ∀ inner chain, Frame.pendingSize chain frame.slots ≤ budget → onLiteral chain inner := by
  -- Entering a slot spends some of what is pending; everything else goes to a part.
  induction budget using Nat.strongRecOn with
  | ind budget entered =>
      have slots {chain : List String} {name : String} {content : Term} (fresh : name ∉ chain)
          (found : frame.value? name = some content)
          (within : Frame.pendingSize chain frame.slots ≤ budget) :
          onTerm (name :: chain) content := by
        have spent := Frame.pending_size_enter name chain content frame.slots fresh found
        exact (entered (Frame.pendingSize (name :: chain) frame.slots) (by omega)).1
          content (name :: chain) (Nat.le_refl _)
      apply InductiveProperty.holds
      constructor
      case value =>
        intro raw chain _
        exact property.value chain raw
      case free =>
        intro name chain within
        by_cases onChain : name ∈ chain
        · exact property.stopped chain name onChain
        · cases found : frame.value? name with
          | none => exact property.free chain name onChain found
          | some content =>
              exact property.followed chain name content onChain found (slots onChain found within)
      case carrying =>
        intro name own ih chain within
        by_cases onChain : name ∈ chain
        · exact property.carrierStopped chain name own onChain
        · cases found : frame.value? name with
          | none =>
              have smaller := Frame.pending_size_cons_le name chain frame.slots
              exact property.carrierOpened chain name own onChain found
                (ih (name :: chain) (Nat.le_trans smaller within))
          | some content =>
              exact property.carrierFollowed chain name own content onChain found
                (slots onChain found within)
      case nested =>
        intro inner ih chain within
        exact property.nested chain inner (ih chain within)
      case literal =>
        intro functor negated ordered arguments annotations ofArguments ofNotes chain within
        apply property.literal
        · exact fun term member => ofArguments term member chain within
        · exact fun note member => ofNotes note member chain within

theorem holds (property : InductiveResolution frame onTerm onLiteral) (chain : List String) :
    (∀ term, onTerm chain term) ∧ ∀ inner, onLiteral chain inner := by
  obtain ⟨onTerms, onLiterals⟩ :=
    property.holds_within (Frame.pendingSize chain frame.slots)
  exact ⟨fun term => onTerms term chain (Nat.le_refl _),
    fun inner => onLiterals inner chain (Nat.le_refl _)⟩

end InductiveResolution

end Deliberation
