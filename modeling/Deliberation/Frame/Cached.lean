import Deliberation.Frame.Resolve
import Deliberation.Term.Cached

/-!
# Resolving terms that keep their digests

Resolving goes the same way through terms that keep their digests. A literal with an
unbound variable somewhere is given its new arguments and its new annotations, which
computes its digests anew and sorts the annotations again; a ground one is kept whole.
-/

namespace Deliberation

set_option autoImplicit false
set_option linter.unusedVariables false

structure CachedFrame where
  slots : List (String × Option CachedTerm)

namespace CachedFrame

/-- The frame with the content of its terms alone. -/
def plain (frame : CachedFrame) : Frame :=
  ⟨frame.slots.map fun slot => (slot.1, slot.2.map CachedTerm.plain)⟩

def value? (frame : CachedFrame) (name : String) : Option CachedTerm :=
  (frame.slots.find? fun slot => slot.1 = name).bind Prod.snd

theorem plain_value (frame : CachedFrame) (name : String) :
    frame.plain.value? name = (frame.value? name).map CachedTerm.plain := by
  obtain ⟨slots⟩ := frame
  rw [plain, Frame.value?, value?]
  induction slots with
  | nil => rfl
  | cons slot rest ih =>
      obtain ⟨key, content⟩ := slot
      by_cases isName : key = name
      · simp [Frame.findSlot, isName]
      · simpa [Frame.findSlot, isName] using ih

mutual

def resolveFrom (hash : Hasher) (frame : CachedFrame) (chain : List String) :
    CachedTerm → CachedTerm
  | .value raw => .value raw
  | .variable name =>
      if onChain : name ∈ chain then .variable name
      else
        match found : frame.value? name with
        | some content => frame.resolveFrom hash (name :: chain) content
        | none => .variable name
  | .bound name own =>
      if onChain : name ∈ chain then .variable name
      else
        match found : frame.value? name with
        | some content => frame.resolveFrom hash (name :: chain) content
        | none => frame.resolveFrom hash (name :: chain) own
  | .literal inner => .literal (frame.instantiateFrom hash chain inner)
termination_by term => Frame.pendingSize chain frame.plain.slots + term.plain.size
decreasing_by
  · have smaller := Frame.pending_size_enter name chain content.plain frame.plain.slots onChain
      (by rw [← Frame.value?, plain_value, found]; rfl)
    simp only [CachedTerm.plain, Term.size]
    omega
  · have smaller := Frame.pending_size_enter name chain content.plain frame.plain.slots onChain
      (by rw [← Frame.value?, plain_value, found]; rfl)
    simp only [CachedTerm.plain, Term.size]
    omega
  · have smaller := Frame.pending_size_cons_le name chain frame.plain.slots
    simp only [CachedTerm.plain, Term.size]
    omega
  · simp only [CachedTerm.plain, Term.size]
    omega

def instantiateFrom (hash : Hasher) (frame : CachedFrame) (chain : List String) :
    CachedLiteral → CachedLiteral
  | .mk functor negated ordered arguments annotations valueDigest annotationDigest =>
      let whole : CachedLiteral :=
        .mk functor negated ordered arguments annotations valueDigest annotationDigest
      if whole.isGround then whole
      else
        (whole.withArguments hash (frame.resolveAllFrom hash chain arguments)).withAnnotations hash
          (frame.instantiateAllFrom hash chain annotations)
termination_by literal => Frame.pendingSize chain frame.plain.slots + literal.plain.size
decreasing_by
  all_goals simp only [CachedLiteral.plain, Literal.size]
  all_goals omega

def resolveAllFrom (hash : Hasher) (frame : CachedFrame) (chain : List String) :
    List CachedTerm → List CachedTerm
  | [] => []
  | term :: rest =>
      frame.resolveFrom hash chain term :: frame.resolveAllFrom hash chain rest
termination_by terms =>
  Frame.pendingSize chain frame.plain.slots + Term.totalSize (CachedTerm.allPlain terms)
decreasing_by
  all_goals simp only [CachedTerm.allPlain, Term.totalSize]
  all_goals omega

def instantiateAllFrom (hash : Hasher) (frame : CachedFrame) (chain : List String) :
    List CachedLiteral → List CachedLiteral
  | [] => []
  | literal :: rest =>
      frame.instantiateFrom hash chain literal :: frame.instantiateAllFrom hash chain rest
termination_by literals =>
  Frame.pendingSize chain frame.plain.slots + Literal.totalSize (CachedLiteral.allPlain literals)
decreasing_by
  all_goals simp only [CachedLiteral.allPlain, Literal.totalSize]
  all_goals omega

end

def resolve (hash : Hasher) (frame : CachedFrame) (term : CachedTerm) : CachedTerm :=
  frame.resolveFrom hash [] term

def instantiate (hash : Hasher) (frame : CachedFrame) (literal : CachedLiteral) : CachedLiteral :=
  frame.instantiateFrom hash [] literal

end CachedFrame

end Deliberation
