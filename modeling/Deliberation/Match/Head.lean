import Deliberation.Frame.Basic
import Deliberation.Term.Digest
import Deliberation.Term.Equality

/-!
# Matching rule heads

A head and a call of one functor, sign and value digest are paired leaf by leaf.
Where digests agree by chance and the shapes do not, the leaves that one of them
has more stay unpaired. An unbound variable of the call becomes an export,
answered later by the leaf of the head. An unbound variable of the head is bound
to the leaf of the call and must meet the same leaf wherever it returns. Two raw
values must be the same; no other pair is compared.
-/

namespace Deliberation

set_option autoImplicit false

structure HeadMatch where
  bindings : Bindings
  exports : Bindings

def findBinding (name : String) : Bindings → Option Term
  | [] => none
  | (key, term) :: rest => if key = name then some term else findBinding name rest

def valuesClash : Term → Term → Bool
  | .value left, .value right => !left.same right
  | _, _ => false

namespace HeadMatch

def empty : HeadMatch := ⟨[], []⟩

def meet? (found : HeadMatch) (pattern call : Term) : Option HeadMatch :=
  match call.unbound? with
  | some name => some { found with exports := found.exports ++ [(name, pattern)] }
  | none =>
      match pattern.unbound? with
      | some name =>
          match findBinding name found.bindings with
          | some earlier => if earlier.same call then some found else none
          | none => some { found with bindings := found.bindings ++ [(name, call)] }
      | none => if valuesClash pattern call then none else some found

def meetAll? : List (Term × Term) → HeadMatch → Option HeadMatch
  | [], found => some found
  | (pattern, call) :: rest, found =>
      match found.meet? pattern call with
      | some next => meetAll? rest next
      | none => none

end HeadMatch

def Literal.matchHead? (pattern call : Literal) : Option HeadMatch :=
  if pattern.functor = call.functor ∧ pattern.negated = call.negated ∧
      pattern.matchesValue .rotating call = true then
    HeadMatch.meetAll? (pattern.argumentLeaves.zip call.argumentLeaves) .empty
  else none

end Deliberation
