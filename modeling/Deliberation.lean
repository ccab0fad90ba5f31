import Deliberation.Agent
import Deliberation.Double.Reading
import Deliberation.Proofs.Aggregation
import Deliberation.Proofs.Belief.Contents
import Deliberation.Proofs.Call.Answers
import Deliberation.Proofs.Call.Assignment
import Deliberation.Proofs.Call.Candidates
import Deliberation.Proofs.Call.Confinement
import Deliberation.Proofs.Call.Depth
import Deliberation.Proofs.Call.Faults
import Deliberation.Proofs.Call.Reach
import Deliberation.Proofs.Call.ReadOnly
import Deliberation.Proofs.Call.Series
import Deliberation.Proofs.Call.Started
import Deliberation.Proofs.Double.Sign
import Deliberation.Proofs.Frame.Acyclic
import Deliberation.Proofs.Frame.Assignment
import Deliberation.Proofs.Frame.Carried
import Deliberation.Proofs.Frame.Instantiation
import Deliberation.Proofs.Frame.Resolving
import Deliberation.Proofs.Frame.Slots
import Deliberation.Proofs.Frame.Structure
import Deliberation.Proofs.Match.Assignment
import Deliberation.Proofs.Match.Candidates
import Deliberation.Proofs.Match.Completeness
import Deliberation.Proofs.Match.Ground
import Deliberation.Proofs.Match.Generality
import Deliberation.Proofs.Match.Head
import Deliberation.Proofs.Match.History
import Deliberation.Proofs.Match.Offers
import Deliberation.Proofs.Match.Query
import Deliberation.Proofs.Match.ReadBack
import Deliberation.Proofs.Match.Selection
import Deliberation.Proofs.Match.Substitution
import Deliberation.Proofs.Rule.Index
import Deliberation.Proofs.Rule.Linking
import Deliberation.Proofs.Score.Reentry
import Deliberation.Proofs.Score.Stack
import Deliberation.Proofs.Score.Termination
import Deliberation.Proofs.StableSort
import Deliberation.Proofs.Step.Assignment
import Deliberation.Proofs.Step.Body
import Deliberation.Proofs.Step.Linked
import Deliberation.Proofs.Step.Plain
import Deliberation.Proofs.Step.Structure
import Deliberation.Proofs.Term.Assigned
import Deliberation.Proofs.Term.Leaves
import Deliberation.Proofs.Term.Plain
import Deliberation.Proofs.Term.Same
import Deliberation.Proofs.Term.Structure
import Deliberation.Proofs.Term.Substitution
import Deliberation.Proofs.Belief.Ledger
import Deliberation.Proofs.Belief.Buckets
import Deliberation.Proofs.Belief.Refinement
import Deliberation.Proofs.Call.Composition
import Deliberation.Proofs.Call.Output
import Deliberation.Proofs.Call.Parameters
import Deliberation.Proofs.Call.Wrapper
import Deliberation.Proofs.Call.Isolation
import Deliberation.Proofs.Call.Agreement
import Deliberation.Proofs.Frame.Idempotence
import Deliberation.Proofs.Step.Nesting
import Deliberation.Proofs.Belief.Invariant
import Deliberation.Proofs.Call.Ranking
import Deliberation.Proofs.Frame.Termination
import Deliberation.Proofs.Score.Acyclic
import Deliberation.Proofs.Term.Shape
import Deliberation.Frame.Cached
import Deliberation.Proofs.Frame.Annotations
import Deliberation.Proofs.Frame.Cached
import Deliberation.Proofs.Frame.Digests
import Deliberation.Proofs.Frame.Bucket
import Deliberation.Proofs.Expression.Exact
import Deliberation.Proofs.Expression.Quotient
import Deliberation.Proofs.Double.Rounding
import Deliberation.Proofs.Double.Widening
import Deliberation.Proofs.Expression.Comparison
import Deliberation.Proofs.Expression.Strict
import Deliberation.Proofs.Belief.Places
import Deliberation.Proofs.Call.Counting
import Deliberation.Proofs.Truth.Grouping
import Deliberation.Proofs.Truth.Distribution
import Deliberation.Proofs.Double.Complement
import Deliberation.Proofs.Truth.Range
import Deliberation.Proofs.Path
import Deliberation.Proofs.Term.Descent
import Deliberation.Proofs.Call.Unscheduled
