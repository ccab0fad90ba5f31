import Deliberation.Double.Order

/-!
# Aggregation of scores

Sums run from the left and start at the negative zero, which is the neutral
element of addition. The largest and the smallest score pass over NaN unless
there is nothing else; of two equal scores the earlier stays. Any other way to
combine scores may be given to an agent as a function.
-/

namespace Deliberation

set_option autoImplicit false

inductive Aggregation where
  | sum
  | max
  | min
  | mean
  | custom (combine : List Float → Float)

namespace Aggregation

def total (scores : List Float) : Float :=
  scores.foldl (· + ·) (-0.0)

def larger (kept next : Float) : Float :=
  if Double.isNaN kept then next
  else if Double.compare? kept next = some .lt then next
  else kept

def smaller (kept next : Float) : Float :=
  if Double.isNaN kept then next
  else if Double.compare? kept next = some .gt then next
  else kept

/-- No scores give 0. -/
def extreme (choose : Float → Float → Float) : List Float → Float
  | [] => 0
  | first :: rest => rest.foldl choose first

def evaluate : Aggregation → List Float → Float
  | .sum, scores => total scores
  | .max, scores => extreme larger scores
  | .min, scores => extreme smaller scores
  | .mean, [] => 0
  | .mean, scores => total scores / Float.ofNat scores.length
  | .custom combine, scores => combine scores

end Aggregation

end Deliberation
