/-
Work: what running one loop does, all of it. The calls of the body, the
fault if there is one, and the time it takes are fixed when the loop is
issued; a kernel that is queued does its work when the stream gets to it.
-/
import AdaptiveLoops.Duration
import AdaptiveLoops.Walk

namespace AdaptiveLoops

structure Work where
  calls : Array Call
  fault : Option Fault
  elapsed : Duration
  deriving DecidableEq, Repr

namespace Work

def ofProgress (p : Progress) (elapsed : Duration) : Work :=
  ⟨p.calls, p.fault, elapsed⟩

/-- The tuples passed to the body. -/
def visits (w : Work) : Array Tuple :=
  w.calls.map (·.index)

def failure? (w : Work) : Option String :=
  w.fault.map (·.message)

end Work

end AdaptiveLoops
