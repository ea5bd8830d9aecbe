/-
Profiles: the phases of a run and how long each took, in order.
-/
import AdaptiveLoops.Duration

namespace AdaptiveLoops

structure Phase where
  name : String
  duration : Duration
  deriving DecidableEq, Repr

abbrev Profile := List Phase

namespace Profile

def push (p : Profile) (name : String) (duration : Duration) : Profile :=
  p ++ [⟨name, duration⟩]

def total? (p : Profile) : Except Duration.Overflow Duration :=
  Duration.sum? (p.map (·.duration))

end Profile

end AdaptiveLoops
