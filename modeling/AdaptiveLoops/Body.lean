/-
Loop bodies. A body gets the tuple of the current indices and either
returns or panics with a payload.

A body may do otherwise on a tuple that it gets again, so what it does is a
matter of the call, and calls are told apart by where in the walk they are
made. `LoopBody` is a body that goes by the tuple alone.
-/
import AdaptiveLoops.Fault
import AdaptiveLoops.Schedule

namespace AdaptiveLoops

/-- The indices of one iteration, outermost first. -/
abbrev Tuple := List Int

/-- A call of the body: the way down to it, and the tuple that is passed. -/
structure Call where
  path : Path
  index : Tuple
  deriving DecidableEq, Repr

/-- The payload a body panics with at a call, or none where it returns. -/
abbrev Body := Call → Option Payload

/-- The payload a body panics with on a tuple, or none where it returns. -/
abbrev LoopBody := Tuple → Option Payload

instance : Coe LoopBody Body := ⟨fun body call => body call.index⟩

end AdaptiveLoops
