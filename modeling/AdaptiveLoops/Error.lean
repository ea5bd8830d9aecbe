/-
What can go wrong when loops are described, dispatched and collected, and
how each cause is worded.
-/
import AdaptiveLoops.CallSite
import AdaptiveLoops.Policy.Text
import AdaptiveLoops.Segment

namespace AdaptiveLoops

/-- What is wrong with a statement tree. -/
inductive TreeFault where
  | loopOutside (dim rank : Nat)
  | loopNotInside (dim outer : Nat)
  | segmentsOutside (dim rank : Nat)
  | emptySegments
  | noKernelAtRoot
  deriving DecidableEq, Repr

def TreeFault.message : TreeFault → String
  | .loopOutside dim rank => s!"loop over dimension {dim} in a rank {rank} space"
  | .loopNotInside dim outer => s!"loop over dimension {dim} nested inside dimension {outer}"
  | .segmentsOutside dim rank => s!"segments over dimension {dim} in a rank {rank} space"
  | .emptySegments => "zero-length segments"
  | .noKernelAtRoot => "device policy needs a kernel boundary at the root"

/-- What is wrong with a configuration. -/
inductive ConfigFault where
  | noPoolCapacity
  | noHostThreads
  | noDeviceComputeUnits
  deriving DecidableEq, Repr

def ConfigFault.message : ConfigFault → String
  | .noPoolCapacity => "pool_capacity must be at least 1"
  | .noHostThreads => "host_threads must be at least 1"
  | .noDeviceComputeUnits => "device_compute_units must be at least 1"

/-- Why a call was refused, or a launch failed. -/
inductive LoopError where
  | poolExhausted (site : CallSite) (capacity : Nat)
  | backendFailure (backend : Backend) (message : String)
  | invalidSegment (position : Nat) (segment : Segment)
  | emptyIterationSpace
  | emptyPolicyList (site : CallSite)
  | policyListMismatch (site : CallSite) (expected found : List Policy)
  | invalidStatementTree (fault : TreeFault)
  | slotNotInFlight (slot : Nat)
  | slotBusy (slot : Nat)
  | streamClosed
  | config (fault : ConfigFault)
  /-- A model picked a candidate that the list does not have: a defect, not a refusal. -/
  | pickOutOfRange (site : CallSite) (pick candidates : Nat)
  /-- A pool of more slots than memory can address: a defect, not a refusal. -/
  | poolTooLarge (capacity : Nat)
  deriving DecidableEq, Repr

namespace LoopError

def message : LoopError → String
  | .poolExhausted site capacity =>
    s!"async completion pool for `{site.text}` exhausted ({capacity} slots in flight)"
  | .backendFailure backend message => s!"{backend.text} backend failed: {message}"
  | .invalidSegment position segment =>
    s!"segment {position} has begin {segment.begin.toInt} past end {segment.stop.toInt}"
  | .emptyIterationSpace => "iteration space has no dimensions"
  | .emptyPolicyList site => s!"kernel at `{site.text}` was invoked without candidate policies"
  | .policyListMismatch site expected found =>
    "kernel at `" ++ site.text ++ "` was registered with " ++ Policy.listing expected
      ++ " but invoked with " ++ Policy.listing found
  | .invalidStatementTree fault => s!"invalid statement tree: {fault.message}"
  | .slotNotInFlight slot => s!"async slot {slot} is not in flight"
  | .slotBusy slot => s!"async slot {slot} still has an outstanding launch"
  | .streamClosed => "device stream is shut down"
  | .config fault => s!"invalid configuration: {fault.message}"
  | .pickOutOfRange site pick candidates =>
    s!"policy model picked candidate {pick} of {candidates} at `{site.text}`"
  | .poolTooLarge _ => "capacity overflow"

def isPoolExhausted : LoopError → Bool
  | .poolExhausted _ _ => true
  | _ => false

/-- Whether the program stops instead of refusing one call. -/
def isDefect : LoopError → Bool
  | .pickOutOfRange _ _ _ => true
  | .poolTooLarge _ => true
  | _ => false

end LoopError

end AdaptiveLoops
