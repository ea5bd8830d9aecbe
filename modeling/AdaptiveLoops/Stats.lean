/-
Statistics of a region: for every candidate the samples, their mean and the
failures, and for every candidate that was used its launches and the ranks
it has trees for.
-/
import AdaptiveLoops.CallSite
import AdaptiveLoops.Fault
import AdaptiveLoops.Policy
import AdaptiveLoops.RunningMean

namespace AdaptiveLoops

structure PolicyStats where
  policy : Policy
  timing : RunningMean
  failures : Nat

namespace PolicyStats

def ofPolicy (policy : Policy) : PolicyStats := ⟨policy, .zero, 0⟩

def samples (s : PolicyStats) : Nat := s.timing.count

def record (s : PolicyStats) (elapsed : Duration) : PolicyStats :=
  { s with timing := s.timing.push elapsed }

/-- `record` for counters of 64 bits, which the last sample must not pass. -/
def record? (s : PolicyStats) (elapsed : Duration) : Except Fault PolicyStats :=
  if s.samples + 1 < UInt64.size then .ok (s.record elapsed) else .error .overflow

def fail (s : PolicyStats) : PolicyStats :=
  { s with failures := s.failures + 1 }

end PolicyStats

/-- A candidate that was used at least once. -/
structure VariantInfo where
  index : Nat
  policy : Policy
  launches : Nat
  preparedRanks : List Nat
  deriving DecidableEq, Repr

structure RegionStats where
  site : CallSite
  invocations : Nat
  inFlight : Nat
  policies : List PolicyStats
  variants : List VariantInfo

namespace RegionStats

def ofPolicies (site : CallSite) (policies : List Policy) : RegionStats :=
  ⟨site, 0, 0, policies.map .ofPolicy, []⟩

def get? (s : RegionStats) (index : Nat) : Option PolicyStats :=
  s.policies[index]?

/-- Changes the entry of one candidate, if there is one. -/
def modify (s : RegionStats) (index : Nat) (change : PolicyStats → PolicyStats) : RegionStats :=
  { s with policies := s.policies.modify index change }

def totalSamples (s : RegionStats) : Nat :=
  s.policies.foldr (fun p total => p.samples + total) 0

/-- `totalSamples` for a counter of 64 bits. -/
def totalSamples? (s : RegionStats) : Except Fault Nat :=
  if s.totalSamples < UInt64.size then .ok s.totalSamples else .error .overflow

/-- The better of the best candidate so far and the one at `index`. -/
def better (best : Option (Nat × Binary64)) (index : Nat) (entry : PolicyStats) : Option (Nat × Binary64) :=
  if entry.samples = 0 then best
  else
    match best with
    | none => some (index, entry.timing.mean)
    | some (b, mean) =>
      if entry.timing.mean.order < mean.order then some (index, entry.timing.mean)
      else some (b, mean)

def fastestFrom (best : Option (Nat × Binary64)) (index : Nat) : List PolicyStats → Option Nat
  | [] => best.map (·.1)
  | entry :: rest => fastestFrom (better best index entry) (index + 1) rest

/-- The first candidate of smallest mean among those that have a sample. -/
def fastest? (s : RegionStats) : Option Nat :=
  fastestFrom none 0 s.policies

end RegionStats

end AdaptiveLoops
