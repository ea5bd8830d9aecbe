/-
Documents of the statistics of a region. Means are in nanoseconds. Putting
a candidate into use is not timed, and its time is shown as 0.
-/
import AdaptiveLoops.Policy.Document
import AdaptiveLoops.Stats

namespace AdaptiveLoops

def PolicyStats.document (s : PolicyStats) : Document :=
  .record
    [("policy", s.policy.document),
     ("samples", .int s.samples),
     ("mean_ns", .real s.timing.mean.toFloat),
     ("failures", .int s.failures)]

def VariantInfo.document (v : VariantInfo) : Document :=
  .record
    [("index", .int v.index),
     ("policy", v.policy.document),
     ("launches", .int v.launches),
     ("instantiation_ns", .int 0),
     ("prepared_ranks", .list (v.preparedRanks.map fun (n : Nat) => .int n))]

def RegionStats.document (s : RegionStats) : Document :=
  .record
    [("call_site", .text s.site.text),
     ("invocations", .int s.invocations),
     ("in_flight", .int s.inFlight),
     ("policies", .list (s.policies.map (·.document))),
     ("variants", .list (s.variants.map (·.document)))]

end AdaptiveLoops
