/-
Documents of the stream's counters.
-/
import AdaptiveLoops.Device.Metrics
import AdaptiveLoops.Document

namespace AdaptiveLoops.Device

def MetricsReading.document (r : MetricsReading) : Document :=
  .record
    [("launched", .int r.launched),
     ("completed", .int r.completed),
     ("failed", .int r.failed),
     ("in_flight", .int r.inFlight)]

end AdaptiveLoops.Device
