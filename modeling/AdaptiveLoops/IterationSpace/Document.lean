/-
Spaces in documents: a record with the list of segments, each a record of
its two ends. A reader takes the segments as they are, without the checks
of `IterationSpace.ofSegments`, and takes no notice of further fields.
-/
import AdaptiveLoops.IterationSpace
import AdaptiveLoops.Document

namespace AdaptiveLoops

def Segment.document (s : Segment) : Document :=
  .record [("begin", .int s.begin.toInt), ("end", .int s.stop.toInt)]

def Segment.ofDocument? (d : Document) : Option Segment :=
  ((d.field? "begin").bind (·.index?)).bind fun first =>
    ((d.field? "end").bind (·.index?)).map fun stop => ⟨first, stop⟩

def IterationSpace.ofDocument? (d : Document) : Option IterationSpace :=
  ((d.field? "segments").bind (·.items?)).bind fun items =>
    (items.mapM Segment.ofDocument?).map IterationSpace.mk

end AdaptiveLoops
