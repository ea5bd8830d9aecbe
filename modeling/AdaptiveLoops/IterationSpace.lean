/-
Iteration spaces: one segment for each dimension, outermost first.

A space that was built has a dimension and no segment the wrong way round;
one that was read from a document may be any list of segments. `length` is
the number of index tuples, which stays at 2^64 - 1 when it would pass it.
-/
import AdaptiveLoops.Error

namespace AdaptiveLoops

structure IterationSpace where
  segments : List Segment
  deriving DecidableEq, Repr

namespace IterationSpace

/-- The first segment that begins past its end, with its position. -/
def firstInverted? : (position : Nat) → List Segment → Option (Nat × Segment)
  | _, [] => none
  | position, s :: rest =>
    if s.stop < s.begin then some (position, s) else firstInverted? (position + 1) rest

def ofSegments (segments : List Segment) : Except LoopError IterationSpace :=
  if segments.isEmpty then .error .emptyIterationSpace
  else
    match firstInverted? 0 segments with
    | some (position, segment) => .error (.invalidSegment position segment)
    | none => .ok ⟨segments⟩

def ofBounds (bounds : List (Int64 × Int64)) : Except LoopError IterationSpace :=
  ofSegments (bounds.map fun b => ⟨b.1, b.2⟩)

/--
The space that starts at 0 in every dimension. An extent is read as a
signed number, so one of 2^63 or more ends before 0 and is refused.
-/
def ofExtents (extents : List UInt64) : Except LoopError IterationSpace :=
  ofBounds (extents.map fun e => (0, e.toInt64))

def rank (s : IterationSpace) : Nat :=
  s.segments.length

def segment? (s : IterationSpace) (dim : Nat) : Option Segment :=
  s.segments[dim]?

/-- The largest number `length` can give. -/
def maxLength : Nat := UInt64.size - 1

def length (s : IterationSpace) : Nat :=
  s.segments.foldl (fun acc segment => min (acc * segment.length) maxLength) 1

def isEmpty (s : IterationSpace) : Bool :=
  s.segments.any (·.isEmpty)

end IterationSpace

end AdaptiveLoops
