/-
Features of a loop, what a model learns times by: the number of indices of
every dimension. Sizes are told apart by the power of two they reach.
-/
import AdaptiveLoops.IterationSpace

namespace AdaptiveLoops

abbrev Features := List Float

namespace Features

def ofSpace (space : IterationSpace) : Features :=
  space.segments.map fun s => Float.ofNat s.length

/-- 0 below 1, and one more than the whole part of the binary logarithm from 1 on. -/
def sizeClass (count : Float) : Nat :=
  if count < 1.0 then 0 else count.log2.floor.toUInt32.toNat + 1

/-- The size class of every dimension. -/
def bucket (f : Features) : List Nat :=
  f.map sizeClass

end Features

end AdaptiveLoops
