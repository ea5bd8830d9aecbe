/-
Statement trees: how a loop nest is cut into work for a backend.

A tree depends on the policy and on the rank of the space alone; extents
are read from the space when the tree runs. `loop` runs its body for every
index of a dimension, `segments` for every piece of one, `kernel` bounds
what one device launch runs, `barrier` orders what stands around it, and
`call` passes the current index tuple to the loop body.
-/
import AdaptiveLoops.Error

namespace AdaptiveLoops

inductive Statement where
  | loop (dim : Nat) (policy : Policy) (body : List Statement)
  | kernel (policy : Policy) (body : List Statement)
  | segments (dim : Nat) (length : UInt64) (body : List Statement)
  | barrier
  | call
  deriving Repr, Inhabited

namespace Statement

def children : Statement → List Statement
  | .loop _ _ body => body
  | .kernel _ body => body
  | .segments _ _ body => body
  | .barrier => []
  | .call => []

mutual

/-- The number of nodes on the longest way down. -/
def depth : Statement → Nat
  | .loop _ _ body => 1 + depthBelow body
  | .kernel _ body => 1 + depthBelow body
  | .segments _ _ body => 1 + depthBelow body
  | .barrier => 1
  | .call => 1

def depthBelow : List Statement → Nat
  | [] => 0
  | s :: rest => max (depth s) (depthBelow rest)

end

end Statement

end AdaptiveLoops
