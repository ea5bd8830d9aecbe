/-
The statement tree of a policy and a space.

A host policy gets a plain loop nest. A device policy gets a kernel that
runs the nest for pieces of dimension 0 of the block's length, and then a
barrier. In both the outermost loop carries the policy and the loops inside
it are sequential.
-/
import AdaptiveLoops.IterationSpace
import AdaptiveLoops.Statement.Validation

namespace AdaptiveLoops.Statement

/-- Loops over `count` dimensions from `dim` on, the first under `policy`, around the loop body. -/
def nestFrom (policy : Policy) (dim : Nat) : (count : Nat) → Statement
  | 0 => .call
  | count + 1 => .loop dim policy [nestFrom .sequential (dim + 1) count]

def nest (policy : Policy) (rank : Nat) : Statement :=
  nestFrom policy 0 rank

/-- The tree before it is validated. -/
def ofPolicy (policy : Policy) (rank : Nat) : Statement :=
  match policy with
  | .sequential => nest policy rank
  | .threaded _ => nest policy rank
  | .device block _ => .kernel policy [.segments 0 block [nest policy rank], .barrier]

def build (space : IterationSpace) (policy : Policy) : Except LoopError Statement :=
  match (ofPolicy policy space.rank).validate space.rank with
  | .error e => .error e
  | .ok () => .ok (ofPolicy policy space.rank)

end AdaptiveLoops.Statement
