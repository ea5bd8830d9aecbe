/-
Where the nodes of a statement tree stand.

A position is a node together with the nodes that it stands below, through
however many nodes between. `positions` lists those of a tree in pre-order:
a node before its children, and the children from left to right.
-/
import AdaptiveLoops.Statement

namespace AdaptiveLoops.Statement

/-- The dimension and the policy of a loop. -/
def loop? : Statement → Option (Nat × Policy)
  | .loop dim policy _ => some (dim, policy)
  | _ => none

def isCall : Statement → Bool
  | .call => true
  | _ => false

/-- A node of a tree, below other nodes of it, the nearest of them first. -/
structure Position where
  above : List Statement
  node : Statement

/-- The loops around a node, the nearest first. -/
def Position.loops (p : Position) : List (Nat × Policy) :=
  p.above.filterMap loop?

mutual

/-- The nodes of a tree that stands below `above`, in pre-order. -/
def positionsBelow (above : List Statement) : Statement → List Position
  | .loop dim policy body =>
    ⟨above, .loop dim policy body⟩ :: positionsOfAll (.loop dim policy body :: above) body
  | .kernel policy body => ⟨above, .kernel policy body⟩ :: positionsOfAll (.kernel policy body :: above) body
  | .segments dim length body =>
    ⟨above, .segments dim length body⟩ :: positionsOfAll (.segments dim length body :: above) body
  | .barrier => [⟨above, .barrier⟩]
  | .call => [⟨above, .call⟩]

def positionsOfAll (above : List Statement) : List Statement → List Position
  | [] => []
  | s :: rest => positionsBelow above s ++ positionsOfAll above rest

end

def positions (s : Statement) : List Position :=
  positionsBelow [] s

theorem positionsBelow_eq (above : List Statement) (s : Statement) :
    positionsBelow above s = ⟨above, s⟩ :: positionsOfAll (s :: above) s.children := by
  cases s <;> simp [positionsBelow, children, positionsOfAll]

/-! ## Induction -/

mutual

theorem induction_children {motive : List Statement → Prop} (nil : motive [])
    (cons : ∀ s rest, motive s.children → motive rest → motive (s :: rest)) : ∀ s : Statement, motive s.children
  | .loop _ _ body => forest_induction nil cons body
  | .kernel _ body => forest_induction nil cons body
  | .segments _ _ body => forest_induction nil cons body
  | .barrier => nil
  | .call => nil

/-- What holds of no statements, and of a first one with the rest where it holds of its children and of the
rest, holds of all lists of statements. -/
theorem forest_induction {motive : List Statement → Prop} (nil : motive [])
    (cons : ∀ s rest, motive s.children → motive rest → motive (s :: rest)) : ∀ ss : List Statement, motive ss
  | [] => nil
  | s :: rest => cons s rest (induction_children nil cons s) (forest_induction nil cons rest)

end

end AdaptiveLoops.Statement
