/-
Which statement trees fit a space of a given rank.

Every dimension is one of the space, no piece has length zero, and a loop
stands only inside loops over smaller dimensions. Nodes are looked at
parents first and from left to right, and the first fault is reported; a
loop's own dimension comes before its nesting.
-/
import AdaptiveLoops.Statement

namespace AdaptiveLoops.Statement

/-- What is wrong with a loop over `dim` inside a loop over `enclosing`, its body apart. -/
def checkLoop (rank : Nat) (enclosing : Option Nat) (dim : Nat) : Except TreeFault Unit :=
  if rank ≤ dim then .error (.loopOutside dim rank)
  else
    match enclosing with
    | none => .ok ()
    | some outer => if dim ≤ outer then .error (.loopNotInside dim outer) else .ok ()

/-- What is wrong with pieces of `length` of `dim`, their body apart. -/
def checkSegments (rank dim : Nat) (length : UInt64) : Except TreeFault Unit :=
  if rank ≤ dim then .error (.segmentsOutside dim rank)
  else if length = 0 then .error .emptySegments
  else .ok ()

mutual

def checkBelow (rank : Nat) (enclosing : Option Nat) : Statement → Except TreeFault Unit
  | .loop dim _ body =>
    match checkLoop rank enclosing dim with
    | .error e => .error e
    | .ok () => checkAllBelow rank (some dim) body
  | .kernel _ body => checkAllBelow rank enclosing body
  | .segments dim length body =>
    match checkSegments rank dim length with
    | .error e => .error e
    | .ok () => checkAllBelow rank enclosing body
  | .barrier => .ok ()
  | .call => .ok ()

def checkAllBelow (rank : Nat) (enclosing : Option Nat) : List Statement → Except TreeFault Unit
  | [] => .ok ()
  | s :: rest =>
    match checkBelow rank enclosing s with
    | .error e => .error e
    | .ok () => checkAllBelow rank enclosing rest

end

def check (s : Statement) (rank : Nat) : Except TreeFault Unit :=
  checkBelow rank none s

def validate (s : Statement) (rank : Nat) : Except LoopError Unit :=
  (s.check rank).mapError .invalidStatementTree

end AdaptiveLoops.Statement
