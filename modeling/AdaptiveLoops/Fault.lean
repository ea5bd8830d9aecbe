/-
Faults: what stops a computation in the middle, as opposed to a call that
is refused.
-/
namespace AdaptiveLoops

/-- What a panic carries. -/
inductive Payload where
  /-- A text fixed in the program. -/
  | literal (s : String)
  /-- A text made when the panic happened. -/
  | text (s : String)
  /-- A value that is no text. -/
  | other
  deriving DecidableEq, Repr

def Payload.message : Payload → String
  | .literal s => s
  | .text s => s
  | .other => "loop body panicked"

inductive Fault where
  | panic (payload : Payload)
  /-- A dimension that a space of the given rank does not have. -/
  | noDimension (rank dim : Nat)
  /-- A sum outside the range of its machine integer. -/
  | overflow
  /-- More items than memory can hold. -/
  | noRoom
  deriving DecidableEq, Repr

def Fault.message : Fault → String
  | .panic payload => payload.message
  | .noDimension rank dim => s!"index out of bounds: the len is {rank} but the index is {dim}"
  | .overflow => "attempt to add with overflow"
  | .noRoom => "capacity overflow"

end AdaptiveLoops
