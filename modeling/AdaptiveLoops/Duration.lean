/-
Lengths of time, in whole nanoseconds.

The longest that can be built holds 2^64 - 1 seconds and 999999999
nanoseconds; `ofParts?` and `sum?` say so when they pass it.
-/
namespace AdaptiveLoops

structure Duration where
  nanos : Nat
  deriving DecidableEq, Repr

namespace Duration

def nanosPerSecond : Nat := 1000000000

/-- What building a length of time past the longest one is refused with. -/
inductive Overflow where
  | parts
  | sum
  deriving DecidableEq, Repr

def Overflow.message : Overflow → String
  | .parts => "overflow in Duration::new"
  | .sum => "overflow in iter::sum over durations"

def zero : Duration := ⟨0⟩

def longest : Duration := ⟨(UInt64.size - 1) * nanosPerSecond + (nanosPerSecond - 1)⟩

def ofNanos (n : Nat) : Duration := ⟨n⟩

/-- Seconds and nanoseconds, where a second's worth of nanoseconds carries. -/
def ofParts? (seconds nanos : Nat) : Except Overflow Duration :=
  let total := seconds * nanosPerSecond + nanos
  if total ≤ longest.nanos then .ok ⟨total⟩ else .error .parts

def add (a b : Duration) : Duration := ⟨a.nanos + b.nanos⟩

instance : Add Duration := ⟨add⟩

/-- The sum, refused at the first partial sum past the longest. -/
def sum? : List Duration → Except Overflow Duration :=
  List.foldlM (fun acc d => if (acc + d).nanos ≤ longest.nanos then .ok (acc + d) else .error .sum)
    zero

end Duration

end AdaptiveLoops
