/-
Counters of a device stream: launches accepted, kernels finished, kernels
that failed, and the number in flight. A reading never shows a negative
number in flight.

The counters are updated one at a time, and read one at a time. To record a
launch or a completion takes several updates, and nothing keeps a reader
from loading a counter between two of them.
-/
namespace AdaptiveLoops.Device

structure Metrics where
  launched : Nat
  completed : Nat
  failed : Nat
  inFlight : Int
  deriving DecidableEq, Repr

/-- What a reader of the counters sees. -/
structure MetricsReading where
  launched : Nat
  completed : Nat
  failed : Nat
  inFlight : Nat
  deriving DecidableEq, Repr

namespace Metrics

def zero : Metrics := ⟨0, 0, 0, 0⟩

/-! ## Updates of one counter -/

def countLaunched (m : Metrics) : Metrics :=
  { m with launched := m.launched + 1 }

def countCompleted (m : Metrics) : Metrics :=
  { m with completed := m.completed + 1 }

def countFailed (m : Metrics) : Metrics :=
  { m with failed := m.failed + 1 }

def enterFlight (m : Metrics) : Metrics :=
  { m with inFlight := m.inFlight + 1 }

def leaveFlight (m : Metrics) : Metrics :=
  { m with inFlight := m.inFlight - 1 }

/-! ## Records -/

def recordLaunch (m : Metrics) : Metrics :=
  m.countLaunched.enterFlight

def recordCompletion (m : Metrics) (failed : Bool) : Metrics :=
  let m := m.countCompleted
  let m := if failed then m.countFailed else m
  m.leaveFlight

/-! ## Readings -/

/-- What the four loads of a reading show, each of the counters as they are at its moment. -/
def load (atLaunched atCompleted atFailed atInFlight : Metrics) : MetricsReading :=
  ⟨atLaunched.launched, atCompleted.completed, atFailed.failed, atInFlight.inFlight.toNat⟩

/-- A reading while nothing is counted. -/
def read (m : Metrics) : MetricsReading :=
  load m m m m

end Metrics

end AdaptiveLoops.Device
