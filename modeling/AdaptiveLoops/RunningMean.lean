/-
Running means of elapsed times, in nanoseconds. Statistics and models keep
their means with the same step.
-/
import AdaptiveLoops.Binary64
import AdaptiveLoops.Duration

namespace AdaptiveLoops

structure RunningMean where
  count : Nat
  mean : Binary64
  deriving DecidableEq, Repr

namespace RunningMean

def zero : RunningMean := ⟨0, .zero⟩

instance : Inhabited RunningMean := ⟨zero⟩

/-- One more time: the mean moves by its share of the difference. -/
def push (m : RunningMean) (elapsed : Duration) : RunningMean :=
  { count := m.count + 1
    mean := m.mean + (.ofNat elapsed.nanos - m.mean) / .ofNat (m.count + 1) }

/-- The mean to the nearest nanosecond, halves up, from 0 to 2^64 - 1. -/
def duration (m : RunningMean) : Duration :=
  let mean := m.mean.toFloat
  let atLeastZero := if mean > 0.0 then mean else 0.0
  ⟨atLeastZero.round.toUInt64.toNat⟩

@[simp] theorem count_push (m : RunningMean) (elapsed : Duration) :
    (m.push elapsed).count = m.count + 1 := rfl

end RunningMean

end AdaptiveLoops
