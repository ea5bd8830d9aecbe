/-
The program: reads its words and its environment, measures, and writes
what the command line responds.
-/
import AdaptiveLoops.CommandLine

namespace AdaptiveLoops.CommandLine

/-- The time on the machine's clock. -/
def clockTime : IO Duration := do
  pure (.ofNanos (← IO.monoNanosNow))

/-- The time that the next invocation of a bench takes, found by running its loop once. -/
def measured (b : Bench AnyModel) (schedule : Schedule) : IO Duration := do
  let start ← clockTime
  let result ← IO.lazyPure fun () => (b.invoke ⟨schedule, .zero⟩).2
  let stop ← clockTime
  match result with
  | .ok _ => pure (.ofNanos (stop.nanos - start.nanos))
  | .error _ => pure .zero

/-- A machine on which one queued kernel is done whenever the next invocation begins. -/
def thisMachine : Machine IO where
  cores := 1
  clock := clockTime
  tick _ b := do
    let schedule := Schedule.halving b.registry.hostThreads
    let elapsed ← measured (b.progress 1) schedule
    pure ⟨1, ⟨schedule, elapsed⟩, ⟨schedule, elapsed⟩⟩

/-- The variables of the environment that are set. -/
def environment : IO (List (String × String)) := do
  let values ← Config.overridable.mapM fun v => do
    pure ((← IO.getEnv v.name).map (v.name, ·))
  pure (values.filterMap id)

end AdaptiveLoops.CommandLine

open AdaptiveLoops.CommandLine in
def main (words : List String) : IO UInt32 := do
  let given ← environment
  let response ← respond thisMachine (given.lookup ·) words
  IO.print response.output
  IO.eprint response.errors
  pure response.exit
