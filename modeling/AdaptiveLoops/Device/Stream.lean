/-
The device stream: kernels run one at a time, in launch order.

A launch goes to the queue of incoming kernels. The stream's one worker
takes kernels from there a batch at a time, the first to run at once and
the rest to its own queue, which it empties before it looks for a new
batch. After a shutdown launches are refused, what is queued still runs,
and then the worker leaves.

`step` is one step of the worker, and does nothing where that step is not
possible. A kernel is first marked as started, then counted, one counter
after the other, and only then complete for those who wait for it, so who
sees it complete sees it counted. `advance` goes on until one more kernel is
complete.

An `Event` is whatever changes a stream, and a run any number of them. The
stream goes on by itself while its callers do something else, so what they
find depends on the events meanwhile.
-/
import AdaptiveLoops.Device.Metrics
import AdaptiveLoops.Work

namespace AdaptiveLoops.Device

/-- The number of a launch, counted from 0. -/
abbrev LaunchId := Nat

/-- How a launch ended. -/
inductive Outcome where
  | completed (elapsed : Duration)
  | failed (message : String)
  deriving DecidableEq, Repr

def Outcome.ofWork (w : Work) : Outcome :=
  match w.failure? with
  | some message => .failed message
  | none => .completed w.elapsed

def Outcome.isFailed : Outcome → Bool
  | .failed _ => true
  | .completed _ => false

/-- What is known of a launch. -/
structure Completion where
  started : Bool
  outcome : Option Outcome
  deriving DecidableEq, Repr

namespace Completion

def pending : Completion := ⟨false, none⟩

def start (c : Completion) : Completion :=
  { c with started := true }

/-- The first outcome stays. -/
def complete (c : Completion) (o : Outcome) : Completion :=
  if c.outcome.isSome then c else { c with outcome := some o }

end Completion

structure Task where
  id : LaunchId
  work : Work
  deriving DecidableEq, Repr

/-- How far the worker is with the kernel it has taken. -/
inductive Phase where
  | taken
  | started
  /-- Counted as completed. -/
  | completed
  /-- Counted as failed, too. -/
  | failed
  /-- Not in flight any more. -/
  | counted
  deriving DecidableEq, Repr

/-- The next counter to be updated for a kernel, and the phase after that. -/
def Phase.count? (failed : Bool) : Phase → Option (Phase × (Metrics → Metrics))
  | .started => some (.completed, .countCompleted)
  | .completed => if failed then some (.failed, .countFailed) else some (.counted, .leaveFlight)
  | .failed => some (.counted, .leaveFlight)
  | _ => none

structure Stream where
  incoming : List Task
  /-- The worker's own queue. -/
  batch : List Task
  running : Option (Task × Phase)
  finished : Array LaunchId
  completions : Array Completion
  metrics : Metrics
  closed : Bool
  last : Option LaunchId
  /-- Whether the worker has left. -/
  exited : Bool
  deriving DecidableEq, Repr

/-- What the worker can do next. `steal more` takes a kernel and `more` further ones at most. -/
inductive WorkerStep where
  | take
  | steal (more : Nat)
  | start
  | count
  | complete
  | exit
  deriving DecidableEq, Repr

namespace Stream

def empty : Stream where
  incoming := []
  batch := []
  running := none
  finished := #[]
  completions := #[]
  metrics := .zero
  closed := false
  last := none
  exited := false

/-! ## Callers -/

def launch (s : Stream) (work : Work) : Except LoopError (LaunchId × Stream) :=
  if s.closed then .error .streamClosed
  else
    let id := s.completions.size
    .ok (id, { s with
      incoming := s.incoming ++ [⟨id, work⟩]
      completions := s.completions.push .pending
      metrics := s.metrics.recordLaunch
      last := some id })

def shutdown (s : Stream) : Stream :=
  { s with closed := true }

def outcome? (s : Stream) (id : LaunchId) : Option Outcome :=
  s.completions[id]?.bind (·.outcome)

def isComplete (s : Stream) (id : LaunchId) : Bool :=
  (s.outcome? id).isSome

def isStarted (s : Stream) (id : LaunchId) : Bool :=
  s.completions[id]?.any (·.started)

/-! ## The worker -/

/-- Updates what is known of one launch. -/
def note (s : Stream) (id : LaunchId) (change : Completion → Completion) : Stream :=
  { s with completions := s.completions.modify id change }

def step (s : Stream) : WorkerStep → Stream
  | .take =>
    match s.running, s.batch with
    | none, task :: rest => { s with running := some (task, .taken), batch := rest }
    | _, _ => s
  | .steal more =>
    match s.running, s.batch, s.incoming with
    | none, [], task :: rest =>
      { s with running := some (task, .taken), batch := rest.take more, incoming := rest.drop more }
    | _, _, _ => s
  | .start =>
    match s.running with
    | some (task, .taken) =>
      { s.note task.id Completion.start with running := some (task, .started) }
    | _ => s
  | .count =>
    match s.running with
    | some (task, phase) =>
      match phase.count? (Outcome.ofWork task.work).isFailed with
      | some (phase, update) => { s with metrics := update s.metrics, running := some (task, phase) }
      | none => s
    | none => s
  | .complete =>
    match s.running with
    | some (task, .counted) =>
      { s.note task.id (·.complete (Outcome.ofWork task.work)) with
        running := none
        finished := s.finished.push task.id }
    | _ => s
  | .exit =>
    match s.running, s.batch, s.incoming with
    | none, [], [] => if s.closed then { s with exited := true } else s
    | _, _, _ => s

/-- The number of kernels that are not complete. -/
def queued (s : Stream) : Nat :=
  s.running.toList.length + s.batch.length + s.incoming.length

/-- Completes the kernel that is running or is next, if there is one. -/
def advance (s : Stream) : Stream :=
  [.take, .steal s.incoming.length, .start, .count, .count, .count, .complete].foldl step s

def advanceUntil (done : Stream → Bool) : (steps : Nat) → Stream → Stream
  | 0, s => s
  | steps + 1, s => if done s then s else advanceUntil done steps s.advance

/-- Completes up to `n` kernels. -/
def advanceBy (n : Nat) (s : Stream) : Stream :=
  advanceUntil (fun _ => false) (min n s.queued) s

def runToIdle (s : Stream) : Stream :=
  advanceUntil (fun _ => false) s.queued s

/-- Waits until a launch is complete. -/
def wait (s : Stream) (id : LaunchId) : Stream :=
  advanceUntil (·.isComplete id) s.queued s

/-! ## Events -/

end Stream

inductive Event where
  | launch (work : Work)
  | shutdown
  | worker (step : WorkerStep)

namespace Stream

/-- The stream after one event. A launch that is refused changes nothing. -/
def after (s : Stream) : Event → Stream
  | .launch work =>
    match s.launch work with
    | .error _ => s
    | .ok (_, s) => s
  | .shutdown => s.shutdown
  | .worker step => s.step step

def run (s : Stream) (events : List Event) : Stream :=
  events.foldl after s

/-- Looks up the last launch and waits for it, and with it for all before it, while the stream goes on. -/
def synchronizeDuring (s : Stream) (meanwhile : List Event) : Stream :=
  match s.last with
  | none => s.run meanwhile
  | some id => (s.run meanwhile).wait id

def synchronize (s : Stream) : Stream :=
  s.synchronizeDuring []

end Stream

end AdaptiveLoops.Device
