/-
Dispatching a statement tree to the backend of a policy.

A host policy runs the tree on the caller's side, and the call ends when
the tree does. A device policy needs a kernel at the root and launches what
is inside it on the stream; a synchronous one waits for that launch.
-/
import AdaptiveLoops.Device.Stream

namespace AdaptiveLoops

open Device (Stream LaunchId Outcome)

/-- A loop that ran to its end, or one that is queued. -/
inductive Launch where
  | complete (elapsed : Duration)
  | pending (id : LaunchId)
  deriving DecidableEq, Repr

def Launch.isPending : Launch → Bool
  | .pending _ => true
  | .complete _ => false

/-- What the machine decides about one launch: how parallel loops are split, and the time it takes. -/
structure Moment where
  schedule : Schedule
  elapsed : Duration

/-- What came of issuing a loop: the stream after it, and the work that was done or queued. -/
structure Execution where
  stream : Stream
  work : Option Work
  result : Except LoopError Launch

namespace Statement

/-- The work of running the tree on the host. -/
def hostWork (tree : Statement) (space : IterationSpace) (body : Body) (now : Moment) : Work :=
  let walker : Walker := ⟨body, now.schedule, false⟩
  .ofProgress (walker.run [] tree (.ofSpace space)) now.elapsed

/-- The work of a kernel that runs the given statements. -/
def kernelWork (body : List Statement) (space : IterationSpace) (loopBody : Body)
    (now : Moment) : Work :=
  let walker : Walker := ⟨loopBody, now.schedule, true⟩
  .ofProgress (walker.runAll [] 0 body (.ofSpace space)) now.elapsed

def runHost (stream : Stream) (policy : Policy) (work : Work) : Execution where
  stream := stream
  work := some work
  result :=
    match work.failure? with
    | some message => .error (.backendFailure policy.backend message)
    | none => .ok (.complete work.elapsed)

/-- What a waited-for launch of the device gives. -/
def settled : Outcome → Except LoopError Duration
  | .completed elapsed => .ok elapsed
  | .failed message => .error (.backendFailure .device message)

def launchKernel (stream : Stream) (mode : Mode) (work : Work) : Execution :=
  match stream.launch work with
  | .error e => ⟨stream, none, .error e⟩
  | .ok (id, stream) =>
    match mode with
    | .async => ⟨stream, some work, .ok (.pending id)⟩
    | .sync => ⟨stream.wait id, some work, (settled (.ofWork work)).map .complete⟩

def execute (tree : Statement) (stream : Stream) (policy : Policy) (space : IterationSpace)
    (body : Body) (now : Moment) : Execution :=
  match policy with
  | .device _ mode =>
    match tree with
    | .kernel _ stmts => launchKernel stream mode (kernelWork stmts space body now)
    | _ => ⟨stream, none, .error (.invalidStatementTree .noKernelAtRoot)⟩
  | _ => runHost stream policy (tree.hostWork space body now)

end Statement

end AdaptiveLoops
