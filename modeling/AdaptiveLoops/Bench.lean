/-
The bench loop: one loop invoked over and over at one site, with a count of
how often each candidate was picked.

An iteration that finds the pool full waits for the stream and invokes the
loop once more. After the last iteration everything outstanding is waited
for and collected.

How far the stream gets between two iterations, and what is measured, is
not the bench's: it takes them from a tick for each iteration.
-/
import AdaptiveLoops.Registry

namespace AdaptiveLoops

structure Bench (α : Type) where
  registry : Registry α
  site : CallSite
  policies : List Policy
  space : IterationSpace
  /-- How often each candidate was picked. -/
  picks : List Nat
  /-- How often the pool was full. -/
  retries : Nat

/-- What the machine decides about one iteration. -/
structure Tick where
  /-- The number of kernels that the stream completes before the iteration. -/
  progress : Nat
  now : Moment
  /-- The moment of the second call, if the pool was full at the first. -/
  again : Moment

namespace Bench

variable {α : Type}

def start (registry : Registry α) (site : CallSite) (policies : List Policy)
    (space : IterationSpace) : Bench α :=
  ⟨registry, site, policies, space, policies.map fun _ => 0, 0⟩

/-- The body of the loop, which never fails. -/
def body : LoopBody := fun _ => none

def progress (b : Bench α) (kernels : Nat) : Bench α :=
  { b with registry := { b.registry with stream := b.registry.stream.advanceBy kernels } }

/-- Counts a pick. -/
def picked (b : Bench α) (candidate : Nat) : Bench α :=
  { b with picks := b.picks.modify candidate (· + 1) }

variable [Model α]

def invoke (b : Bench α) (now : Moment) : Bench α × Except LoopError Dispatch :=
  let reply := b.registry.invoke b.site b.policies b.space body now
  ({ b with registry := reply.registry }, reply.result)

/-- Counts the pick of an invocation that went well. -/
def settle (b : Bench α) : Except LoopError Dispatch → Bench α × Except LoopError Unit
  | .ok d => (b.picked d.candidate, .ok ())
  | .error e => (b, .error e)

/-- Waits for the stream and invokes the loop again. -/
def retry (b : Bench α) (now : Moment) : Bench α × Except LoopError Unit :=
  let waited := { b with registry := b.registry.synchronize, retries := b.retries + 1 }
  (waited.invoke now).1.settle (waited.invoke now).2

def step (b : Bench α) (t : Tick) : Bench α × Except LoopError Unit :=
  match (b.progress t.progress).invoke t.now with
  | (b, .ok d) => b.settle (.ok d)
  | (b, .error e) => if e.isPoolExhausted then b.retry t.again else b.settle (.error e)

/-- Waits for the stream and collects everything. -/
def finish (b : Bench α) : Bench α × Except LoopError Unit :=
  let (registry, result) := b.registry.synchronize.drain
  ({ b with registry }, result.map fun _ => ())

/--
The given number of iterations, and then the collecting. `tick` is asked
before each iteration, with the number of iterations left after it.
-/
def run {m : Type → Type} [Monad m] (tick : Nat → Bench α → m Tick) :
    (count : Nat) → Bench α → m (Bench α × Except LoopError Unit)
  | 0, b => pure b.finish
  | count + 1, b => do
    let t ← tick count b
    match b.step t with
    | (b, .ok ()) => run tick count b
    | (b, .error e) => pure (b, .error e)

end Bench

end AdaptiveLoops
