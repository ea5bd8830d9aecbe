/-
Runs of the bench loop, for any loop body and whatever the stream does
before each call and during it.

`Bench.run` is such a run, whatever its ticks are and whatever actions tell
them (`run_paced`).
-/
import AdaptiveLoops.Bench
import AdaptiveLoops.Proofs.Registry.Drain

namespace AdaptiveLoops

open Device (Stream)

/-- What the machine and the stream do about one iteration. -/
structure Pace where
  before : List Device.Event
  meanwhile : Meanwhile
  now : Moment
  /-- While a full pool is waited out. -/
  waiting : List Device.Event
  retrying : Meanwhile
  again : Moment

namespace Bench

variable {α : Type}

/-- The stream goes on. -/
def goOn (b : Bench α) (events : List Device.Event) : Bench α :=
  { b with registry := { b.registry with stream := b.registry.stream.run events } }

/-- Waits for the stream, because the pool was full. -/
def waitOut (b : Bench α) (meanwhile : List Device.Event) : Bench α :=
  { b with registry := b.registry.synchronizeDuring meanwhile, retries := b.retries + 1 }

variable [Model α]

/-- `invoke` for any body, with what the stream does meanwhile. -/
def invokeDuring (b : Bench α) (body : LoopBody) (meanwhile : Meanwhile) (now : Moment) :
    Bench α × Except LoopError Dispatch :=
  let reply := b.registry.invokeDuring meanwhile b.site b.policies b.space body now
  ({ b with registry := reply.registry }, reply.result)

def retryDuring (b : Bench α) (body : LoopBody) (pace : Pace) : Bench α × Except LoopError Unit :=
  let (b, result) := (b.waitOut pace.waiting).invokeDuring body pace.retrying pace.again
  b.settle result

def stepDuring (b : Bench α) (body : LoopBody) (pace : Pace) : Bench α × Except LoopError Unit :=
  match (b.goOn pace.before).invokeDuring body pace.meanwhile pace.now with
  | (b, .ok d) => b.settle (.ok d)
  | (b, .error e) => if e.isPoolExhausted then b.retryDuring body pace else b.settle (.error e)

def finishDuring (b : Bench α) (meanwhile : List Device.Event) (polling : Polling) :
    Bench α × Except LoopError Unit :=
  let (registry, result) := (b.registry.synchronizeDuring meanwhile).drainDuring polling
  ({ b with registry }, result.map fun _ => ())

/-- One iteration after the other, and then the collecting. -/
def runDuring (body : LoopBody) (meanwhile : List Device.Event) (polling : Polling) :
    List Pace → Bench α → Bench α × Except LoopError Unit
  | [], b => b.finishDuring meanwhile polling
  | pace :: paces, b =>
    match b.stepDuring body pace with
    | (b, .ok ()) => runDuring body meanwhile polling paces b
    | (b, .error e) => (b, .error e)

/-! ## The bench loop -/

theorem retryDuring_still (b : Bench α) (before : List Device.Event) (meanwhile : Meanwhile) (now again : Moment) :
    b.retryDuring body ⟨before, meanwhile, now, [], .still, again⟩ = b.retry again := rfl

theorem finishDuring_still (b : Bench α) : b.finishDuring [] .still = b.finish := rfl

theorem step_paced (b : Bench α) (t : Tick) : ∃ pace, b.step t = b.stepDuring body pace := by
  obtain ⟨events, hevents⟩ : b.registry.stream.Reaches (b.registry.stream.advanceBy t.progress) :=
    Stream.reaches_advanceUntil _ _
  refine ⟨⟨events, .still, t.now, [], .still, t.again⟩, ?_⟩
  have hprogress : b.goOn events = b.progress t.progress := by
    simp only [goOn, progress, hevents]
  have hinvoke : (b.progress t.progress).invokeDuring body .still t.now = (b.progress t.progress).invoke t.now := rfl
  simp only [step, stepDuring, hprogress, hinvoke]
  cases (b.progress t.progress).invoke t.now with
  | mk b' result =>
    cases result with
    | ok d => rfl
    | error e => simp only [retryDuring_still]

/-- **The bench loop is one of these runs.** -/
theorem run_paced {m : Type → Type} [Monad m] [LawfulMonad m] (tick : Nat → Bench α → m Tick) :
    ∀ (count : Nat) (b : Bench α), ∃ paces : m { paces : List Pace // paces.length = count },
      b.run tick count = (fun paces => b.runDuring body [] .still paces.1) <$> paces
  | 0, b => ⟨pure ⟨[], rfl⟩, by rw [map_pure, runDuring, finishDuring_still, run]⟩
  | count + 1, b => by
    choose paceOf hpace using step_paced (α := α)
    choose rest hrest using run_paced tick count
    refine ⟨do
      let t ← tick count b
      match b.step t with
      | (b', .ok ()) => (fun paces => ⟨paceOf b t :: paces.1, by simp [paces.2]⟩) <$> rest b'
      | (_, .error _) => pure ⟨List.replicate (count + 1) (paceOf b t), List.length_replicate⟩, ?_⟩
    rw [run, map_bind]
    congr 1
    funext t
    have hstep := hpace b t
    cases hresult : b.step t with
    | mk b' result =>
      rw [hresult] at hstep
      cases result with
      | error e => simp only [map_pure, List.replicate_succ, runDuring, ← hstep]
      | ok done => simp only [hrest b', Functor.map_map, runDuring, ← hstep]

end Bench

end AdaptiveLoops
