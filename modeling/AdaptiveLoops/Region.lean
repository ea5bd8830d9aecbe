/-
Regions: one call site's loop, with its candidates and what is known of
them.

An invocation collects the launches that are complete, takes a number,
picks a candidate, tells the plugins, issues the loop, tells the plugins
again, and reports the time, or leaves the launch in a slot of the pool to
be collected later. `choose` goes as far as the pick and `launch` does the
rest; `invoke` is both. The stream goes on during a call (`Meanwhile`), and
`drain`, `choose` and `invoke` are the calls during which it stands still. A
call that fails leaves behind what it had changed before it failed.

Every sample goes to the statistics and to the model in one step, `report`,
and every failed launch counts once, for the candidate it ran under.
-/
import AdaptiveLoops.Config
import AdaptiveLoops.Meanwhile
import AdaptiveLoops.Plugin
import AdaptiveLoops.Variant

namespace AdaptiveLoops

open Device (Stream LaunchId Outcome)

/-- What an invocation came to. -/
structure Dispatch where
  invocation : Nat
  candidate : Nat
  policy : Policy
  pending : Bool
  deriving DecidableEq, Repr

structure Region (α : Type) where
  site : CallSite
  policies : List Policy
  variants : List (Option Variant)
  model : α
  stats : List PolicyStats
  pool : Pool
  invocations : Nat
  warmup : Warmup
  warmupSamples : Nat
  onExhausted : Exhaustion

/-- A candidate that was picked for an invocation, and its variant. -/
structure Choice where
  context : Context
  variant : Variant

/-- A loop that was issued: finished, or in flight in a slot. -/
inductive Issued where
  | finished (elapsed : Duration)
  | pending (slot : Nat) (launch : LaunchId)
  deriving DecidableEq, Repr

def Issued.isPending : Issued → Bool
  | .finished _ => false
  | .pending _ _ => true

/-- What issuing a loop leaves behind. -/
structure Issue (α : Type) where
  region : Region α
  stream : Stream
  work : Option Work
  result : Except LoopError Issued

/-- A plugin that is told, and the region and the stream as it finds them. -/
structure Sighting (α : Type) where
  notice : Notice
  region : Region α
  stream : Stream

/-- What an invocation leaves behind. -/
structure Reply (α : Type) where
  region : Region α
  stream : Stream
  sightings : List (Sighting α)
  work : Option Work
  result : Except LoopError Dispatch

def Reply.notices {α : Type} (reply : Reply α) : List Notice :=
  reply.sightings.map (·.notice)

namespace Region

variable {α : Type}

def create (site : CallSite) (policies : List Policy) (model : α) (config : Config) :
    Except LoopError (Region α) :=
  if policies.isEmpty then .error (.emptyPolicyList site)
  else
    match Pool.ofCapacity? site config.poolCapacity.toNat with
    | .error e => .error e
    | .ok pool =>
      .ok {
        site
        policies
        variants := policies.map fun _ => none
        model
        stats := policies.map .ofPolicy
        pool
        invocations := 0
        warmup := config.warmup
        warmupSamples := config.warmupSamples.toNat
        onExhausted := config.onPoolExhausted }

def inFlight (r : Region α) : Nat := r.pool.inFlight

def statistics (r : Region α) : RegionStats where
  site := r.site
  invocations := r.invocations
  inFlight := r.inFlight
  policies := r.stats
  variants := r.variants.filterMap fun v => v.map (·.info)

def totalSamples (r : Region α) : Nat :=
  r.stats.foldr (fun p total => p.samples + total) 0

/-- The variant of a candidate, if it is in use. -/
def variant? (r : Region α) (candidate : Nat) : Option Variant :=
  (r.variants[candidate]?).join

def setVariant (r : Region α) (candidate : Nat) (v : Variant) : Region α :=
  { r with variants := r.variants.set candidate (some v) }

/-- All plugins are told of a stage, with the region and the stream as they are. -/
def watch (r : Region α) (stream : Stream) (plugins : List Plugin) (stage : Stage) (site : CallSite)
    (context : Context) (pending : Bool) : List (Sighting α) :=
  (notify plugins stage site context pending).map (⟨·, r, stream⟩)

/-! ## Feedback -/

/-- Counts a failed launch of a candidate. -/
def fail (r : Region α) (candidate : Nat) : Region α :=
  { r with stats := r.stats.modify candidate (·.fail) }

section
variable [Model α]

/-- Counts a sample, for the statistics and for the model. -/
def report (r : Region α) (context : Context) (elapsed : Duration) : Region α :=
  { r with
    stats := r.stats.modify context.candidate (·.record elapsed)
    model := Model.observe r.model context.features context.candidate elapsed }

/-- Counts what became of a launch that was collected. -/
def account (r : Region α) (c : Collected) : Region α :=
  match c.outcome with
  | .completed elapsed => r.report c.context elapsed
  | .failed _ => r.fail c.context.candidate

end

/-- The failure of the first launch in a list that failed. -/
def firstFailure? : List Collected → Option String
  | [] => none
  | c :: rest =>
    match c.outcome with
    | .failed message => some message
    | .completed _ => firstFailure? rest

/-- What collecting launches answers: their number, or the first failure. -/
def collectedResult (done : List Collected) : Except LoopError Nat :=
  match firstFailure? done with
  | none => .ok done.length
  | some message => .error (.backendFailure .device message)

variable [Model α]

/-- Collects the launches that are seen complete. -/
def drainSeeing (r : Region α) (seen : LaunchId → Option Outcome) : Region α × Except LoopError Nat :=
  let (done, pool) := r.pool.poll seen
  (done.foldl account { r with pool }, collectedResult done)

/-- Collects the launches that are complete. -/
def drain (r : Region α) (stream : Stream) : Region α × Except LoopError Nat :=
  r.drainSeeing stream.outcome?

/-! ## Choosing a candidate -/

def isWarmingUp (r : Region α) : Bool :=
  r.totalSamples < r.warmupSamples

/-- The candidate of an invocation during the warm-up. -/
def warmupPick (r : Region α) (invocation : Nat) : Nat :=
  match r.warmup with
  | .defaultIndex => 0
  | .roundRobin => invocation % r.policies.length

/-- The candidate of an invocation, which the model may have picked out of range. -/
def select (r : Region α) (features : Features) (invocation : Nat) : Nat × Region α :=
  if r.isWarmingUp then (r.warmupPick invocation, r)
  else
    let (pick, model) :=
      Model.select r.model features (r.pool.pendingByCandidate r.policies.length)
    (pick, { r with model })

/-- The variant of a candidate, which is put into use unless it is. -/
def instantiate (r : Region α) (candidate : Nat) (policy : Policy) (stream : Stream) :
    Except LoopError (Region α × Variant) :=
  match r.variant? candidate with
  | some v => .ok (r, v)
  | none =>
    match Variant.instantiate r.site candidate policy stream with
    | .error e => .error e
    | .ok v => .ok (r.setVariant candidate v, v)

/-- Takes a number and picks a candidate, which is put into use. -/
def pick (r : Region α) (stream : Stream) (space : IterationSpace) : Region α × Except LoopError Choice :=
  let features := Features.ofSpace space
  let invocation := r.invocations
  let (candidate, r) := { r with invocations := invocation + 1 }.select features invocation
  match r.policies[candidate]? with
  | none => (r, .error (.pickOutOfRange r.site candidate r.policies.length))
  | some policy =>
    match r.instantiate candidate policy stream with
    | .error e => (r, .error e)
    | .ok (r, v) => (r, .ok ⟨⟨invocation, features, candidate, policy⟩, v⟩)

/-- Collects what is seen complete and then picks; answers with the stream as it is found then. -/
def chooseDuring (r : Region α) (stream : Stream) (meanwhile : Meanwhile) (space : IterationSpace) :
    Region α × Stream × Except LoopError Choice :=
  match r.drainSeeing (meanwhile.polling.seen stream) with
  | (r, .error e) => (r, meanwhile.polling.after stream, .error e)
  | (r, .ok _) =>
    let (r, result) := r.pick (meanwhile.atChoice stream) space
    (r, meanwhile.atChoice stream, result)

/-- Collects what is complete and then picks. -/
def choose (r : Region α) (stream : Stream) (space : IterationSpace) :
    Region α × Except LoopError Choice :=
  let (r, _, result) := r.chooseDuring stream .still space
  (r, result)

/-! ## Launching -/

/-- An execution that has to be over when it is reported. -/
def settle (r : Region α) (e : Execution) : Issue α :=
  match e.result with
  | .error error => ⟨r, e.stream, e.work, .error error⟩
  | .ok (.complete elapsed) => ⟨r, e.stream, e.work, .ok (.finished elapsed)⟩
  | .ok (.pending id) =>
    let stream := e.stream.wait id
    match stream.outcome? id with
    | some outcome => ⟨r, stream, e.work, (Statement.settled outcome).map .finished⟩
    | none => ⟨r, stream, e.work, .error .streamClosed⟩

/-- Gives a reserved slot back, and then answers `result`. -/
def releasing (r : Region α) (stream : Stream) (slot : Nat) (work : Option Work)
    (result : Except LoopError Issued) : Issue α :=
  match r.pool.release stream.isComplete slot with
  | .error e => ⟨r, stream, work, .error e⟩
  | .ok pool => ⟨{ r with pool }, stream, work, result⟩

/-- An execution for which `slot` is reserved. -/
def keep (r : Region α) (slot : Nat) (e : Execution) : Issue α :=
  match e.result with
  | .ok (.pending id) => ⟨r, e.stream, e.work, .ok (.pending slot id)⟩
  | .ok (.complete elapsed) => r.releasing e.stream slot e.work (.ok (.finished elapsed))
  | .error error => r.releasing e.stream slot e.work (.error error)

/-- Issues the loop under the variant of the candidate that was picked. -/
def issue (r : Region α) (v : Variant) (stream : Stream) (candidate : Nat) (space : IterationSpace)
    (body : Body) (now : Moment) : Issue α :=
  if v.policy.isAsync then
    match r.pool.acquire with
    | .ok (slot, pool) =>
      let (v, e) := v.launch stream space body now
      ({ r with pool }.setVariant candidate v).keep slot e
    | .error error =>
      match r.onExhausted with
      | .fail => ⟨r, stream, none, .error error⟩
      | .synchronous =>
        let (v, e) := v.launchSynchronously stream space body now
        (r.setVariant candidate v).settle e
  else
    let (v, e) := v.launch stream space body now
    (r.setVariant candidate v).settle e

/-- What an issued loop is reported as. -/
def conclude (r : Region α) (context : Context) : Issued → Except LoopError (Region α)
  | .finished elapsed => .ok (r.report context elapsed)
  | .pending slot launch =>
    (r.pool.arm slot context launch).map fun pool => { r with pool }

/-- Counts a launch that failed; one that found no slot is not counted. -/
def failUnlessExhausted (r : Region α) (candidate : Nat) (e : LoopError) : Region α :=
  if e.isPoolExhausted then r else r.fail candidate

/-- Tells the plugins, issues the loop, and reports it. -/
def launch (r : Region α) (stream : Stream) (plugins : List Plugin) (choice : Choice)
    (space : IterationSpace) (body : Body) (now : Moment) : Reply α :=
  let context := choice.context
  let found := r.watch stream plugins .preLaunch r.site context false
  let i := r.issue choice.variant stream context.candidate space body now
  match i.result with
  | .error e => ⟨i.region.failUnlessExhausted context.candidate e, i.stream, found, i.work, .error e⟩
  | .ok issued =>
    let pending := issued.isPending
    let found := found ++ i.region.watch i.stream plugins .postLaunch r.site context pending
    match i.region.conclude context issued with
    | .error e => ⟨i.region, i.stream, found, i.work, .error e⟩
    | .ok region =>
      ⟨region, i.stream, found, i.work,
        .ok ⟨context.invocation, context.candidate, context.policy, pending⟩⟩

def invokeDuring (r : Region α) (stream : Stream) (meanwhile : Meanwhile) (plugins : List Plugin)
    (space : IterationSpace) (body : Body) (now : Moment) : Reply α :=
  match r.chooseDuring stream meanwhile space with
  | (r, stream, .error e) => ⟨r, stream, [], none, .error e⟩
  | (r, stream, .ok choice) => r.launch (stream.run meanwhile.issuing) plugins choice space body now

def invoke (r : Region α) (stream : Stream) (plugins : List Plugin) (space : IterationSpace)
    (body : Body) (now : Moment) : Reply α :=
  r.invokeDuring stream .still plugins space body now

end Region

end AdaptiveLoops
