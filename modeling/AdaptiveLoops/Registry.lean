/-
The registry: the regions of a program, one for each call site, and what
they share.

The first call for a site makes its region, with the candidates of that
call; a later call has to bring the same candidates in the same order. The
registry has the one device stream, and makes the models by a factory.

As with regions, `choose`, `invoke`, `drain` and `synchronize` are the calls
during which the stream stands still.
-/
import AdaptiveLoops.Region

namespace AdaptiveLoops

open Device (Stream LaunchId Outcome MetricsReading)

structure Registry (α : Type) where
  config : Config
  hostThreads : Nat
  computeUnits : Nat
  stream : Stream
  /-- In the order they were made. -/
  regions : List (Region α)
  plugins : List Plugin
  makeModel : CallSite → (candidates : Nat) → α

/-- What an invocation through a registry leaves behind. -/
structure RegistryReply (α : Type) where
  registry : Registry α
  notices : List Notice
  work : Option Work
  result : Except LoopError Dispatch

namespace Registry

variable {α : Type}

/-- A registry for a machine of `cores` processors, which the configuration may change. -/
def create (config : Config) (cores : Nat) (makeModel : CallSite → Nat → α) :
    Except LoopError (Registry α) :=
  match config.validate with
  | .error e => .error e
  | .ok () =>
    .ok {
      config
      hostThreads := (config.hostThreads.map (·.toNat)).getD cores
      computeUnits := (config.deviceComputeUnits.map (·.toNat)).getD cores
      stream := .empty
      regions := []
      plugins := if config.plugins then Plugin.registered else []
      makeModel }

def region? (g : Registry α) (site : CallSite) : Option (Region α) :=
  g.regions.find? fun r => r.site == site

/-- Puts back a region that has changed. -/
def setRegion (g : Registry α) (r : Region α) : Registry α :=
  { g with regions := g.regions.map fun old => if old.site = r.site then r else old }

/-- Puts back a region that has changed, with the stream it has left behind. -/
def put (g : Registry α) (r : Region α) (stream : Stream) : Registry α :=
  { g with stream }.setRegion r

/-- The region of a site, which is made if there is none. -/
def region (g : Registry α) (site : CallSite) (policies : List Policy) :
    Except LoopError (Registry α × Region α) :=
  if policies.isEmpty then .error (.emptyPolicyList site)
  else
    match g.region? site with
    | some r =>
      if r.policies = policies then .ok (g, r)
      else .error (.policyListMismatch site r.policies policies)
    | none =>
      match Region.create site policies (g.makeModel site policies.length) g.config with
      | .error e => .error e
      | .ok r => .ok ({ g with regions := g.regions ++ [r] }, r)

/-! ## Reading -/

def sites (g : Registry α) : List CallSite :=
  CallSite.sort (g.regions.map (·.site))

def regionStats? (g : Registry α) (site : CallSite) : Option RegionStats :=
  (g.region? site).map (·.statistics)

/-- The statistics of every region, in the order of the sites. -/
def allStats (g : Registry α) : List RegionStats :=
  g.sites.filterMap g.regionStats?

def inFlight (g : Registry α) (site : CallSite) : Nat :=
  ((g.region? site).map (·.inFlight)).getD 0

def deviceMetrics (g : Registry α) : MetricsReading :=
  g.stream.metrics.read

/-! ## The device -/

def synchronizeDuring (g : Registry α) (meanwhile : List Device.Event) : Registry α :=
  { g with stream := g.stream.synchronizeDuring meanwhile }

def synchronize (g : Registry α) : Registry α :=
  g.synchronizeDuring []

def addPlugin (g : Registry α) (p : Plugin) : Registry α :=
  { g with plugins := g.plugins ++ [p] }

variable [Model α]

/-- What two drains answer together, of which the first comes first. -/
def addAnswers : Except LoopError Nat → Except LoopError Nat → Except LoopError Nat
  | .error e, _ => .error e
  | .ok _, .error e => .error e
  | .ok n, .ok m => .ok (n + m)

/-- Drains one region after the other, by what is seen of each launch. -/
def drainAllSeeing (seen : LaunchId → Option Outcome) : List (Region α) → List (Region α) × Except LoopError Nat
  | [] => ([], .ok 0)
  | r :: rest =>
    let (r, result) := r.drainSeeing seen
    let (rest, others) := drainAllSeeing seen rest
    (r :: rest, addAnswers result others)

/-- Collects the launches that are seen complete, in every region. -/
def drainDuring (g : Registry α) (polling : Polling) : Registry α × Except LoopError Nat :=
  let (regions, result) := drainAllSeeing (polling.seen g.stream) g.regions
  ({ g with regions, stream := polling.after g.stream }, result)

def drain (g : Registry α) : Registry α × Except LoopError Nat :=
  g.drainDuring .still

/-! ## Invoking -/

/-- The region of a site with a candidate picked for its next invocation. -/
def chooseDuring (g : Registry α) (meanwhile : Meanwhile) (site : CallSite) (policies : List Policy)
    (space : IterationSpace) : Registry α × Except LoopError (Region α × Choice) :=
  match g.region site policies with
  | .error e => (g, .error e)
  | .ok (g, r) =>
    match r.chooseDuring g.stream meanwhile space with
    | (r, stream, .error e) => (g.put r stream, .error e)
    | (r, stream, .ok choice) => (g.put r stream, .ok (r, choice))

def choose (g : Registry α) (site : CallSite) (policies : List Policy) (space : IterationSpace) :
    Registry α × Except LoopError (Region α × Choice) :=
  g.chooseDuring .still site policies space

def launch (g : Registry α) (r : Region α) (choice : Choice) (space : IterationSpace)
    (body : Body) (now : Moment) : RegistryReply α :=
  let reply := r.launch g.stream g.plugins choice space body now
  ⟨g.put reply.region reply.stream, reply.notices, reply.work, reply.result⟩

/-- Runs the loop of a site under one of its candidates. -/
def invokeDuring (g : Registry α) (meanwhile : Meanwhile) (site : CallSite) (policies : List Policy)
    (space : IterationSpace) (body : Body) (now : Moment) : RegistryReply α :=
  match g.chooseDuring meanwhile site policies space with
  | (g, .error e) => ⟨g, [], none, .error e⟩
  | (g, .ok (r, choice)) => { g with stream := g.stream.run meanwhile.issuing }.launch r choice space body now

def invoke (g : Registry α) (site : CallSite) (policies : List Policy) (space : IterationSpace)
    (body : Body) (now : Moment) : RegistryReply α :=
  g.invokeDuring .still site policies space body now

end Registry

end AdaptiveLoops
