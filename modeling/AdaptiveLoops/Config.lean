/-
Configurations, and which of them can be run.

`Warmup` says which candidate runs before a model has seen enough samples,
`Exhaustion` what becomes of a launch that finds no free slot.
-/
import AdaptiveLoops.Error
import AdaptiveLoops.Model.Kind

namespace AdaptiveLoops

/-- What runs while there are too few samples to ask the model. -/
inductive Warmup where
  /-- Candidate 0. -/
  | defaultIndex
  /-- The candidates in turn, by the number of the invocation. -/
  | roundRobin
  deriving DecidableEq, Repr

/-- What becomes of a launch that finds the pool full. -/
inductive Exhaustion where
  | fail
  | synchronous
  deriving DecidableEq, Repr

structure Config where
  poolCapacity : UInt64
  warmupSamples : UInt64
  warmup : Warmup
  onPoolExhausted : Exhaustion
  hostThreads : Option UInt64
  deviceComputeUnits : Option UInt64
  model : ModelKind
  plugins : Bool
  deriving DecidableEq, Repr

namespace Config

def default : Config where
  poolCapacity := 64
  warmupSamples := 1
  warmup := .defaultIndex
  onPoolExhausted := .fail
  hostThreads := none
  deviceComputeUnits := none
  model := .meanTime
  plugins := true

instance : Inhabited Config := ⟨default⟩

def check (c : Config) : Except ConfigFault Unit :=
  if c.poolCapacity = 0 then .error .noPoolCapacity
  else if c.hostThreads = some 0 then .error .noHostThreads
  else if c.deviceComputeUnits = some 0 then .error .noDeviceComputeUnits
  else .ok ()

def validate (c : Config) : Except LoopError Unit :=
  c.check.mapError .config

end Config

end AdaptiveLoops
