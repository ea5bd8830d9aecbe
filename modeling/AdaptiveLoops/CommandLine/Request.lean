/-
What a command line can ask for, with the defaults of what it leaves out.
-/
import AdaptiveLoops.Config.Effective

namespace AdaptiveLoops.CommandLine

inductive Format where
  | table
  | json
  | yaml
  deriving DecidableEq, Repr

def Format.parse? (s : String) : Option Format :=
  if s = "table" then some .table
  else if s = "json" then some .json
  else if s = "yaml" then some .yaml
  else none

structure BenchOptions where
  /-- The extent of each dimension, outermost first. -/
  shape : List UInt64
  policies : List Policy
  iterations : UInt64
  format : Format
  /-- Whether the statement tree of each candidate is shown. -/
  explain : Bool
  deriving DecidableEq, Repr

namespace BenchOptions

def defaultShape : List UInt64 := [1000, 64]

def defaultPolicies : List Policy :=
  [.sequential, .threaded Policy.defaultMinChunk, .device 256 .async]

def defaultIterations : UInt64 := 50

end BenchOptions

inductive Command where
  | bench (options : BenchOptions)
  | config (format : Format)
  deriving DecidableEq, Repr

structure Request where
  /-- Whether the time of each phase is shown. -/
  time : Bool
  flags : ConfigFlags
  command : Command
  deriving DecidableEq, Repr

end AdaptiveLoops.CommandLine
