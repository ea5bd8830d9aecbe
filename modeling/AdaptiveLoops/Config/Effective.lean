/-
The effective configuration: the defaults, with the environment over them,
and with the flags of a command over both.

What the environment leaves has to be valid by itself, before the flags
are looked at, and what the flags leave has to be valid again.
-/
import AdaptiveLoops.Config.Override

namespace AdaptiveLoops

/-- The flags that replace fields of a configuration. -/
structure ConfigFlags where
  poolCapacity : Option UInt64
  warmup : Option Warmup
  deriving DecidableEq, Repr

/-- Why there is no effective configuration. -/
inductive ConfigError where
  | override (e : OverrideError)
  /-- The environment leaves an invalid configuration. -/
  | invalidEnvironment (e : LoopError)
  /-- The flags leave an invalid configuration. -/
  | invalidFlags (e : LoopError)
  deriving DecidableEq, Repr

namespace Config

def applyFlags (flags : ConfigFlags) (c : Config) : Config :=
  { c with
    poolCapacity := flags.poolCapacity.getD c.poolCapacity
    warmup := flags.warmup.getD c.warmup }

/-- The defaults with the environment over them. -/
def load (lookup : String → Option String) : Except ConfigError Config :=
  match default.applyOverrides lookup with
  | (_, .error e) => .error (.override e)
  | (c, .ok ()) =>
    match c.validate with
    | .error e => .error (.invalidEnvironment e)
    | .ok () => .ok c

def effective (lookup : String → Option String) (flags : ConfigFlags) : Except ConfigError Config :=
  match load lookup with
  | .error e => .error e
  | .ok c =>
    match (c.applyFlags flags).validate with
    | .error e => .error (.invalidFlags e)
    | .ok () => .ok (c.applyFlags flags)

end Config

end AdaptiveLoops
