/-
Plugins: observers that are told before and after a launch.

All plugins are told of a stage in the order they were added. What they are
told is kept as a list of notices, so that it can be looked at afterwards.
-/
import AdaptiveLoops.Pool

namespace AdaptiveLoops

structure Plugin where
  name : String
  deriving DecidableEq, Repr

namespace Plugin

/-- The plugins that are there from the start. -/
def registered : List Plugin := [⟨"trace-launches"⟩]

def listing (p : Plugin) : String :=
  "KernelPlugin(\"" ++ p.name ++ "\")"

end Plugin

inductive Stage where
  | preLaunch
  | postLaunch
  deriving DecidableEq, Repr

/-- One plugin being told of one launch. `pending` is false before the launch. -/
structure Notice where
  position : Nat
  plugin : Plugin
  stage : Stage
  site : CallSite
  context : Context
  pending : Bool

/-- The notices of one stage, in the order of the plugins. -/
def notify (plugins : List Plugin) (stage : Stage) (site : CallSite) (context : Context)
    (pending : Bool) : List Notice :=
  plugins.mapIdx fun position plugin => ⟨position, plugin, stage, site, context, pending⟩

end AdaptiveLoops
