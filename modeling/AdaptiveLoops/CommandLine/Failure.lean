/-
How a command fails, and how that is told: what failed, and under it the
causes, the nearest first.
-/
import AdaptiveLoops.Config.Effective

namespace AdaptiveLoops.CommandLine

inductive CommandError where
  | config (e : ConfigError)
  | backends (e : LoopError)
  | shape (e : LoopError)
  | loop (e : LoopError)
  | noRegion
  deriving DecidableEq, Repr

namespace CommandError

def notLoaded : String := "failed to load configuration"

def message : CommandError → String
  | .config (.override _) => notLoaded
  | .config (.invalidEnvironment _) => notLoaded
  | .config (.invalidFlags e) => e.message
  | .backends _ => "failed to start backends"
  | .shape _ => "invalid --shape"
  | .loop e => e.message
  | .noRegion => "bench region was never created"

def causes : CommandError → List String
  | .config (.override e) => [e.context, e.cause.message]
  | .config (.invalidEnvironment e) => [e.message]
  | .config (.invalidFlags _) => []
  | .backends e => [e.message]
  | .shape e => [e.message]
  | .loop _ => []
  | .noRegion => []

/-- Whether the program stops instead of reporting a failure. -/
def isDefect : CommandError → Bool
  | .loop e => e.isDefect
  | _ => false

/-- A text with every line but the first indented. -/
def hanging (indentation s : String) : String :=
  ("\n" ++ indentation).intercalate (s.splitOn "\n")

def numbered (n : Nat) (cause : String) : String :=
  "    " ++ Nat.repr n ++ ": " ++ hanging "       " cause ++ "\n"

def causeLines : List String → String
  | [] => ""
  | [cause] => "\nCaused by:\n    " ++ hanging "    " cause ++ "\n"
  | causes => "\nCaused by:\n" ++ String.join (causes.mapIdx numbered)

/-- The whole text of a failure. -/
def text (e : CommandError) : String :=
  "Error: " ++ e.message ++ "\n" ++ causeLines e.causes

end CommandError

end AdaptiveLoops.CommandLine
