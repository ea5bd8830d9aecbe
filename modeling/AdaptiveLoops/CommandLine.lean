/-
The command line: `config` shows the effective configuration, and `bench`
invokes a loop over and over and shows what was learned of it.

`respond` gives what a command writes and how it ends, from its words and
its environment. What depends on the machine, the time and the progress of
the device, it takes from a `Machine`.
-/
import AdaptiveLoops.Bench.Report
import AdaptiveLoops.CommandLine.Arguments
import AdaptiveLoops.CommandLine.Failure
import AdaptiveLoops.Config.Document
import AdaptiveLoops.Document.Yaml
import AdaptiveLoops.Statement.Dump

namespace AdaptiveLoops.CommandLine

/-- What a command leaves behind: its exit code and what it wrote. -/
structure Response where
  exit : UInt32
  output : String
  errors : String
  deriving DecidableEq, Repr

/-- The machine a command runs on; its answers are actions of `m`. -/
structure Machine (m : Type → Type) where
  cores : Nat
  /-- The time since some fixed moment. -/
  clock : m Duration
  /-- Asked before each iteration of a bench, with the number of iterations left after it. -/
  tick : Nat → Bench AnyModel → m Tick

def version : String := "kernport 0.1.0\n"

def usage : String :=
  "Usage: kernport [--time] [--pool-capacity <n>] [--warmup <strategy>] <command>\n" ++
  "\n" ++
  "Commands:\n" ++
  "  bench   [--shape <extents>] [--policies <policies>] [-n <count>] [--format <format>] " ++
  "[--explain]\n" ++
  "  config  [--format <format>]\n"

def unlines (ls : List String) : String :=
  String.join (ls.map (· ++ "\n"))

/-! ## Showing the configuration -/

def showConfig (format : Format) (c : Config) : String :=
  match format with
  | .json => Document.Json.pretty c.document ++ "\n"
  | .yaml => Document.Yaml.text c.document
  | .table => Document.Yaml.text c.document

/-! ## The bench -/

/-- What a command wrote, and how it ended. -/
abbrev Outcome := String × Except CommandError Unit

/-- The statement trees of candidates, the first one being number `index`. -/
def explain (space : IterationSpace) (index : Nat) : List Policy → String × Except LoopError Unit
  | [] => ("", .ok ())
  | p :: rest =>
    match Statement.build space p with
    | .error e => ("", .error e)
    | .ok tree =>
      let (others, result) := explain space (index + 1) rest
      (s!"candidate {index}: {p.text}\n" ++ tree.dump ++ others, result)

def showReport (format : Format) (r : BenchReport) : String :=
  match format with
  | .table => unlines r.table
  | .json => Document.Json.pretty r.document ++ "\n"
  | .yaml => Document.Yaml.text r.document

def benchSite : CallSite := .named "bench"

/-- The report of a bench that went well. -/
def concludeBench (time : Bool) (options : BenchOptions) (profile : Profile) (b : Bench AnyModel) :
    Outcome :=
  match b.registry.regionStats? b.site with
  | none => ("", .error .noRegion)
  | some stats =>
    let report := showReport options.format ⟨options.shape, options.iterations, b.picks, stats⟩
    (report ++ if time then unlines profile.table else "", .ok ())

variable {m : Type → Type} [Monad m]

/-- The time an action takes, and its result. -/
def timed {β : Type} (machine : Machine m) (name : String) (action : Unit → m β) : m (Phase × β) := do
  let start ← machine.clock
  let result ← action ()
  let stop ← machine.clock
  pure (⟨name, .ofNanos (stop.nanos - start.nanos)⟩, result)

/-- Runs the iterations of a bench on a registry that is ready for it. -/
def runBench (machine : Machine m) (time : Bool) (options : BenchOptions) (profile : Profile)
    (registry : Registry AnyModel) (space : IterationSpace) : m Outcome := do
  let (explained, trees) := if options.explain then explain space 0 options.policies else ("", .ok ())
  match trees with
  | .error e => pure (explained, .error (.loop e))
  | .ok () =>
    let bench := Bench.start registry benchSite options.policies space
    let (phase, bench, result) ←
      timed machine "Run" fun () => bench.run machine.tick options.iterations.toNat
    match result with
    | .error e => pure (explained, .error (.loop e))
    | .ok () =>
      let (report, result) := concludeBench time options (profile ++ [phase]) bench
      pure (explained ++ report, result)

def bench (machine : Machine m) (environment : String → Option String) (time : Bool)
    (flags : ConfigFlags) (options : BenchOptions) : m Outcome := do
  let (loading, config) ← timed machine "Config" fun () => pure (Config.effective environment flags)
  match config with
  | .error e => pure ("", .error (.config e))
  | .ok config =>
    let (starting, registry) ← timed machine "Backends" fun () =>
      pure (Registry.create config machine.cores fun _ _ => config.model.build)
    match registry with
    | .error e => pure ("", .error (.backends e))
    | .ok registry =>
      match IterationSpace.ofExtents options.shape with
      | .error e => pure ("", .error (.shape e))
      | .ok space => runBench machine time options [loading, starting] registry space

/-! ## Responding -/

def perform (machine : Machine m) (environment : String → Option String) (r : Request) : m Outcome :=
  match r.command with
  | .bench options => bench machine environment r.time r.flags options
  | .config format =>
    match Config.effective environment r.flags with
    | .error e => pure ("", .error (.config e))
    | .ok c => pure (showConfig format c, .ok ())

/-- The response of a command that was understood. -/
def Response.ofOutcome : Outcome → Response
  | (output, .ok ()) => ⟨0, output, ""⟩
  | (output, .error e) =>
    if e.isDefect then ⟨101, output, e.message ++ "\n"⟩ else ⟨1, output, e.text⟩

def Response.ofStop : Stop → Response
  | .version => ⟨0, version, ""⟩
  | .help => ⟨0, usage, ""⟩
  | .usage e => ⟨2, "", "error: " ++ e.message ++ "\n\n" ++ usage⟩

def respond (machine : Machine m) (environment : String → Option String) (words : List String) :
    m Response := do
  match Request.ofArguments words with
  | .error stop => pure (.ofStop stop)
  | .ok r =>
    let outcome ← perform machine environment r
    pure (.ofOutcome outcome)

end AdaptiveLoops.CommandLine
