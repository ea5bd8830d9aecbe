/-
Overrides: variables of the environment that replace fields of a
configuration.

The variables are looked at in the order of `overridable`. A text is read
without the blanks around it; the first one that cannot be read ends the
whole, and what was replaced before it stays.
-/
import AdaptiveLoops.Config.Text

namespace AdaptiveLoops

/-- Why the text of a variable cannot be read. -/
inductive OverrideCause where
  | numeral (e : Text.NumeralError)
  | warmup (e : WarmupTextError)
  | exhaustion (e : ExhaustionTextError)
  | model (e : ModelTextError)
  deriving DecidableEq, Repr

def OverrideCause.message : OverrideCause → String
  | .numeral e => e.message
  | .warmup e => e.message
  | .exhaustion e => e.message
  | .model e => e.message

/-- A variable whose text cannot be read. -/
structure OverrideError where
  name : String
  value : String
  cause : OverrideCause
  deriving DecidableEq, Repr

namespace OverrideError

/-- What failed, without the reason. -/
def context (e : OverrideError) : String :=
  s!"invalid value `{e.value}` for {e.name}"

def message (e : OverrideError) : String :=
  e.context ++ ": " ++ e.cause.message

end OverrideError

/-- A variable, and how its text without blanks around it changes a configuration. -/
structure Variable where
  name : String
  set : String → Config → Except OverrideCause Config

namespace Variable

def poolCapacity : Variable where
  name := "KERNPORT_POOL_CAPACITY"
  set text c :=
    ((Text.Numeral.parse text).mapError .numeral).map fun n => { c with poolCapacity := n }

def warmup : Variable where
  name := "KERNPORT_WARMUP"
  set text c := ((Warmup.parse text).mapError .warmup).map fun w => { c with warmup := w }

def warmupSamples : Variable where
  name := "KERNPORT_WARMUP_SAMPLES"
  set text c :=
    ((Text.Numeral.parse text).mapError .numeral).map fun n => { c with warmupSamples := n }

def onPoolExhausted : Variable where
  name := "KERNPORT_ON_POOL_EXHAUSTED"
  set text c :=
    ((Exhaustion.parse text).mapError .exhaustion).map fun e => { c with onPoolExhausted := e }

def hostThreads : Variable where
  name := "KERNPORT_HOST_THREADS"
  set text c :=
    ((Text.Numeral.parse text).mapError .numeral).map fun n => { c with hostThreads := some n }

def model : Variable where
  name := "KERNPORT_MODEL"
  set text c := ((ModelKind.parse text).mapError .model).map fun m => { c with model := m }

/-- Applies a variable's text, if it has one. -/
def apply (v : Variable) (value : Option String) (c : Config) : Except OverrideError Config :=
  match value with
  | none => .ok c
  | some value => (v.set (Text.trim value) c).mapError fun cause => ⟨v.name, value, cause⟩

end Variable

namespace Config

/-- The variables, in the order they are looked at. -/
def overridable : List Variable :=
  [.poolCapacity, .warmup, .warmupSamples, .onPoolExhausted, .hostThreads, .model]

/-- Applies variables in order; the configuration is the one reached when one cannot be read. -/
def applyAll (lookup : String → Option String) : List Variable → Config →
    Config × Except OverrideError Unit
  | [], c => (c, .ok ())
  | v :: rest, c =>
    match v.apply (lookup v.name) c with
    | .error e => (c, .error e)
    | .ok c => applyAll lookup rest c

def applyOverrides (lookup : String → Option String) (c : Config) :
    Config × Except OverrideError Unit :=
  applyAll lookup overridable c

end Config

end AdaptiveLoops
