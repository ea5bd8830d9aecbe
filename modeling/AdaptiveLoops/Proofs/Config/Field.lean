/-
The fields of a configuration, and layers over it.

A configuration is what its fields hold (`ext_get`), and one field can be
replaced alone (`get_set_self`, `get_set_other`). A `Layer` is what one
source of settings says: a value for some of the fields, and nothing about
the others. Laid over a configuration it replaces just the fields it speaks
of (`get_overlay`), and laid over it again it changes nothing (`overlay_overlay`).
-/
import AdaptiveLoops.Config

namespace AdaptiveLoops.Config

inductive Field where
  | poolCapacity
  | warmupSamples
  | warmup
  | onPoolExhausted
  | hostThreads
  | deviceComputeUnits
  | model
  | plugins
  deriving DecidableEq, Repr

namespace Field

/-- What a field holds. -/
def Value : Field → Type
  | .poolCapacity => UInt64
  | .warmupSamples => UInt64
  | .warmup => Warmup
  | .onPoolExhausted => Exhaustion
  | .hostThreads => Option UInt64
  | .deviceComputeUnits => Option UInt64
  | .model => ModelKind
  | .plugins => Bool

def get : (f : Field) → Config → f.Value
  | .poolCapacity, c => c.poolCapacity
  | .warmupSamples, c => c.warmupSamples
  | .warmup, c => c.warmup
  | .onPoolExhausted, c => c.onPoolExhausted
  | .hostThreads, c => c.hostThreads
  | .deviceComputeUnits, c => c.deviceComputeUnits
  | .model, c => c.model
  | .plugins, c => c.plugins

def set : (f : Field) → f.Value → Config → Config
  | .poolCapacity, n, c => { c with poolCapacity := n }
  | .warmupSamples, n, c => { c with warmupSamples := n }
  | .warmup, w, c => { c with warmup := w }
  | .onPoolExhausted, e, c => { c with onPoolExhausted := e }
  | .hostThreads, n, c => { c with hostThreads := n }
  | .deviceComputeUnits, n, c => { c with deviceComputeUnits := n }
  | .model, m, c => { c with model := m }
  | .plugins, b, c => { c with plugins := b }

@[simp] theorem get_set_self (f : Field) (v : f.Value) (c : Config) : f.get (f.set v c) = v := by
  cases f <;> rfl

theorem get_set_other {f g : Field} (h : g ≠ f) (v : f.Value) (c : Config) : g.get (f.set v c) = g.get c := by
  cases f <;> cases g <;> first | rfl | exact absurd rfl h

theorem ext_get {c d : Config} (h : ∀ f : Field, f.get c = f.get d) : c = d := by
  cases c
  cases d
  rw [mk.injEq]
  exact ⟨h .poolCapacity, h .warmupSamples, h .warmup, h .onPoolExhausted, h .hostThreads, h .deviceComputeUnits,
    h .model, h .plugins⟩

end Field

/-! ## Layers -/

/-- What one source of settings says: a value for some of the fields. -/
abbrev Layer := (f : Field) → Option f.Value

namespace Layer

/-- The configuration with the fields that the layer speaks of replaced. -/
def overlay (l : Layer) (c : Config) : Config where
  poolCapacity := (l .poolCapacity).getD c.poolCapacity
  warmupSamples := (l .warmupSamples).getD c.warmupSamples
  warmup := (l .warmup).getD c.warmup
  onPoolExhausted := (l .onPoolExhausted).getD c.onPoolExhausted
  hostThreads := (l .hostThreads).getD c.hostThreads
  deviceComputeUnits := (l .deviceComputeUnits).getD c.deviceComputeUnits
  model := (l .model).getD c.model
  plugins := (l .plugins).getD c.plugins

/-- All that a configuration says. -/
def of (c : Config) : Layer := fun f => some (f.get c)

/-- The part of a layer that speaks of the given fields. -/
def on (l : Layer) (fs : List Field) : Layer := fun f => if f ∈ fs then l f else none

variable {l : Layer} {c : Config}

theorem get_overlay (l : Layer) (c : Config) (f : Field) : f.get (l.overlay c) = (l f).getD (f.get c) := by
  cases f <;> rfl

@[simp] theorem overlay_overlay (l : Layer) (c : Config) : l.overlay (l.overlay c) = l.overlay c := by
  refine Field.ext_get fun f => ?_
  rw [get_overlay, get_overlay]
  cases l f <;> rfl

theorem on_nil_overlay : (l.on []).overlay c = c := by
  refine Field.ext_get fun f => ?_
  simp [get_overlay, on]

theorem on_cons_overlay (f : Field) (fs : List Field) :
    (l.on (f :: fs)).overlay c = (l.on fs).overlay ((l.on [f]).overlay c) := by
  refine Field.ext_get fun g => ?_
  simp only [get_overlay, on, List.mem_cons, List.not_mem_nil, or_false]
  by_cases hgf : g = f
  · subst hgf
    by_cases hg : g ∈ fs <;> cases l g <;> simp [hg]
  · by_cases hg : g ∈ fs <;> simp [hg, hgf]

theorem on_singleton_overlay_of_some {f : Field} {v : f.Value} (h : l f = some v) :
    (l.on [f]).overlay c = f.set v c := by
  refine Field.ext_get fun g => ?_
  rw [get_overlay, on]
  by_cases hg : g = f
  · subst hg
    simp [h]
  · simp [hg, Field.get_set_other hg]

theorem on_singleton_overlay_of_none {f : Field} (h : l f = none) : (l.on [f]).overlay c = c := by
  refine Field.ext_get fun g => ?_
  rw [get_overlay, on]
  by_cases hg : g = f
  · subst hg
    simp [h]
  · simp [hg]

/-- Nothing is lost of a layer that speaks of the given fields alone. -/
theorem on_eq_self {fs : List Field} (h : ∀ f, f ∉ fs → l f = none) : l.on fs = l := by
  funext f
  by_cases hf : f ∈ fs
  · simp [on, hf]
  · simp [on, hf, h f hf]

end Layer

end AdaptiveLoops.Config
