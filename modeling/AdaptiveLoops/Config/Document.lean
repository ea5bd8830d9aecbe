/-
Configurations in documents: a record with the eight fields. A reader
leaves a missing field at its default, and takes no other field.
-/
import AdaptiveLoops.Config.Text
import AdaptiveLoops.Document

namespace AdaptiveLoops.Config

open AdaptiveLoops (Document)

def document (c : Config) : Document :=
  .record
    [("pool_capacity", .word c.poolCapacity),
     ("warmup_samples", .word c.warmupSamples),
     ("warmup", .text c.warmup.text),
     ("on_pool_exhausted", .text c.onPoolExhausted.text),
     ("host_threads", .ofOption .word c.hostThreads),
     ("device_compute_units", .ofOption .word c.deviceComputeUnits),
     ("model", .text c.model.text),
     ("plugins", .bool c.plugins)]

def warmupOfDocument? (d : Document) : Option Warmup :=
  d.choice?.bind fun s =>
    if s = Warmup.defaultIndex.text then some .defaultIndex
    else if s = Warmup.roundRobin.text then some .roundRobin
    else none

def exhaustionOfDocument? (d : Document) : Option Exhaustion :=
  d.choice?.bind fun s =>
    if s = Exhaustion.fail.text then some .fail
    else if s = Exhaustion.synchronous.text then some .synchronous
    else none

def modelOfDocument? (d : Document) : Option ModelKind :=
  d.text?.bind fun s => (ModelKind.parse s).toOption

/-- The configuration with one field replaced, or none where the field is not one of the eight. -/
def setField? (c : Config) (key : String) (d : Document) : Option Config :=
  if key = "pool_capacity" then d.word?.map fun n => { c with poolCapacity := n }
  else if key = "warmup_samples" then d.word?.map fun n => { c with warmupSamples := n }
  else if key = "warmup" then (warmupOfDocument? d).map fun w => { c with warmup := w }
  else if key = "on_pool_exhausted" then
    (exhaustionOfDocument? d).map fun e => { c with onPoolExhausted := e }
  else if key = "host_threads" then
    (d.optional? (·.word?)).map fun n => { c with hostThreads := n }
  else if key = "device_compute_units" then
    (d.optional? (·.word?)).map fun n => { c with deviceComputeUnits := n }
  else if key = "model" then (modelOfDocument? d).map fun m => { c with model := m }
  else if key = "plugins" then d.bool?.map fun b => { c with plugins := b }
  else none

def setFields? (c : Config) : List (String × Document) → Option Config
  | [] => some c
  | (key, d) :: rest => (c.setField? key d).bind (setFields? · rest)

def ofDocument? (d : Document) : Option Config :=
  d.fields?.bind (setFields? default)

end AdaptiveLoops.Config
