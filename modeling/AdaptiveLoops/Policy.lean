/-
Execution policies: how one loop runs.

A policy names a backend, and with it the side of the host/device boundary,
and for the device whether a launch is waited for. The grain of a threaded
policy and the block of a device policy are unsigned 64-bit numbers; both
may be zero in a policy that was read from a document.
-/
namespace AdaptiveLoops

/-- What runs the loop. -/
inductive Backend where
  | sequential
  | threaded
  | device
  deriving DecidableEq, Repr

def Backend.text : Backend → String
  | .sequential => "sequential"
  | .threaded => "threaded"
  | .device => "device"

/-- The side of the host/device boundary a loop runs on. -/
inductive Place where
  | host
  | device
  deriving DecidableEq, Repr

def Place.text : Place → String
  | .host => "host"
  | .device => "device"

/-- Whether a device launch is waited for. -/
inductive Mode where
  | sync
  | async
  deriving DecidableEq, Repr

def Mode.text : Mode → String
  | .sync => "sync"
  | .async => "async"

inductive Policy where
  | sequential
  | threaded (minChunk : UInt64)
  | device (blockSize : UInt64) (mode : Mode)
  deriving DecidableEq, Repr

namespace Policy

def backend : Policy → Backend
  | .sequential => .sequential
  | .threaded _ => .threaded
  | .device _ _ => .device

def place : Policy → Place
  | .sequential => .host
  | .threaded _ => .host
  | .device _ _ => .device

def isAsync : Policy → Bool
  | .device _ .async => true
  | _ => false

def isDevice : Policy → Bool
  | .device _ _ => true
  | _ => false

def blockSize? : Policy → Option UInt64
  | .device block _ => some block
  | _ => none

/-- The policy whose launches are always waited for. -/
def synchronous : Policy → Policy
  | .device block _ => .device block .sync
  | p => p

@[simp] theorem isAsync_synchronous (p : Policy) : p.synchronous.isAsync = false := by
  cases p <;> rfl

@[simp] theorem synchronous_synchronous (p : Policy) :
    p.synchronous.synchronous = p.synchronous := by
  cases p <;> rfl

@[simp] theorem backend_synchronous (p : Policy) : p.synchronous.backend = p.backend := by
  cases p <;> rfl

/-- The grain of a threaded policy that names none. -/
def defaultMinChunk : UInt64 := 1

/-- The block of a device policy that names none. -/
def defaultBlockSize : UInt64 := 256

end Policy

/-! ## Tags -/

/-- A policy fixed where the loop is written. Its grain and block are not zero. -/
inductive PolicyTag where
  | seqExec
  | threadedExec (minChunk : UInt64)
  | deviceExec (block : UInt64)
  | deviceAsyncExec (block : UInt64)
  deriving DecidableEq, Repr

namespace PolicyTag

def policy : PolicyTag → Policy
  | .seqExec => .sequential
  | .threadedExec minChunk => .threaded minChunk
  | .deviceExec block => .device block .sync
  | .deviceAsyncExec block => .device block .async

def backend : PolicyTag → Backend
  | .seqExec => .sequential
  | .threadedExec _ => .threaded
  | .deviceExec _ => .device
  | .deviceAsyncExec _ => .device

def isAsync : PolicyTag → Bool
  | .deviceAsyncExec _ => true
  | _ => false

theorem backend_policy (t : PolicyTag) : t.policy.backend = t.backend := by
  cases t <;> rfl

theorem isAsync_policy (t : PolicyTag) : t.policy.isAsync = t.isAsync := by
  cases t <;> rfl

end PolicyTag

end AdaptiveLoops
