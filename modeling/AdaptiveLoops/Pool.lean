/-
The completion pool of a region: a fixed number of slots for launches that
were not waited for.

A slot is free, reserved by a caller who is about to launch, or in flight
with a launch and the context to report it under. `free` lists the free
slots, the next one to hand out first; a slot that is given back is the
next to be handed out again. Whether a launch is complete is for the stream
to say, so the operations that depend on it are given the stream's answer; a
`sweep` is given one for each slot, since the stream may go on between two
of its looks.
-/
import AdaptiveLoops.Device.Stream
import AdaptiveLoops.Features
import AdaptiveLoops.Memory

namespace AdaptiveLoops

open Device (LaunchId Outcome)

/-- The candidate that an invocation runs under, and the features it was picked by. -/
structure Context where
  invocation : Nat
  features : Features
  candidate : Nat
  policy : Policy

inductive Slot where
  | free
  | reserved
  | inFlight (context : Context) (launch : LaunchId)

/-- A launch that was found complete. -/
structure Collected where
  slot : Nat
  context : Context
  outcome : Outcome

structure Pool where
  site : CallSite
  slots : List Slot
  free : List Nat

namespace Pool

/-- A slot takes 88 bytes. -/
def maxCapacity : Nat := Memory.capacity 88

/-- A pool with every slot free, to be handed out in order. -/
def ofCapacity (site : CallSite) (capacity : Nat) : Pool :=
  ⟨site, List.replicate capacity .free, List.range capacity⟩

def ofCapacity? (site : CallSite) (capacity : Nat) : Except LoopError Pool :=
  if maxCapacity < capacity then .error (.poolTooLarge capacity)
  else .ok (ofCapacity site capacity)

def capacity (p : Pool) : Nat := p.slots.length

def freeCount (p : Pool) : Nat := p.free.length

def inFlight (p : Pool) : Nat := p.slots.length - p.free.length

/-- Reserves the next free slot. -/
def acquire (p : Pool) : Except LoopError (Nat × Pool) :=
  match p.free with
  | [] => .error (.poolExhausted p.site p.capacity)
  | slot :: rest => .ok (slot, { p with slots := p.slots.set slot .reserved, free := rest })

/-- Puts a launch into a reserved slot. -/
def arm (p : Pool) (slot : Nat) (context : Context) (launch : LaunchId) : Except LoopError Pool :=
  match p.slots[slot]? with
  | some .reserved => .ok { p with slots := p.slots.set slot (.inFlight context launch) }
  | _ => .error (.slotNotInFlight slot)

/-- Whether the slot holds a launch that is complete. -/
def holdsComplete (p : Pool) (isComplete : LaunchId → Bool) (slot : Nat) : Bool :=
  match p.slots[slot]? with
  | some (.inFlight _ launch) => isComplete launch
  | _ => false

/-- The pool after a slot was given back. -/
def giveBack (p : Pool) (slot : Nat) : Pool :=
  { p with slots := p.slots.set slot .free, free := slot :: p.free }

/-- Gives back a slot that is reserved, or whose launch is complete. -/
def release (p : Pool) (isComplete : LaunchId → Bool) (slot : Nat) : Except LoopError Pool :=
  match p.slots[slot]? with
  | none => .error (.slotNotInFlight slot)
  | some .free => .error (.slotNotInFlight slot)
  | some .reserved => .ok (p.giveBack slot)
  | some (.inFlight _ launch) =>
    if isComplete launch then .ok (p.giveBack slot) else .error (.slotBusy slot)

/-- What a slot holds, if its launch is complete. -/
def collected? (outcome? : LaunchId → Option Outcome) (slot : Nat) : Slot → Option Collected
  | .inFlight context launch => (outcome? launch).map (⟨slot, context, ·⟩)
  | _ => none

/-- The launches among `slots`, the first slot being number `first`, that are seen complete. -/
def listed (seen : (slot : Nat) → LaunchId → Option Outcome) : (first : Nat) → List Slot → List Collected
  | _, [] => []
  | first, s :: rest => (collected? (seen first) first s).toList ++ listed seen (first + 1) rest

/-- A slot once what is complete has been collected. -/
def emptied (outcome? : LaunchId → Option Outcome) (s : Slot) : Slot :=
  if (collected? outcome? 0 s).isSome then .free else s

/-- Collects what is seen complete, one slot after the other, and frees its slots in that order. -/
def sweep (p : Pool) (seen : (slot : Nat) → LaunchId → Option Outcome) : List Collected × Pool :=
  let done := listed seen 0 p.slots
  (done, { p with
    slots := p.slots.mapIdx fun slot s => emptied (seen slot) s
    free := (done.map (·.slot)).reverse ++ p.free })

/-- Collects what is complete, where a launch is seen alike at every slot. -/
def poll (p : Pool) (outcome? : LaunchId → Option Outcome) : List Collected × Pool :=
  p.sweep fun _ => outcome?

/-- Whether a slot holds a launch of a candidate, complete or not. -/
def holds (candidate : Nat) : Slot → Bool
  | .inFlight context _ => context.candidate == candidate
  | _ => false

/-- For each of `count` candidates, the number of slots that hold a launch of it. -/
def pendingByCandidate (p : Pool) (count : Nat) : List Nat :=
  (List.range count).map fun c => p.slots.countP (holds c)

/-- `pendingByCandidate` for any number of candidates; a count takes 8 bytes. -/
def pendingByCandidate? (p : Pool) (count : Nat) : Except Fault (List Nat) :=
  if Memory.capacity 8 < count then .error .noRoom else .ok (p.pendingByCandidate count)

end Pool

end AdaptiveLoops
