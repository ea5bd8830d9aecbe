/-
Runs of a pool: calls with any slots, among launches that come to their end
on the stream at any time. `call_cases` says what one call can do; with it
each call keeps the pool valid (`Valid.call`) and as large as it was made,
and a call that is refused leaves it as it is (`call_of_error`).
-/
import AdaptiveLoops.Device.Stream
import AdaptiveLoops.Proofs.Pool.Valid

namespace AdaptiveLoops

open Device (Stream LaunchId)

namespace Pool

/-- A call on a pool. The slot may be any number, held or not. -/
inductive Call where
  | acquire
  | arm (slot : Nat) (context : Context) (launch : LaunchId)
  | tryComplete (slot : Nat)
  | release (slot : Nat)
  | poll

inductive Answer where
  | acquired (slot : Nat)
  | done
  | complete (answer : Bool)
  | collected (launches : List Collected)

/-- The pool after a call, and what the call answers. -/
def call (p : Pool) (stream : Stream) : Call → Pool × Except LoopError Answer
  | .acquire =>
    match p.acquire with
    | .error e => (p, .error e)
    | .ok (slot, p) => (p, .ok (.acquired slot))
  | .arm slot context launch =>
    match p.arm slot context launch with
    | .error e => (p, .error e)
    | .ok p => (p, .ok .done)
  | .tryComplete slot => (p, .ok (.complete (p.holdsComplete stream.isComplete slot)))
  | .release slot =>
    match p.release stream.isComplete slot with
    | .error e => (p, .error e)
    | .ok p => (p, .ok .done)
  | .poll =>
    let (done, p) := p.poll stream.outcome?
    (p, .ok (.collected done))

/-- A pool, and the stream its launches are on. -/
structure Shared where
  pool : Pool
  stream : Stream

inductive Event where
  | call (c : Call)
  | stream (e : Device.Event)

namespace Shared

def step (s : Shared) : Event → Shared
  | .call c => { s with pool := (s.pool.call s.stream c).1 }
  | .stream e => { s with stream := s.stream.after e }

def run (s : Shared) (events : List Event) : Shared :=
  events.foldl step s

end Shared

variable {p : Pool} {stream : Stream}

/-! ## One call -/

/-- What a call can come to. -/
inductive Called (p : Pool) (stream : Stream) : Pool × Except LoopError Answer → Prop where
  | refused (e : LoopError) : Called p stream (p, .error e)
  | acquired {slot : Nat} {p' : Pool} (h : p.acquire = .ok (slot, p')) :
    Called p stream (p', .ok (.acquired slot))
  | armed {slot : Nat} {context : Context} {launch : LaunchId} {p' : Pool}
      (h : p.arm slot context launch = .ok p') :
    Called p stream (p', .ok .done)
  | looked (answer : Bool) : Called p stream (p, .ok (.complete answer))
  | released {slot : Nat} {p' : Pool} (h : p.release stream.isComplete slot = .ok p') :
    Called p stream (p', .ok .done)
  | polled :
    Called p stream ((p.poll stream.outcome?).2, .ok (.collected (p.poll stream.outcome?).1))

theorem call_cases (c : Call) : Called p stream (p.call stream c) := by
  cases c with
  | acquire =>
    simp only [call]
    split
    · exact .refused _
    · next h => exact .acquired h
  | arm slot context launch =>
    simp only [call]
    split
    · exact .refused _
    · next h => exact .armed h
  | tryComplete slot => exact .looked _
  | release slot =>
    simp only [call]
    split
    · exact .refused _
    · next h => exact .released h
  | poll => exact .polled

theorem call_of_error {c : Call} {e : LoopError} (h : (p.call stream c).2 = .error e) :
    (p.call stream c).1 = p := by
  have hcall : Called p stream (p.call stream c) := call_cases c
  generalize p.call stream c = out at h hcall ⊢
  cases hcall with
  | refused e => rfl
  | acquired _ => cases h
  | armed _ => cases h
  | looked _ => cases h
  | released _ => cases h
  | polled => cases h

theorem Valid.call (h : p.Valid) (c : Call) : (p.call stream c).1.Valid := by
  have hcall : Called p stream (p.call stream c) := call_cases c
  generalize p.call stream c = out at hcall ⊢
  cases hcall with
  | refused e => exact h
  | acquired hp => exact h.acquire hp
  | armed hp => exact h.arm hp
  | looked _ => exact h
  | released hp => exact h.release hp
  | polled => exact h.poll stream.outcome?

theorem capacity_call (c : Call) : (p.call stream c).1.capacity = p.capacity := by
  have hcall : Called p stream (p.call stream c) := call_cases c
  generalize p.call stream c = out at hcall ⊢
  cases hcall with
  | refused e => rfl
  | acquired hp =>
    obtain ⟨rest, -, rfl⟩ := acquire_eq_ok hp
    exact List.length_set
  | armed hp =>
    obtain ⟨-, rfl⟩ := arm_eq_ok hp
    exact List.length_set
  | looked _ => rfl
  | released hp =>
    obtain ⟨-, rfl⟩ := release_eq_ok hp
    exact List.length_set
  | polled => exact List.length_mapIdx

/-! ## Runs -/

theorem Shared.run_valid : ∀ (events : List Event) {s : Shared}, s.pool.Valid →
    (s.run events).pool.Valid ∧ (s.run events).pool.capacity = s.pool.capacity
  | [], s, h => ⟨h, rfl⟩
  | .call c :: events, s, h => by
    have ih := run_valid events (s := s.step (.call c)) (h.call c)
    exact ⟨ih.1, ih.2.trans (capacity_call c)⟩
  | .stream e :: events, s, h => run_valid events (s := s.step (.stream e)) h

/--
**A pool accounts for its slots after any run**: the free list is the free
slots, each once, the held ones are the rest, a slot is handed out exactly
where one is free, and what is refused changes nothing.
-/
theorem run_accounts (site : CallSite) (capacity : Nat) (stream : Stream) (events : List Event) :
    let s := Shared.run ⟨ofCapacity site capacity, stream⟩ events
    (s.pool.free.Nodup ∧ ∀ slot, slot ∈ s.pool.free ↔ s.pool.slots[slot]? = some .free) ∧
    s.pool.capacity = capacity ∧ s.pool.freeCount + s.pool.inFlight = s.pool.capacity ∧
    s.pool.inFlight = s.pool.slots.countP Slot.isHeld ∧
    ((∃ slot p, s.pool.acquire = .ok (slot, p)) ↔ .free ∈ s.pool.slots) ∧
    (∀ slot p, s.pool.acquire = .ok (slot, p) →
      s.pool.slots[slot]? = some .free ∧ p.slots = s.pool.slots.set slot .reserved) ∧
    ∀ c e, (s.pool.call s.stream c).2 = .error e → (s.pool.call s.stream c).1 = s.pool := by
  intro s
  obtain ⟨hvalid, hcapacity⟩ := Shared.run_valid events (s := ⟨ofCapacity site capacity, stream⟩)
    (valid_ofCapacity site capacity)
  refine ⟨⟨hvalid.nodup, hvalid.mem_free⟩, ?_, hvalid.freeCount_add_inFlight, hvalid.inFlight_eq,
    hvalid.acquire_iff, fun slot p hp => hvalid.acquired hp, fun c e => call_of_error⟩
  exact hcapacity.trans List.length_replicate

end Pool

end AdaptiveLoops
