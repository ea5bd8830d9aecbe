/-
Segments: half-open ranges `[begin, stop)` of signed 64-bit indices.

A segment whose `stop` is not past its `begin` is empty, also where the two
are the wrong way round. `chunk` cuts pieces of a given length off the
front: piece `k` starts `k` lengths after `begin`, and ends one length
later or at `stop`, whichever is first.

The length of a piece is an unsigned number, and where a piece ends is
found by adding it as a signed one, which stays at the last index instead
of passing it. Below 2^63 the two readings agree. From 2^63 on the signed
reading is negative, and then a piece ends before it begins.
-/
import AdaptiveLoops.Fault
import AdaptiveLoops.Schedule

namespace AdaptiveLoops

structure Segment where
  begin : Int64
  stop : Int64
  deriving DecidableEq, Repr

namespace Segment

/-- The number of indices, at most 2^64 - 1. -/
def length (s : Segment) : Nat :=
  (s.stop.toInt - s.begin.toInt).toNat

def isEmpty (s : Segment) : Bool :=
  s.stop ≤ s.begin

theorem length_lt (s : Segment) : s.length < UInt64.size := by
  have := s.begin.le_toInt
  have := s.stop.toInt_lt
  unfold length UInt64.size
  omega

theorem isEmpty_iff (s : Segment) : s.isEmpty = true ↔ s.length = 0 := by
  simp only [isEmpty, decide_eq_true_eq, Int64.le_iff_toInt_le, length]
  omega

/-- The length of the pieces cut for a requested length: at least 1. -/
def step (len : UInt64) : UInt64 :=
  if len = 0 then 1 else len

theorem step_pos (len : UInt64) : 0 < (step len).toNat := by
  unfold step
  split
  · decide
  · rename_i h
    exact Nat.pos_of_ne_zero fun e => h (UInt64.toNat_inj.1 e)

def chunkCount (s : Segment) (len : UInt64) : Nat :=
  (s.length + ((step len).toNat - 1)) / (step len).toNat

/-- The index `k` lengths after `begin`. -/
def chunkBegin (s : Segment) (len : UInt64) (k : Nat) : Int64 :=
  .ofIntClamp (s.begin.toInt + k * (step len).toNat)

/-- One length after `i`, the length read as a signed number. -/
def advance (i : Int64) (len : UInt64) : Int64 :=
  .ofIntClamp (i.toInt + (step len).toInt64.toInt)

def chunk (s : Segment) (len : UInt64) (k : Nat) : Segment :=
  ⟨s.chunkBegin len k, min (advance (s.chunkBegin len k) len) s.stop⟩

def chunks (s : Segment) (len : UInt64) : List Segment :=
  (List.range (s.chunkCount len)).map (s.chunk len)

/-- The index `k` places after `begin`. -/
def index (s : Segment) (k : Nat) : Int :=
  s.begin.toInt + k

def indices (s : Segment) : List Int :=
  (List.range s.length).map s.index

/-- An offset below 2^64 read as a signed number. -/
def signedOffset (offset : Nat) : Int :=
  (offset : Int).bmod UInt64.size

/--
The index a parallel loop reaches from an offset: `begin` and the offset
read as a signed number, where their sum is a 64-bit number.
-/
def indexAtOffset? (s : Segment) (offset : Nat) : Option Int :=
  let i := s.begin.toInt + signedOffset offset
  if Int64.minValue.toInt ≤ i ∧ i ≤ Int64.maxValue.toInt then some i else none

/-- The indices a parallel loop over `s` reaches, run after run. -/
def threadedIndices? (s : Segment) (runs : List Run) : Except Fault (List Int) :=
  (runs.flatMap Run.offsets).mapM fun k =>
    match s.indexAtOffset? k with
    | some i => .ok i
    | none => .error .overflow

end Segment

end AdaptiveLoops
