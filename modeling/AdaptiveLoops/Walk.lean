/-
Walking a statement tree: which tuples reach the loop body, and how it ends.

A walk carries a frame, the range and the current index of each dimension.
A loop sets its index and leaves the last one behind; a parallel loop works
on copies of the frame, one for each run, and leaves the frame as it was.
Pieces narrow a range: on the host in place, with the range put back at the
end, and on the device in the copies of parallel runs.

A walk stops at its first fault. In a parallel loop every run goes on to
its own end or first fault, and of several faults the first in the order of
the runs is the loop's.
-/
import AdaptiveLoops.Body
import AdaptiveLoops.IterationSpace
import AdaptiveLoops.Memory
import AdaptiveLoops.Schedule
import AdaptiveLoops.Statement

namespace AdaptiveLoops

/-- The range and the current index of every dimension. -/
structure Frame where
  ranges : List Segment
  index : Tuple
  deriving DecidableEq, Repr

namespace Frame

/-- Every index at the begin of its range. -/
def ofSpace (space : IterationSpace) : Frame :=
  ⟨space.segments, space.segments.map (·.begin.toInt)⟩

def setIndex (f : Frame) (dim : Nat) (i : Int) : Frame :=
  { f with index := f.index.set dim i }

def setRange (f : Frame) (dim : Nat) (s : Segment) : Frame :=
  { f with ranges := f.ranges.set dim s }

end Frame

/-- How far a walk has come: its frame, its calls of the body, and its fault. -/
structure Progress where
  frame : Frame
  calls : Array Call
  fault : Option Fault
  deriving DecidableEq, Repr

namespace Progress

/-- The tuples passed to the body. -/
def visits (p : Progress) : Array Tuple :=
  p.calls.map (·.index)

def start (f : Frame) : Progress := ⟨f, #[], none⟩

def stop (f : Frame) (fault : Fault) : Progress := ⟨f, #[], some fault⟩

/-- Goes on with `next`, unless there was a fault. -/
def andThen (p : Progress) (next : Frame → Progress) : Progress :=
  match p with
  | ⟨frame, calls, some fault⟩ => ⟨frame, calls, some fault⟩
  | ⟨frame, calls, none⟩ =>
    let q := next frame
    ⟨q.frame, calls ++ q.calls, q.fault⟩

/-- Goes on with `step` at `count` places from `first` on. -/
def iterate (step : Nat → Frame → Progress) : (count first : Nat) → Progress → Progress
  | 0, _, p => p
  | count + 1, first, p =>
    if p.fault.isSome then p else iterate step count (first + 1) (p.andThen (step first))

/-- Lets `change` at the frame of a walk that had no fault. -/
def mapFrame (change : Frame → Frame) (p : Progress) : Progress :=
  if p.fault.isSome then p else { p with frame := change p.frame }

/-- Every run on its own copy of the frame. -/
def parallel (step : Nat → Frame → Progress) (frame : Frame) (runs : List Run) : Progress :=
  let parts := runs.map fun r => iterate step r.size r.first (start frame)
  { frame
    calls := parts.foldl (fun acc p => acc ++ p.calls) #[]
    fault := parts.findSome? (·.fault) }

end Progress

/-- What a walk needs besides the tree and the frame. -/
structure Walker where
  body : Body
  schedule : Schedule
  /-- Whether pieces run in parallel. -/
  onDevice : Bool

namespace Walker

/-- Passes the current tuple to the body. -/
def call (w : Walker) (path : Path) (f : Frame) : Progress :=
  let call : Call := ⟨path, f.index⟩
  ⟨f, #[call], (w.body call).map .panic⟩

/-- The grain of a loop whose runs may go to several threads, or none for a loop in order. -/
def grain? : Policy → Option Nat
  | .threaded minChunk => some minChunk.toNat
  | _ => none

/-- A loop over `s` with the given body, in order or in parallel runs. -/
def loop (w : Walker) (path : Path) (dim : Nat) (policy : Policy) (s : Segment)
    (body : Path → Frame → Progress) (f : Frame) : Progress :=
  match grain? policy with
  | none =>
    Progress.iterate (fun k f => body (k :: path) (f.setIndex dim (s.index k))) s.length 0 (.start f)
  | some grain =>
    Progress.parallel
      (fun k f =>
        match s.indexAtOffset? k with
        | some i => body (k :: path) (f.setIndex dim i)
        | none => .stop f .overflow)
      f (w.schedule.runs path grain s.length)

/--
Pieces of `s` with the given body: in order on the host, in parallel runs on
the device. The device has a list of its pieces first, 16 bytes for each.
-/
def pieces (w : Walker) (path : Path) (dim : Nat) (length : UInt64) (s : Segment)
    (body : Path → Frame → Progress) (f : Frame) : Progress :=
  let step := fun k f => body (k :: path) (f.setRange dim (s.chunk length k))
  if w.onDevice then
    if Memory.capacity 16 < s.chunkCount length then .stop f .noRoom
    else Progress.parallel step f (w.schedule.runs path 1 (s.chunkCount length))
  else
    (Progress.iterate step (s.chunkCount length) 0 (.start f)).mapFrame (·.setRange dim s)

mutual

def run (w : Walker) (path : Path) : Statement → Frame → Progress
  | .loop dim policy body, f =>
    match f.ranges[dim]? with
    | none => .stop f (.noDimension f.ranges.length dim)
    | some s => w.loop path dim policy s (fun path f => runAll w path 0 body f) f
  | .kernel _ body, f => runAll w path 0 body f
  | .segments dim length body, f =>
    match f.ranges[dim]? with
    | none => .stop f (.noDimension f.ranges.length dim)
    | some s => w.pieces path dim length s (fun path f => runAll w path 0 body f) f
  | .barrier, f => .start f
  | .call, f => w.call path f

/-- Runs statements in order, the first at `position` among its siblings. -/
def runAll (w : Walker) (path : Path) (position : Nat) : List Statement → Frame → Progress
  | [], f => .start f
  | s :: rest, f =>
    (run w (position :: path) s f).andThen (runAll w path (position + 1) rest)

end

end Walker

end AdaptiveLoops
