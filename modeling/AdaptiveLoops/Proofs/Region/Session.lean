/-
Sessions: one caller's calls on a region and events of the stream, one after
the other, where the stream goes on during the calls as well.
-/
import AdaptiveLoops.Region

namespace AdaptiveLoops

open Device (Stream LaunchId Outcome)

variable {α : Type}

/-- A region, and the stream its launches are on. -/
structure Session (α : Type) where
  region : Region α
  stream : Stream

namespace Session

inductive Act where
  | invoke (plugins : List Plugin) (space : IterationSpace) (body : Body) (now : Moment)
    (meanwhile : Meanwhile)
  | drain (polling : Polling)
  | stream (e : Device.Event)

/-- Loops have a dimension. -/
def Act.HasDimension : Act → Prop
  | .invoke _ space _ _ _ => 0 < space.rank
  | .drain _ => True
  | .stream _ => True

/-- An act and the session it finds. -/
structure Turn (α : Type) where
  before : Session α
  act : Act

namespace Turn

/-- What the turn's poll sees of a launch. -/
def seen (t : Turn α) : LaunchId → Option Outcome :=
  match t.act with
  | .invoke _ _ _ _ meanwhile => meanwhile.polling.seen t.before.stream
  | .drain polling => polling.seen t.before.stream
  | .stream _ => fun _ => none

variable [Model α]

def after (t : Turn α) : Session α :=
  match t.act with
  | .invoke plugins space body now meanwhile =>
    let reply := t.before.region.invokeDuring t.before.stream meanwhile plugins space body now
    ⟨reply.region, reply.stream⟩
  | .drain polling => ⟨(t.before.region.drainSeeing t.seen).1, polling.after t.before.stream⟩
  | .stream e => { t.before with stream := t.before.stream.after e }

end Turn

variable [Model α]

def run (s : Session α) (acts : List Act) : Session α :=
  acts.foldl (fun s act => Turn.after ⟨s, act⟩) s

end Session

end AdaptiveLoops
