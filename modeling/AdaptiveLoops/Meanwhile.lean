/-
What the stream does during a call.

A poll looks at one launch after the other, and an invocation looks at the
stream again where it puts a candidate into use and where it launches. The
stream goes on before each of these looks, by any events.
-/
import AdaptiveLoops.Device.Stream

namespace AdaptiveLoops

open Device (Stream LaunchId Outcome)

/-- What the stream does during a poll, and after how many of these events each launch is looked at. -/
structure Polling where
  events : List Device.Event
  looked : LaunchId → Nat

namespace Polling

/-- Nothing happens. -/
def still : Polling := ⟨[], fun _ => 0⟩

/-- What the poll sees of a launch. -/
def seen (p : Polling) (s : Stream) (id : LaunchId) : Option Outcome :=
  (s.run (p.events.take (p.looked id))).outcome? id

/-- The stream when the poll is over. -/
def after (p : Polling) (s : Stream) : Stream :=
  s.run p.events

end Polling

/-- What the stream does during an invocation: while it polls, until it has a candidate, until it launches. -/
structure Meanwhile where
  polling : Polling
  choosing : List Device.Event
  issuing : List Device.Event

namespace Meanwhile

/-- Nothing happens. -/
def still : Meanwhile := ⟨.still, [], []⟩

def atChoice (m : Meanwhile) (s : Stream) : Stream :=
  (m.polling.after s).run m.choosing

def atLaunch (m : Meanwhile) (s : Stream) : Stream :=
  (m.atChoice s).run m.issuing

end Meanwhile

end AdaptiveLoops
