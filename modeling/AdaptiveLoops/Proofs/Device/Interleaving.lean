/-
The stream, its callers and its worker, one step at a time.

A launch is five steps under a lock: the caller looks at the flag, counts
the launch, counts it as in flight, puts the kernel into the queue of
incoming ones, and notes the launch as the last. Meanwhile the worker goes
round its loop: it looks into its own queue, then steals from the queue of
incoming kernels, and when there is nothing anywhere it looks at the flag,
and leaves if it then still finds nothing. A kernel that it has taken it
starts, counts in two or three counters, and completes. Steps of a caller
and of the worker come in any order, and no step updates two counters.

`Machine` has all these steps, on a `Stream` of which each changes what it
changes. A machine is never in a state that a stream could not be in, but
for the launch that is under way: `run_refines` gives for every run of the
machine a run of the stream, where a launch happens at once, when its kernel
gets into the queue, and the worker's leaving is one step.
-/
import AdaptiveLoops.Proofs.Device.Order

namespace AdaptiveLoops.Device

/-- How far the caller who has the lock is with its launch. -/
inductive Calling where
  | idle
  | admitted (work : Work)
  /-- Counted as launched. -/
  | launched (work : Work)
  /-- Counted as in flight, too. -/
  | counted (work : Work)
  | pushed (id : LaunchId)

/-- Where the worker is in its loop. -/
inductive Station where
  /-- About to look into its own queue. -/
  | popping
  /-- Found nothing there, and is about to steal. -/
  | stealing
  /-- Found nothing to steal, and is about to look at the flag. -/
  | asking
  /-- Found the stream closed, and is about to look for incoming kernels once more. -/
  | leaving
  | running
  | gone

structure Machine where
  stream : Stream
  calling : Calling
  station : Station

/-- One step of a caller or of the worker. -/
inductive Action where
  /-- A caller that wants to launch takes the lock and looks at the flag. -/
  | call (work : Work)
  /-- The next step of the launch that is under way. -/
  | proceed
  | shutdown
  /-- The worker's next step. A theft gets that many further kernels at most, or has to be tried again. -/
  | worker (more? : Option Nat)

namespace Machine

def initial : Machine := ⟨.empty, .idle, .popping⟩

/-! ## Callers -/

/-- A caller waits while another has the lock; with the lock it is let in, or refused. -/
def call (m : Machine) (work : Work) : Machine :=
  match m.calling with
  | .idle => if m.stream.closed then m else { m with calling := .admitted work }
  | _ => m

def proceed (m : Machine) : Machine :=
  match m.calling with
  | .idle => m
  | .admitted work =>
    { m with
      stream := { m.stream with metrics := m.stream.metrics.countLaunched }
      calling := .launched work }
  | .launched work =>
    { m with
      stream := { m.stream with metrics := m.stream.metrics.enterFlight }
      calling := .counted work }
  | .counted work =>
    let id := m.stream.completions.size
    { m with
      stream := { m.stream with
        incoming := m.stream.incoming ++ [⟨id, work⟩]
        completions := m.stream.completions.push .pending }
      calling := .pushed id }
  | .pushed id => { m with stream := { m.stream with last := some id }, calling := .idle }

/-- The flag is set under the lock. -/
def shutdown (m : Machine) : Machine :=
  match m.calling with
  | .idle => { m with stream := m.stream.shutdown }
  | _ => m

/-- What a launch is told in a step. -/
def answer (m : Machine) : Action → Option (Except LoopError LaunchId)
  | .call _ =>
    match m.calling with
    | .idle => if m.stream.closed then some (.error .streamClosed) else none
    | _ => none
  | .proceed =>
    match m.calling with
    | .pushed id => some (.ok id)
    | _ => none
  | _ => none

/-! ## The worker -/

/-- The next step of the worker while it runs a kernel. -/
def runKernel (m : Machine) : Machine :=
  match m.stream.running with
  | none => m
  | some (_, .taken) => { m with stream := m.stream.step .start }
  | some (_, .counted) => { m with stream := m.stream.step .complete, station := .popping }
  | some _ => { m with stream := m.stream.step .count }

def work (m : Machine) (more? : Option Nat) : Machine :=
  match m.station with
  | .popping =>
    match m.stream.batch with
    | [] => { m with station := .stealing }
    | _ :: _ => { m with stream := m.stream.step .take, station := .running }
  | .stealing =>
    match more? with
    | none => { m with station := .popping }
    | some more =>
      match m.stream.incoming with
      | [] => { m with station := .asking }
      | _ :: _ => { m with stream := m.stream.step (.steal more), station := .running }
  | .asking => { m with station := if m.stream.closed then .leaving else .popping }
  | .leaving =>
    match m.stream.incoming with
    | [] => { m with stream := { m.stream with exited := true }, station := .gone }
    | _ :: _ => { m with station := .popping }
  | .running => m.runKernel
  | .gone => m

/-! ## Runs -/

def step (m : Machine) : Action → Machine
  | .call work => m.call work
  | .proceed => m.proceed
  | .shutdown => m.shutdown
  | .worker more? => m.work more?

def run (m : Machine) (actions : List Action) : Machine :=
  actions.foldl step m

/-- The work that a step adds to the queue: its launch is accepted. -/
def acceptedBy (m : Machine) : Action → List Work
  | .proceed =>
    match m.calling with
    | .counted work => [work]
    | _ => []
  | _ => []

/-- The works that are accepted in a run, in their order. -/
def acceptedIn (m : Machine) : List Action → List Work
  | [] => []
  | a :: actions => m.acceptedBy a ++ (m.step a).acceptedIn actions

/-- The launch that comes after the steps of a caller whom nobody disturbs is that of a stream. -/
theorem run_undisturbed {m : Machine} (hidle : m.calling = .idle) {work : Work} {id : LaunchId} {s : Stream}
    (h : m.stream.launch work = .ok (id, s)) :
    m.run [.call work, .proceed, .proceed, .proceed, .proceed] = { m with stream := s } := by
  obtain ⟨stream, calling, station⟩ := m
  subst hidle
  unfold Stream.launch at h
  split at h
  · cases h
  · next hclosed =>
    cases h
    have hopen : stream.closed = false := by simpa using hclosed
    simp only [run, List.foldl_cons, List.foldl_nil, step, call, proceed, hopen, Bool.false_eq_true, if_false,
      Metrics.recordLaunch]

end Machine

/-! ## Refinement -/

/-- What a launch that is under way has counted already. -/
def Calling.counts : Calling → Metrics → Metrics
  | .launched _, metrics => metrics.countLaunched
  | .counted _, metrics => metrics.recordLaunch
  | _, metrics => metrics

/-- The last launch, where `noted` is what the stream has for it. -/
def Calling.last (noted : Option LaunchId) : Calling → Option LaunchId
  | .pushed id => some id
  | _ => noted

/-- What the worker knows of the stream where it is. -/
def Station.Fits (s : Stream) : Station → Prop
  | .popping => s.running = none
  | .stealing => s.running = none ∧ s.batch = []
  | .asking => s.running = none ∧ s.batch = []
  | .leaving => s.running = none ∧ s.batch = [] ∧ s.closed = true
  | .running => s.running.isSome = true
  | .gone => s.outstanding = [] ∧ s.closed = true

theorem Calling.counts_comm (c : Calling) {failed : Bool} {phase next : Phase} {update : Metrics → Metrics}
    (h : phase.count? failed = some (next, update)) (metrics : Metrics) :
    c.counts (update metrics) = update (c.counts metrics) := by
  have hcases : update = .countCompleted ∨ update = .countFailed ∨ update = .leaveFlight := by
    cases phase <;> cases failed <;> cases h <;> simp
  rcases hcases with rfl | rfl | rfl <;> cases c <;>
    simp [counts, Metrics.recordLaunch, Metrics.countLaunched, Metrics.enterFlight, Metrics.countCompleted,
      Metrics.countFailed, Metrics.leaveFlight]

/-- The worker does not look at the last launch, and counts what it has finished beside what is launched. -/
theorem Stream.step_dress (s : Stream) (c : Calling) (last : Option LaunchId) (w : WorkerStep) :
    ({ s with metrics := c.counts s.metrics, last := last } : Stream).step w =
      { s.step w with metrics := c.counts (s.step w).metrics, last := last } := by
  cases w with
  | take =>
    simp only [step]
    split <;> rfl
  | steal more =>
    simp only [step]
    split <;> rfl
  | start =>
    simp only [step]
    split <;> rfl
  | count =>
    simp only [step]
    split
    · split
      · next hcount => simp only [c.counts_comm hcount]
      · rfl
    · rfl
  | complete =>
    simp only [step]
    split <;> rfl
  | exit =>
    simp only [step]
    split
    · split <;> rfl
    · rfl

namespace Machine

/-- A machine whose stream is `s`, but for the launch that is under way. -/
structure Refines (m : Machine) (s : Stream) : Prop where
  stream : m.stream = { s with metrics := m.calling.counts s.metrics, last := m.stream.last }
  last : s.last = m.calling.last m.stream.last
  station : m.station.Fits s
  unlocked : s.closed = true → m.calling = .idle

variable {m : Machine} {s : Stream}

/-! ### Callers -/

theorem initial_refines : initial.Refines .empty where
  stream := rfl
  last := rfl
  station := rfl
  unlocked _ := rfl

theorem Refines.call (h : m.Refines s) (work : Work) : (m.call work).Refines s := by
  have hstream := h.stream
  have hlast := h.last
  unfold Machine.call
  split
  · next hidle =>
    split
    · exact h
    · next hclosed =>
      rw [hidle] at hstream hlast
      refine ⟨hstream, hlast, h.station, fun hs => ?_⟩
      rw [hstream] at hclosed
      exact absurd hs hclosed
  · exact h

/-- A launch happens when its kernel gets into the queue. -/
theorem Refines.proceed (h : m.Refines s) :
    ∃ events, m.proceed.Refines (s.run events) ∧ s.acceptedIn events = m.acceptedBy .proceed := by
  obtain ⟨t, calling, station⟩ := m
  obtain ⟨hstream, hlast, hstation, hunlocked⟩ := h
  simp only at hstream hlast hstation hunlocked
  cases calling with
  | idle => exact ⟨[], ⟨hstream, hlast, hstation, hunlocked⟩, rfl⟩
  | admitted work =>
    refine ⟨[], ⟨?_, hlast, hstation, fun hs => nomatch hunlocked hs⟩, rfl⟩
    simp only [Machine.proceed]
    rw [hstream]
    rfl
  | launched work =>
    refine ⟨[], ⟨?_, hlast, hstation, fun hs => nomatch hunlocked hs⟩, rfl⟩
    simp only [Machine.proceed]
    rw [hstream]
    rfl
  | counted work =>
    have hopen : s.closed = false := by
      cases hs : s.closed with
      | false => rfl
      | true => exact nomatch hunlocked hs
    have hrun : s.run [.launch work] =
        { s with
          incoming := s.incoming ++ [⟨s.completions.size, work⟩]
          completions := s.completions.push .pending
          metrics := s.metrics.recordLaunch
          last := some s.completions.size } := by
      simp [Stream.run, Stream.after, Stream.launch, hopen]
    refine ⟨[.launch work], ⟨?_, ?_, ?_, ?_⟩, ?_⟩
    · rw [hrun]
      simp only [Machine.proceed]
      rw [hstream]
      rfl
    · rw [hrun]
      simp only [Machine.proceed, Calling.last]
      rw [hstream]
    · rw [hrun]
      -- The worker knows nothing of the queue of incoming kernels, unless the stream is closed.
      cases station with
      | popping => exact hstation
      | stealing => exact hstation
      | asking => exact hstation
      | leaving => exact hstation
      | running => exact hstation
      | gone => exact absurd hstation.2 (by simp [hopen])
    · rw [hrun]
      exact fun hs => absurd hs (by simp [hopen])
    · simp [Stream.acceptedIn, Stream.acceptedBy, hopen, acceptedBy]
  | pushed id =>
    refine ⟨[], ⟨?_, hlast, hstation, fun _ => rfl⟩, rfl⟩
    simp only [Machine.proceed]
    rw [hstream]
    rfl

theorem Refines.shutdown (h : m.Refines s) :
    ∃ events, m.shutdown.Refines (s.run events) ∧ s.acceptedIn events = [] := by
  have hstream := h.stream
  have hlast := h.last
  have hstation := h.station
  unfold Machine.shutdown
  split
  · next hidle =>
    refine ⟨[.shutdown], ⟨?_, hlast, ?_, fun _ => hidle⟩, rfl⟩
    · simp only [Stream.shutdown]
      rw [hstream]
      rfl
    · cases hat : m.station with
      | popping => rw [hat] at hstation; exact hstation
      | stealing => rw [hat] at hstation; exact hstation
      | asking => rw [hat] at hstation; exact hstation
      | leaving => rw [hat] at hstation; exact ⟨hstation.1, hstation.2.1, rfl⟩
      | running => rw [hat] at hstation; exact hstation
      | gone => rw [hat] at hstation; exact ⟨hstation.1, rfl⟩
  · exact ⟨[], h, rfl⟩

/-! ### The worker -/

/-- A step of the worker does to the machine's stream what it does to `s`. -/
theorem Refines.steps (h : m.Refines s) (w : WorkerStep) {station : Station}
    (hstation : station.Fits (s.step w)) :
    ∃ events, Refines { m with stream := m.stream.step w, station } (s.run events) ∧
      s.acceptedIn events = [] := by
  have hstep : m.stream.step w =
      { s.step w with metrics := m.calling.counts (s.step w).metrics, last := m.stream.last } := by
    rw [← Stream.step_dress, ← h.stream]
  have hlast : (m.stream.step w).last = m.stream.last := by rw [hstep]
  refine ⟨[.worker w], ⟨?_, ?_, hstation, fun hs => h.unlocked ?_⟩, rfl⟩
  · simp only [hlast]
    exact hstep
  · simp only [hlast]
    exact (Stream.last_step s w).trans h.last
  · rwa [← Stream.closed_step s w]

theorem Refines.work (h : m.Refines s) (more? : Option Nat) :
    ∃ events, (m.work more?).Refines (s.run events) ∧ s.acceptedIn events = [] := by
  have hstation := h.station
  have hbatch : m.stream.batch = s.batch := by rw [h.stream]
  have hincoming : m.stream.incoming = s.incoming := by rw [h.stream]
  have hrunning : m.stream.running = s.running := by rw [h.stream]
  have hclosed : m.stream.closed = s.closed := by rw [h.stream]
  -- Where the worker only looks, the stream stays as it is.
  have hlook : ∀ station : Station, station.Fits s →
      ∃ events, Refines { m with station } (s.run events) ∧ s.acceptedIn events = [] :=
    fun station hfits => ⟨[], ⟨h.stream, h.last, hfits, h.unlocked⟩, rfl⟩
  cases hat : m.station with
  | popping =>
    rw [hat] at hstation
    simp only [Machine.work, hat, hbatch]
    split
    · next hnil => exact hlook .stealing ⟨hstation, hnil⟩
    · next task rest hcons =>
      refine h.steps .take ?_
      have hnone : s.running = none := hstation
      simp [Station.Fits, Stream.step, hnone, hcons]
  | stealing =>
    rw [hat] at hstation
    obtain ⟨hnone, hnil⟩ := hstation
    cases more? with
    | none =>
      simp only [Machine.work, hat]
      exact hlook .popping hnone
    | some more =>
      simp only [Machine.work, hat, hincoming]
      split
      · exact hlook .asking ⟨hnone, hnil⟩
      · next task rest hcons =>
        refine h.steps (.steal more) ?_
        simp [Station.Fits, Stream.step, hnone, hnil, hcons]
  | asking =>
    rw [hat] at hstation
    simp only [Machine.work, hat, hclosed]
    split
    · next hs => exact hlook .leaving ⟨hstation.1, hstation.2, hs⟩
    · exact hlook .popping hstation.1
  | leaving =>
    rw [hat] at hstation
    obtain ⟨hnone, hnil, hs⟩ := hstation
    simp only [Machine.work, hat]
    split
    · next hempty =>
      have hexit : ∀ t : Stream, t.running = none → t.batch = [] → t.incoming = [] → t.closed = true →
          t.step .exit = { t with exited := true } := by
        intro t h1 h2 h3 h4
        simp [Stream.step, h1, h2, h3, h4]
      rw [← hexit m.stream (hrunning.trans hnone) (hbatch.trans hnil) hempty (hclosed.trans hs)]
      rw [hincoming] at hempty
      refine h.steps .exit ?_
      rw [hexit s hnone hnil hempty hs]
      simp [Station.Fits, Stream.outstanding, hnone, hnil, hempty, hs]
    · exact hlook .popping hnone
  | running =>
    simp only [Machine.work, hat, runKernel, hrunning]
    split
    · exact ⟨[], h, rfl⟩
    · next hsome =>
      refine h.steps .start ?_
      simp [Station.Fits, Stream.step, hsome]
    · next hsome =>
      refine h.steps .complete ?_
      simp [Station.Fits, Stream.step, hsome]
    · next hsome =>
      refine h.steps .count ?_
      simp only [Station.Fits, Stream.step, hsome]
      split <;> simp [hsome]
  | gone =>
    simp only [Machine.work, hat]
    exact ⟨[], h, rfl⟩

/-! ### Runs -/

/-- **Each step of the machine is a run of the stream**, of no event or of one. -/
theorem Refines.step (h : m.Refines s) (a : Action) :
    ∃ events, (m.step a).Refines (s.run events) ∧ s.acceptedIn events = m.acceptedBy a := by
  cases a with
  | call work => exact ⟨[], h.call work, rfl⟩
  | proceed => exact h.proceed
  | shutdown => exact h.shutdown
  | worker more? => exact h.work more?

/-- **A run of the machine is a run of the stream** that accepts the same works, but for the launch that
is under way at its end. -/
theorem Refines.run : ∀ (actions : List Action) {m : Machine} {s : Stream}, m.Refines s →
    ∃ events, (m.run actions).Refines (s.run events) ∧ s.acceptedIn events = m.acceptedIn actions
  | [], _, s, h => ⟨[], h, rfl⟩
  | a :: actions, m, s, h => by
    obtain ⟨events, hstep, haccepted⟩ := h.step a
    obtain ⟨events', hrun, haccepted'⟩ := Refines.run actions hstep
    refine ⟨events ++ events', ?_, ?_⟩
    · rw [Stream.run_append]
      exact hrun
    · rw [Stream.acceptedIn_append, haccepted, haccepted']
      rfl

/-! ## What a machine has accepted -/

/-- The machine's stream is one that has accepted the works of a log, but for the launch under way. -/
def Follows (m : Machine) (log : List Work) : Prop :=
  ∃ s, m.Refines s ∧ s.Accepted log

theorem initial_follows : initial.Follows [] :=
  ⟨.empty, initial_refines, Stream.empty_accepted⟩

variable {log : List Work}

theorem Follows.run (h : m.Follows log) (actions : List Action) :
    (m.run actions).Follows (log ++ m.acceptedIn actions) := by
  obtain ⟨s, hrefines, haccepted⟩ := h
  obtain ⟨events, hrun, hin⟩ := hrefines.run actions
  exact ⟨s.run events, hrun, hin ▸ Stream.run_accepted events haccepted⟩

theorem Follows.step (h : m.Follows log) (a : Action) : (m.step a).Follows (log ++ m.acceptedBy a) := by
  have hrun := h.run [a]
  rwa [acceptedIn, acceptedIn, List.append_nil] at hrun

theorem run_follows (actions : List Action) :
    (initial.run actions).Follows (initial.acceptedIn actions) :=
  initial_follows.run actions

theorem Follows.finished (h : m.Follows log) :
    m.stream.finished.toList = List.range m.stream.finished.size := by
  obtain ⟨s, hrefines, haccepted⟩ := h
  rw [hrefines.stream]
  exact haccepted.finished

theorem Follows.finished_le (h : m.Follows log) : m.stream.finished.size ≤ log.length := by
  obtain ⟨s, hrefines, haccepted⟩ := h
  rw [hrefines.stream]
  exact haccepted.finished_le

theorem Follows.outstanding (h : m.Follows log) :
    m.stream.outstanding = (numbered log).drop m.stream.finished.size := by
  obtain ⟨s, hrefines, haccepted⟩ := h
  rw [hrefines.stream]
  exact haccepted.outstanding

theorem Follows.running (h : m.Follows log) {task : Task} {phase : Phase}
    (hrunning : m.stream.running = some (task, phase)) :
    (numbered log).drop m.stream.finished.size = task :: (m.stream.batch ++ m.stream.incoming) := by
  rw [← h.outstanding, Stream.outstanding, hrunning]
  rfl

theorem Follows.station (h : m.Follows log) : m.station.Fits m.stream := by
  obtain ⟨s, hrefines, -⟩ := h
  have hstation := hrefines.station
  rw [hrefines.stream]
  cases hat : m.station <;> rw [hat] at hstation <;> exact hstation

theorem Follows.unlocked (h : m.Follows log) (hclosed : m.stream.closed = true) : m.calling = .idle := by
  obtain ⟨s, hrefines, -⟩ := h
  rw [hrefines.stream] at hclosed
  exact hrefines.unlocked hclosed

end Machine

end AdaptiveLoops.Device
