/-
What a stream has accepted, and where it is now.

A stream that has accepted the works of a log, and nothing else, has
finished the first of them, runs at most the next one, and has the others
queued behind it (`Stream.Accepted`). Everything else a stream shows can be
read off the log: which launches have an outcome and which one, and what the
counters say. Each counter goes by the kernels it was updated for already,
and for the kernel that runs that depends on the phase (`Stream.kernelsPast`).
One event adds to the log what it launches (`Accepted.after`), so a run adds
what it launches, in the order of its launches (`run_accepted`).
-/
import AdaptiveLoops.Proofs.Device.Steps
import Mathlib.Data.List.Basic

namespace AdaptiveLoops.Device

/-- The kernels of a log, numbered from 0. -/
def numbered (log : List Work) : List Task :=
  log.mapIdx fun id work => ⟨id, work⟩

theorem numbered_concat (log : List Work) (work : Work) :
    numbered (log ++ [work]) = numbered log ++ [⟨log.length, work⟩] :=
  List.mapIdx_concat

theorem length_numbered (log : List Work) : (numbered log).length = log.length :=
  List.length_mapIdx

theorem map_id_numbered (log : List Work) : (numbered log).map (·.id) = List.range log.length := by
  refine List.ext_getElem? fun i => ?_
  rw [List.getElem?_map, numbered, List.getElem?_mapIdx]
  by_cases hi : i < log.length
  · simp [hi]
  · simp [Nat.not_lt.1 hi]

theorem drop_numbered_eq_cons {log : List Work} {n : Nat} {task : Task} {rest : List Task}
    (h : (numbered log).drop n = task :: rest) :
    task.id = n ∧ log[n]? = some task.work ∧ (numbered log).drop (n + 1) = rest := by
  have hget : (numbered log)[n]? = some task := by
    rw [← List.head?_drop, h, List.head?_cons]
  rw [numbered, List.getElem?_mapIdx, Option.map_eq_some_iff] at hget
  obtain ⟨work, hwork, rfl⟩ := hget
  refine ⟨rfl, hwork, ?_⟩
  rw [← List.drop_drop, h, List.drop_one, List.tail_cons]

theorem getElem?_take_add_one {log : List Work} {n : Nat} {work : Work} (h : log[n]? = some work) (i : Nat) :
    (log.take (n + 1))[i]? = if n = i then some work else (log.take n)[i]? := by
  by_cases hi : n = i
  · simp [← hi, h]
  · have hlt : i < n + 1 ↔ i < n := by omega
    simp only [List.getElem?_take, hlt, hi, if_false]

namespace Phase

/-! ## What a kernel is counted as -/

def isCompleted : Phase → Bool
  | .taken => false
  | .started => false
  | .completed => true
  | .failed => true
  | .counted => true

/-- Whether the kernel is counted as failed by now if it is to be. -/
def isJudged : Phase → Bool
  | .failed => true
  | .counted => true
  | _ => false

def hasLeft : Phase → Bool
  | .counted => true
  | _ => false

/-- A kernel that is counted as completed is still in flight until its last counter is updated. -/
def isLeaving (p : Phase) : Bool :=
  p.isCompleted && !p.hasLeft

end Phase

namespace Stream

/-- The kernel that runs and those that wait, the next to run first. -/
def outstanding (s : Stream) : List Task :=
  s.running.toList.map (·.1) ++ s.batch ++ s.incoming

/-- The number of kernels that are finished or in a phase of the given kind. -/
def kernelsPast (s : Stream) (kind : Phase → Bool) : Nat :=
  s.finished.size + s.running.toList.countP (kind ·.2)

/-- The works that an event adds to the stream. -/
def acceptedBy (s : Stream) : Event → List Work
  | .launch work => if s.closed then [] else [work]
  | .shutdown => []
  | .worker _ => []

/-- The works that a run adds to the stream, in the order of their launches. -/
def acceptedIn (s : Stream) : List Event → List Work
  | [] => []
  | e :: events => s.acceptedBy e ++ (s.after e).acceptedIn events

theorem acceptedIn_append : ∀ (events : List Event) (s : Stream) (events' : List Event),
    s.acceptedIn (events ++ events') = s.acceptedIn events ++ (s.run events).acceptedIn events'
  | [], _, _ => rfl
  | e :: events, s, events' => by
    have hrest := acceptedIn_append events (s.after e) events'
    rw [List.cons_append, acceptedIn, hrest, ← List.append_assoc]
    rfl

/-- The stream has accepted the works of a log, in their order, and nothing else. -/
structure Accepted (s : Stream) (log : List Work) : Prop where
  finished : s.finished.toList = List.range s.finished.size
  finished_le : s.finished.size ≤ log.length
  outstanding : s.outstanding = (numbered log).drop s.finished.size
  size : s.completions.size = log.length
  outcome : ∀ id, s.outcome? id = ((log.take s.finished.size)[id]?).map Outcome.ofWork
  launched : s.metrics.launched = log.length
  completed : s.metrics.completed = s.kernelsPast Phase.isCompleted
  failed : s.metrics.failed = (log.take (s.kernelsPast Phase.isJudged)).countP (·.failure?.isSome)
  inFlight : s.metrics.inFlight = (log.length : Int) - s.kernelsPast Phase.hasLeft
  last : s.last = (List.range log.length).getLast?
  exited : s.exited = true → s.closed = true ∧ s.outstanding = []

variable {s : Stream} {log : List Work}

theorem empty_accepted : Stream.empty.Accepted [] where
  finished := rfl
  finished_le := Nat.le_refl _
  outstanding := rfl
  size := rfl
  outcome id := by simp [empty, outcome?]
  launched := rfl
  completed := rfl
  failed := rfl
  inFlight := rfl
  last := rfl
  exited h := by cases h

/-! ## What the kernel that runs is -/

theorem Accepted.running (h : s.Accepted log) {task : Task} {phase : Phase}
    (hrunning : s.running = some (task, phase)) :
    task.id = s.finished.size ∧ log[s.finished.size]? = some task.work ∧
      (numbered log).drop (s.finished.size + 1) = s.batch ++ s.incoming := by
  refine drop_numbered_eq_cons ?_
  rw [← h.outstanding, Stream.outstanding, hrunning]
  rfl

theorem finished_le_kernelsPast (s : Stream) (kind : Phase → Bool) : s.finished.size ≤ s.kernelsPast kind :=
  Nat.le_add_right ..

theorem kernelsPast_mono (s : Stream) {kind kind' : Phase → Bool} (h : ∀ p, kind p = true → kind' p = true) :
    s.kernelsPast kind ≤ s.kernelsPast kind' :=
  Nat.add_le_add_left (List.countP_mono_left fun x _ => h x.2) _

theorem kernelsPast_of_none (h : s.running = none) (kind : Phase → Bool) : s.kernelsPast kind = s.finished.size := by
  simp [kernelsPast, h]

theorem kernelsPast_of_some {task : Task} {phase : Phase} (h : s.running = some (task, phase))
    (kind : Phase → Bool) : s.kernelsPast kind = s.finished.size + if kind phase then 1 else 0 := by
  simp [kernelsPast, h, List.countP_singleton]

theorem Accepted.kernelsPast_le (h : s.Accepted log) (kind : Phase → Bool) : s.kernelsPast kind ≤ log.length := by
  cases hrunning : s.running with
  | none =>
    rw [kernelsPast_of_none hrunning]
    exact h.finished_le
  | some r =>
    obtain ⟨task, phase⟩ := r
    have hlt := (List.getElem?_eq_some_iff.1 (h.running hrunning).2.1).1
    rw [kernelsPast_of_some hrunning]
    split <;> omega

theorem isFailed_ofWork (work : Work) : (Outcome.ofWork work).isFailed = work.failure?.isSome := by
  unfold Outcome.ofWork
  cases work.failure? <;> rfl

/-! ## One event -/

theorem Accepted.launch (h : s.Accepted log) {work : Work} {id : LaunchId} {s' : Stream}
    (hlaunch : s.launch work = .ok (id, s')) : s'.Accepted (log ++ [work]) := by
  have houtcome := outcome?_launch hlaunch
  unfold Stream.launch at hlaunch
  split at hlaunch
  · cases hlaunch
  · next hclosed =>
    cases hlaunch
    have hle := h.finished_le
    have htake : ∀ n ≤ log.length, (log ++ [work]).take n = log.take n := fun n hn =>
      List.take_append_of_le_length hn
    have hpast := h.kernelsPast_le Phase.isJudged
    refine ⟨h.finished, ?_, ?_, ?_, fun id => ?_, ?_, h.completed, ?_, ?_, ?_, ?_⟩
    · simp only [List.length_append, List.length_singleton]
      omega
    · rw [numbered_concat, List.drop_append_of_le_length (by rw [length_numbered]; exact hle),
        ← h.outstanding, ← h.size]
      simp only [Stream.outstanding, List.append_assoc]
    · simp [h.size]
    · rw [houtcome, h.outcome, htake _ hle]
    · simp [Metrics.recordLaunch, Metrics.countLaunched, Metrics.enterFlight, h.launched]
    · exact h.failed.trans (by rw [← htake _ hpast]; rfl)
    · have hin := h.inFlight
      simp only [Metrics.recordLaunch, Metrics.countLaunched, Metrics.enterFlight, List.length_append,
        List.length_singleton, hin, kernelsPast]
      omega
    · simp [h.size, List.range_succ]
    · intro hexited
      exact absurd (h.exited hexited).1 (by simpa using hclosed)

/-- Each counter goes up with the phase that stands for it. -/
theorem Accepted.count (h : s.Accepted log) {task : Task} {phase next : Phase} {update : Metrics → Metrics}
    (hrunning : s.running = some (task, phase))
    (hcount : phase.count? (Outcome.ofWork task.work).isFailed = some (next, update)) :
    Accepted { s with metrics := update s.metrics, running := some (task, next) } log := by
  obtain ⟨-, hwork, -⟩ := h.running hrunning
  have hlaunched := h.launched
  have hcompleted := h.completed
  have hfailed := h.failed
  have hinFlight := h.inFlight
  rw [kernelsPast_of_some hrunning] at hcompleted hfailed hinFlight
  rw [isFailed_ofWork] at hcount
  suffices hmetrics : (update s.metrics).launched = log.length ∧
      (update s.metrics).completed = s.finished.size + (if next.isCompleted then 1 else 0) ∧
      (update s.metrics).failed =
        (log.take (s.finished.size + if next.isJudged then 1 else 0)).countP (·.failure?.isSome) ∧
      (update s.metrics).inFlight = (log.length : Int) - (s.finished.size + if next.hasLeft then 1 else 0 : Nat) by
    obtain ⟨hlaunched', hcompleted', hfailed', hinFlight'⟩ := hmetrics
    refine ⟨h.finished, h.finished_le, ?_, h.size, h.outcome, hlaunched', ?_, ?_, ?_, h.last, fun hexited => ?_⟩
    · simpa [Stream.outstanding, hrunning] using h.outstanding
    · rwa [kernelsPast_of_some rfl]
    · rwa [kernelsPast_of_some rfl]
    · rwa [kernelsPast_of_some rfl]
    · simpa [Stream.outstanding, hrunning] using (h.exited hexited).2
  cases phase with
  | started =>
    cases hcount
    refine ⟨hlaunched, ?_, hfailed, hinFlight⟩
    simp [Metrics.countCompleted, hcompleted, Phase.isCompleted]
  | completed =>
    simp only [Phase.count?] at hcount
    split at hcount
    · next hfailure =>
      cases hcount
      refine ⟨hlaunched, hcompleted, ?_, hinFlight⟩
      simp [Metrics.countFailed, hfailed, Phase.isJudged, List.take_add_one, hwork, hfailure]
    · next hfailure =>
      -- A kernel that did not fail adds nothing to the failures.
      cases hcount
      refine ⟨hlaunched, hcompleted, ?_, ?_⟩
      · simp [Metrics.leaveFlight, hfailed, Phase.isJudged, List.take_add_one, hwork, hfailure]
      · simp only [Metrics.leaveFlight, hinFlight, Phase.hasLeft, Bool.false_eq_true, if_false, if_true]
        omega
  | failed =>
    cases hcount
    refine ⟨hlaunched, hcompleted, hfailed, ?_⟩
    simp only [Metrics.leaveFlight, hinFlight, Phase.hasLeft, Bool.false_eq_true, if_false, if_true]
    omega
  | taken => cases hcount
  | counted => cases hcount

theorem Accepted.step (h : s.Accepted log) (w : WorkerStep) : (s.step w).Accepted log := by
  have hsteps : Steps s (s.step w) := step_cases s w
  generalize s.step w = s' at hsteps ⊢
  have hcompleted := h.completed
  have hfailed := h.failed
  have hinFlight := h.inFlight
  cases hsteps with
  | still => exact h
  | taken hrunning hbatch =>
    rw [kernelsPast_of_none hrunning] at hcompleted hfailed hinFlight
    refine ⟨h.finished, h.finished_le, ?_, h.size, h.outcome, h.launched, hcompleted, hfailed, hinFlight,
      h.last, fun hexited => ?_⟩
    · simpa [Stream.outstanding, hrunning, hbatch] using h.outstanding
    · simpa [Stream.outstanding, hrunning, hbatch] using (h.exited hexited).2
  | @stolen task rest more hrunning hbatch hincoming =>
    rw [kernelsPast_of_none hrunning] at hcompleted hfailed hinFlight
    refine ⟨h.finished, h.finished_le, ?_, h.size, h.outcome, h.launched, hcompleted, hfailed, hinFlight,
      h.last, fun hexited => ?_⟩
    -- The batch and what is left in the queue are the queue, in its order.
    · simpa [Stream.outstanding, hrunning, hbatch, hincoming] using h.outstanding
    · simpa [Stream.outstanding, hrunning, hbatch, hincoming] using (h.exited hexited).2
  | @started task hrunning =>
    rw [kernelsPast_of_some hrunning] at hcompleted hfailed hinFlight
    refine ⟨h.finished, h.finished_le, ?_, ?_, fun id => ?_, h.launched, hcompleted, hfailed, hinFlight,
      h.last, fun hexited => ?_⟩
    · simpa [Stream.outstanding, hrunning, note] using h.outstanding
    · simpa [note] using h.size
    · exact (outcome?_note_start task.id id).trans (h.outcome id)
    · simpa [Stream.outstanding, hrunning] using (h.exited hexited).2
  | counted hrunning hcount => exact h.count hrunning hcount
  | @completed task hrunning =>
    obtain ⟨hid, hwork, hrest⟩ := h.running hrunning
    have hlt : s.finished.size < log.length := (List.getElem?_eq_some_iff.1 hwork).1
    rw [kernelsPast_of_some hrunning] at hcompleted hfailed hinFlight
    refine ⟨?_, ?_, ?_, ?_, fun id => ?_, h.launched, ?_, ?_, ?_, h.last, fun hexited => ?_⟩
    · simp [h.finished, hid, List.range_succ]
    · rw [Array.size_push]
      exact hlt
    · simpa [Stream.outstanding, note] using hrest.symm
    · simpa [note] using h.size
    · have hnote := outcome?_note_complete (s := s) task.id id (Outcome.ofWork task.work)
      refine hnote.trans ?_
      rw [h.outcome, h.size, hid, Array.size_push, getElem?_take_add_one hwork]
      by_cases heq : s.finished.size = id
      · subst heq
        have hnone : (log.take s.finished.size)[s.finished.size]? = none :=
          List.getElem?_take_eq_none (Nat.le_refl _)
        rw [if_pos ⟨rfl, hlt⟩, if_pos rfl, hnone]
        rfl
      · simp [heq]
    · simpa [kernelsPast, Phase.isCompleted, note] using hcompleted
    · simpa [kernelsPast, Phase.isJudged, note] using hfailed
    · simpa [kernelsPast, Phase.hasLeft, note] using hinFlight
    · have hnil := (h.exited hexited).2
      simp [Stream.outstanding, hrunning] at hnil
  | left hrunning hbatch hincoming hclosed =>
    exact { h with exited := fun _ => ⟨hclosed, by simp [Stream.outstanding, hrunning, hbatch, hincoming]⟩ }

theorem Accepted.after (h : s.Accepted log) (e : Event) : (s.after e).Accepted (log ++ s.acceptedBy e) := by
  cases e with
  | launch work =>
    simp only [Stream.after, acceptedBy]
    split
    · next hlaunch =>
      unfold Stream.launch at hlaunch
      split at hlaunch
      · next hclosed => simpa [hclosed] using h
      · cases hlaunch
    · next hlaunch =>
      have haccepted := h.launch hlaunch
      unfold Stream.launch at hlaunch
      split at hlaunch
      · cases hlaunch
      · next hclosed => simpa [hclosed] using haccepted
  | shutdown =>
    rw [acceptedBy, List.append_nil]
    exact { h with exited := fun hexited => ⟨rfl, (h.exited hexited).2⟩ }
  | worker w =>
    rw [acceptedBy, List.append_nil]
    exact h.step w

/-- **A run adds to the log what it launches**, in the order of its launches. -/
theorem run_accepted : ∀ (events : List Event) {s : Stream} {log : List Work}, s.Accepted log →
    (s.run events).Accepted (log ++ s.acceptedIn events)
  | [], s, log, h => by simpa [acceptedIn, run] using h
  | e :: events, s, log, h => by
    have hrest := run_accepted events (h.after e)
    rwa [List.append_assoc] at hrest

theorem Accepted.reaches (h : s.Accepted log) {s' : Stream} (hreaches : s.Reaches s') :
    ∃ log', s'.Accepted log' := by
  obtain ⟨events, rfl⟩ := hreaches
  exact ⟨_, run_accepted events h⟩

theorem Accepted.size_le (h : s.Accepted log) {s' : Stream} (hreaches : s.Reaches s') :
    s.completions.size ≤ s'.completions.size := by
  obtain ⟨events, rfl⟩ := hreaches
  rw [h.size, (run_accepted events h).size, List.length_append]
  exact Nat.le_add_right ..

/-! ## What can be read off -/

theorem Accepted.isComplete_iff (h : s.Accepted log) {id : Nat} :
    s.isComplete id = true ↔ id < s.finished.size := by
  have hle := h.finished_le
  rw [isComplete, h.outcome, Option.isSome_map, List.getElem?_take]
  split
  · next hlt => simp [hlt, Nat.lt_of_lt_of_le hlt hle]
  · next hge => simp [hge]

end Stream

end AdaptiveLoops.Device
