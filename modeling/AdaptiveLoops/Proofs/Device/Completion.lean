/-
Outcomes, counters and synchronization tell one story.

A launch has the outcome of its own kernel from the moment it is complete
(`Follows.outcome`), and it was counted before. The counters are updated one
at a time, so between two updates of a caller or of the worker they do not
add up; `Machine.Balanced` says what they are short of then, one launch or
one kernel at most, and that the number in flight is never below zero all
the same. Kernels are finished in order, so whoever waited for the last
launch has waited for all before it.
-/
import AdaptiveLoops.Proofs.Device.Fifo
import AdaptiveLoops.Proofs.Device.Waiting

namespace AdaptiveLoops.Device

theorem Outcome.ofWork_eq_failed {work : Work} {message : String} :
    Outcome.ofWork work = .failed message ↔ work.failure? = some message := by
  unfold Outcome.ofWork
  cases work.failure? <;> simp

/-! ## Updates of the counters -/

namespace Metrics

/-- What is updated at a time. -/
def updates : List (Metrics → Metrics) :=
  [countLaunched, countCompleted, countFailed, enterFlight, leaveFlight]

/-- One counter is updated, or none. -/
def Step (m m' : Metrics) : Prop :=
  m' = m ∨ ∃ update ∈ updates, m' = update m

theorem Step.le {m m' : Metrics} (h : m.Step m') :
    m.launched ≤ m'.launched ∧ m.completed ≤ m'.completed ∧ m.failed ≤ m'.failed := by
  obtain rfl | ⟨update, hupdate, rfl⟩ := h
  · exact ⟨Nat.le_refl _, Nat.le_refl _, Nat.le_refl _⟩
  · simp only [updates, List.mem_cons, List.not_mem_nil, or_false] at hupdate
    rcases hupdate with rfl | rfl | rfl | rfl | rfl <;>
      simp [countLaunched, countCompleted, countFailed, enterFlight, leaveFlight]

end Metrics

theorem Phase.mem_updates {phase next : Phase} {failed : Bool} {update : Metrics → Metrics}
    (h : phase.count? failed = some (next, update)) : update ∈ Metrics.updates := by
  cases phase <;> cases failed <;> cases h <;> simp [Metrics.updates]

namespace Stream

variable {s : Stream} {log : List Work}

theorem metrics_step (s : Stream) (w : WorkerStep) : s.metrics.Step (s.step w).metrics := by
  have hsteps : Steps s (s.step w) := step_cases s w
  generalize s.step w = s' at hsteps ⊢
  cases hsteps with
  | counted _ hcount => exact .inr ⟨_, Phase.mem_updates hcount, rfl⟩
  | _ => exact .inl rfl

/-- The updates for a kernel, none of them left out, are the record of its completion. -/
theorem run_count {task : Task} (h : s.running = some (task, .started)) :
    let counted := s.run (List.replicate 3 (.worker .count))
    counted.running = some (task, .counted) ∧
      counted.metrics = s.metrics.recordCompletion (Outcome.ofWork task.work).isFailed := by
  simp only [run, List.replicate, List.foldl_cons, List.foldl_nil, after, step, h, Phase.count?]
  cases (Outcome.ofWork task.work).isFailed <;> exact ⟨rfl, rfl⟩

/-- Whether the kernel that runs is counted as completed and still in flight. -/
def isLeaving (s : Stream) : Bool :=
  s.running.any (·.2.isLeaving)

theorem kernelsPast_isCompleted (s : Stream) :
    s.kernelsPast Phase.isCompleted = s.kernelsPast Phase.hasLeft + s.isLeaving.toNat := by
  cases hrunning : s.running with
  | none => simp [kernelsPast, isLeaving, hrunning]
  | some r =>
    obtain ⟨task, phase⟩ := r
    rw [kernelsPast_of_some hrunning, kernelsPast_of_some hrunning, isLeaving, hrunning]
    cases phase <;> rfl

theorem Accepted.metrics_of_finished (h : s.Accepted log) (hall : s.finished.size = log.length) :
    s.metrics.completed = s.metrics.launched ∧ s.metrics.inFlight = 0 := by
  have hpast : ∀ kind, s.kernelsPast kind = log.length := fun kind =>
    Nat.le_antisymm (h.kernelsPast_le kind) (hall ▸ s.finished_le_kernelsPast kind)
  refine ⟨?_, ?_⟩
  · rw [h.completed, h.launched, hpast]
  · rw [h.inFlight, hpast, Int.sub_self]

end Stream

namespace Calling

/-- Whether a caller has counted its launch, and not yet as in flight. -/
def isEntering : Calling → Bool
  | .launched _ => true
  | _ => false

/-- What a caller has counted of its launch: both counters, one of them, or none. -/
theorem exists_counts (c : Calling) (metrics : Metrics) : ∃ both : Nat,
    (c.counts metrics).launched = metrics.launched + both + c.isEntering.toNat ∧
      (c.counts metrics).inFlight = metrics.inFlight + both ∧
      (c.counts metrics).completed = metrics.completed ∧ (c.counts metrics).failed = metrics.failed := by
  cases c with
  | counted work => exact ⟨1, rfl, rfl, rfl, rfl⟩
  | _ => exact ⟨0, rfl, (Int.add_zero _).symm, rfl, rfl⟩

end Calling

namespace Machine

variable {m : Machine} {log : List Work}

/-- With no launch under way the machine's stream is one that has accepted the log. -/
theorem Follows.accepted_of_idle (h : m.Follows log) (hidle : m.calling = .idle) : m.stream.Accepted log := by
  obtain ⟨s, hrefines, haccepted⟩ := h
  have hstream := hrefines.stream
  have hlast := hrefines.last
  rw [hidle] at hstream hlast
  have heq : m.stream = s := by
    rw [hstream]
    simp only [Calling.counts, Calling.last] at hlast ⊢
    rw [← hlast]
  rwa [heq]

/-- **A launch has the outcome of its own kernel**, from the moment it is finished. -/
theorem Follows.outcome (h : m.Follows log) (id : Nat) :
    m.stream.outcome? id = ((log.take m.stream.finished.size)[id]?).map Outcome.ofWork := by
  obtain ⟨s, hrefines, haccepted⟩ := h
  rw [hrefines.stream]
  exact haccepted.outcome id

theorem Follows.isComplete_iff (h : m.Follows log) {id : Nat} :
    m.stream.isComplete id = true ↔ id < m.stream.finished.size := by
  obtain ⟨s, hrefines, haccepted⟩ := h
  rw [hrefines.stream]
  exact haccepted.isComplete_iff

theorem Follows.outcome_run (h : m.Follows log) {id : Nat} {o : Outcome}
    (ho : m.stream.outcome? id = some o) (more : List Action) :
    (m.run more).stream.outcome? id = some o := by
  have hle := h.finished_le_run more
  have hlog := h.finished_le
  have hid : id < m.stream.finished.size := h.isComplete_iff.1 (by simp [Stream.isComplete, ho])
  have hid' : id < (m.run more).stream.finished.size := Nat.lt_of_lt_of_le hid hle
  rw [(h.run more).outcome, List.getElem?_take_of_lt hid', List.getElem?_append_left (by omega)]
  rwa [h.outcome, List.getElem?_take_of_lt hid] at ho

theorem Follows.failed_iff (h : m.Follows log) {id : Nat} {message : String} :
    m.stream.outcome? id = some (.failed message) ↔
      m.stream.isComplete id = true ∧ log[id]?.bind (·.failure?) = some message := by
  rw [h.isComplete_iff, h.outcome]
  constructor
  · intro hfailed
    obtain ⟨work, hwork, hmessage⟩ := Option.map_eq_some_iff.1 hfailed
    rw [List.getElem?_take] at hwork
    split at hwork
    · next hlt =>
      rw [hwork]
      exact ⟨hlt, Outcome.ofWork_eq_failed.1 hmessage⟩
    · cases hwork
  · rintro ⟨hlt, hmessage⟩
    obtain ⟨work, hwork, hfailure⟩ := Option.bind_eq_some_iff.1 hmessage
    rw [List.getElem?_take_of_lt hlt, hwork, Option.map_some, Outcome.ofWork_eq_failed.2 hfailure]

theorem Follows.handle (h : m.Follows log) {id : LaunchId} (hanswer : m.answer .proceed = some (.ok id)) :
    log.length = id + 1 := by
  obtain ⟨s, hrefines, haccepted⟩ := h
  have hlast := hrefines.last
  rw [haccepted.last] at hlast
  simp only [answer] at hanswer
  split at hanswer
  · next hcalling =>
    cases hanswer
    rw [hcalling, Calling.last, List.getLast?_range] at hlast
    split at hlast
    · cases hlast
    · next hne =>
      cases hlast
      omega
  · cases hanswer

/-! ## The counters -/

/-- The counters add up, but for the one that a caller or the worker has still to update. -/
structure Balanced (m : Machine) : Prop where
  balance : (m.stream.metrics.launched : Int) + m.stream.isLeaving.toNat =
    m.stream.metrics.completed + m.stream.metrics.inFlight + m.calling.isEntering.toNat
  failed_le : m.stream.metrics.failed ≤ m.stream.metrics.completed
  completed_le : m.stream.metrics.completed ≤ m.stream.metrics.launched
  inFlight_nonneg : 0 ≤ m.stream.metrics.inFlight

theorem Follows.balanced (h : m.Follows log) : m.Balanced := by
  obtain ⟨s, hrefines, haccepted⟩ := h
  have hlaunched := haccepted.launched
  have hcompleted := haccepted.completed
  have hinFlight := haccepted.inFlight
  have hleft := haccepted.kernelsPast_le Phase.isCompleted
  have hleaving := s.kernelsPast_isCompleted
  have hfailed : s.metrics.failed ≤ s.kernelsPast Phase.isCompleted := by
    rw [haccepted.failed]
    refine Nat.le_trans List.countP_le_length (Nat.le_trans (List.length_take_le ..) ?_)
    exact s.kernelsPast_mono fun p hp => by cases p <;> first | rfl | cases hp
  have hsame : m.stream.isLeaving = s.isLeaving := by
    rw [hrefines.stream]
    rfl
  obtain ⟨both, hlaunched', hinFlight', hcompleted', hfailed'⟩ := m.calling.exists_counts s.metrics
  have hmetrics : m.stream.metrics = m.calling.counts s.metrics := by rw [hrefines.stream]
  rw [← hmetrics] at hlaunched' hinFlight' hcompleted' hfailed'
  refine ⟨?_, ?_, ?_, ?_⟩
  · rw [hsame]
    omega
  · omega
  · omega
  · omega

theorem Follows.finished_le_completed (h : m.Follows log) : m.stream.finished.size ≤ m.stream.metrics.completed := by
  obtain ⟨s, hrefines, haccepted⟩ := h
  have hcompleted : m.stream.metrics.completed = s.metrics.completed := by
    rw [hrefines.stream]
    cases m.calling <;> rfl
  rw [hcompleted, haccepted.completed, hrefines.stream]
  exact s.finished_le_kernelsPast _

/-- **A step updates one counter**, or none. -/
theorem metrics_step (m : Machine) (a : Action) : m.stream.metrics.Step (m.step a).stream.metrics := by
  cases a with
  | call work =>
    simp only [step, call]
    split
    · split <;> exact .inl rfl
    · exact .inl rfl
  | proceed =>
    simp only [step, proceed]
    split
    · exact .inl rfl
    · exact .inr ⟨.countLaunched, by simp [Metrics.updates], rfl⟩
    · exact .inr ⟨.enterFlight, by simp [Metrics.updates], rfl⟩
    · exact .inl rfl
    · exact .inl rfl
  | shutdown =>
    simp only [step, shutdown]
    split <;> exact .inl rfl
  | worker more? =>
    simp only [step, work, runKernel]
    split
    · split
      · exact .inl rfl
      · exact Stream.metrics_step ..
    · split
      · exact .inl rfl
      · split
        · exact .inl rfl
        · exact Stream.metrics_step ..
    · exact .inl rfl
    · split <;> exact .inl rfl
    · split
      · exact .inl rfl
      · exact Stream.metrics_step ..
      · exact Stream.metrics_step ..
      · exact Stream.metrics_step ..
    · exact .inl rfl

theorem metrics_le_run : ∀ (actions : List Action) (m : Machine),
    m.stream.metrics.launched ≤ (m.run actions).stream.metrics.launched ∧
      m.stream.metrics.completed ≤ (m.run actions).stream.metrics.completed ∧
      m.stream.metrics.failed ≤ (m.run actions).stream.metrics.failed
  | [], _ => ⟨Nat.le_refl _, Nat.le_refl _, Nat.le_refl _⟩
  | a :: actions, m => by
    obtain ⟨hlaunched, hcompleted, hfailed⟩ := (m.metrics_step a).le
    obtain ⟨hlaunched', hcompleted', hfailed'⟩ := metrics_le_run actions (m.step a)
    exact ⟨Nat.le_trans hlaunched hlaunched', Nat.le_trans hcompleted hcompleted', Nat.le_trans hfailed hfailed'⟩

/-! ## Synchronization -/

/-- Who took the lock and waits for the last launch then, waits for all that was accepted by then. -/
theorem Follows.synchronized (h : m.Follows log) (hidle : m.calling = .idle) {more : List Action}
    (hwaited : ∀ id ∈ m.stream.last, (m.run more).stream.isComplete id = true) :
    log.length ≤ (m.run more).stream.finished.size := by
  have hlast := (h.accepted_of_idle hidle).last
  rw [List.getLast?_range] at hlast
  split at hlast
  · next hzero =>
    rw [hzero]
    exact Nat.zero_le _
  · next hpos =>
    have hdone := (h.run more).isComplete_iff.1 (hwaited (log.length - 1) hlast)
    omega

theorem Follows.counters_of_finished (h : m.Follows log) (hidle : m.calling = .idle)
    (hall : log.length ≤ m.stream.finished.size) :
    m.stream.metrics.completed = m.stream.metrics.launched ∧ m.stream.metrics.inFlight = 0 :=
  (h.accepted_of_idle hidle).metrics_of_finished (Nat.le_antisymm h.finished_le hall)

/--
**What a launch's handle says, what the counters say and what a synchronization waits for agree**, whatever
the order of the steps of the callers and the worker.

* A handle is that of the work that was accepted last, and its outcome, once there, never changes: neither
  later in the run nor when the launch is marked once more.
* It is a failure exactly where the launch's own kernel fails, with the kernel's message.
* The counters are updated one at a time. What is launched is completed or in flight, but for one launch that
  a caller has still to count as in flight and one kernel that the worker has still to take out of flight.
* A reader who loads the four counters finds each as it is at the moment of its own load, the number in flight
  included, and the others only grow.
* Who sees a launch complete sees it counted.
* Who waited for the last launch finds everything complete that was accepted before, and if nothing was
  accepted since, nothing is in flight.
* That wait comes to its end, and `Stream.synchronize` is such a wait, with nobody else about.
-/
theorem run_agrees (actions : List Action) :
    let m := initial.run actions
    let accepted := initial.acceptedIn actions
    (∀ id, m.answer .proceed = some (.ok id) → accepted.length = id + 1) ∧
    (∀ id o, m.stream.outcome? id = some o →
      (∀ more, (m.run more).stream.outcome? id = some o) ∧
        ∀ late, m.stream.note id (·.complete late) = m.stream) ∧
    (∀ id message, m.stream.outcome? id = some (.failed message) ↔
      m.stream.isComplete id = true ∧ accepted[id]?.bind (·.failure?) = some message) ∧
    ((∀ a, m.stream.metrics.Step (m.step a).stream.metrics) ∧ m.Balanced) ∧
    (∀ atLaunched atCompleted atFailed,
      ((Metrics.load atLaunched atCompleted atFailed m.stream.metrics).inFlight : Int) = m.stream.metrics.inFlight) ∧
    (∀ more, m.stream.metrics.launched ≤ (m.run more).stream.metrics.launched ∧
      m.stream.metrics.completed ≤ (m.run more).stream.metrics.completed ∧
      m.stream.metrics.failed ≤ (m.run more).stream.metrics.failed) ∧
    (∀ id, m.stream.isComplete id = true → id < m.stream.metrics.completed) ∧
    (m.calling = .idle → ∀ more, (∀ id ∈ m.stream.last, (m.run more).stream.isComplete id = true) →
      (∀ id < accepted.length, (m.run more).stream.isComplete id = true) ∧
        (m.acceptedIn more = [] → (m.run more).calling = .idle →
          (m.run more).stream.metrics.completed = (m.run more).stream.metrics.launched ∧
            (m.run more).stream.metrics.inFlight = 0)) ∧
    (m.calling = .idle → ∀ more,
      7 * m.stream.outstanding.length + 2 + more.countP Action.isRetry ≤ more.countP Action.isTurn →
        ∀ id ∈ m.stream.last, (m.run more).stream.isComplete id = true) ∧
    (m.calling = .idle → (∀ id < accepted.length, m.stream.synchronize.isComplete id = true) ∧
      m.stream.synchronize.metrics.completed = m.stream.synchronize.metrics.launched ∧
        m.stream.synchronize.metrics.inFlight = 0) := by
  intro m accepted
  have h : m.Follows accepted := run_follows actions
  refine ⟨?_, ?_, ?_, ⟨m.metrics_step, h.balanced⟩, ?_, ?_, ?_, ?_, ?_, ?_⟩
  · exact fun id hanswer => h.handle hanswer
  · intro id o ho
    refine ⟨h.outcome_run ho, fun late => Stream.note_complete_of_isComplete ?_ late⟩
    rw [Stream.isComplete, ho]
    rfl
  · exact fun id message => h.failed_iff
  · exact fun _ _ _ => Int.toNat_of_nonneg h.balanced.inFlight_nonneg
  · exact fun more => metrics_le_run more m
  · intro id hid
    exact Nat.lt_of_lt_of_le (h.isComplete_iff.1 hid) h.finished_le_completed
  · intro hidle more hwaited
    have hdone := h.synchronized hidle hwaited
    have hrun := h.run more
    refine ⟨fun id hid => hrun.isComplete_iff.2 (Nat.lt_of_lt_of_le hid hdone), fun hnone hidle' => ?_⟩
    rw [hnone, List.append_nil] at hrun
    exact hrun.counters_of_finished hidle' hdone
  · intro hidle more hturns id hid
    have hlast := (h.accepted_of_idle hidle).last
    have hdone := h.finished_all_of_turns hturns
    rw [hlast, Option.mem_def, List.getLast?_range] at hid
    refine (h.run more).isComplete_iff.2 ?_
    split at hid
    · cases hid
    · cases hid
      omega
  · intro hidle
    obtain ⟨haccepted, hall⟩ := (h.accepted_of_idle hidle).synchronize
    exact ⟨fun id hid => haccepted.isComplete_iff.2 (hall ▸ hid), haccepted.metrics_of_finished hall⟩

/--
A caller between its two updates, the worker between its first update and its last, and two readings, of which
the one loads `launched` before the launch of a kernel that fails, and the other `completed` as well.
-/
theorem counters_out_of_step :
    let work : Work := ⟨#[], some (.panic (.literal "boom")), ⟨0⟩⟩
    let entering := initial.run [.call work, .proceed]
    let leaving := entering.run ([.proceed, .proceed, .proceed] ++ List.replicate 4 (.worker (some 0)))
    let finished := leaving.run (List.replicate 3 (.worker (some 0)))
    let before := initial.stream.metrics
    let behind := finished.stream.metrics
    entering.stream.metrics = ⟨1, 0, 0, 0⟩ ∧ leaving.stream.metrics = ⟨1, 1, 0, 1⟩ ∧
    Metrics.load before behind behind behind = ⟨0, 1, 1, 0⟩ ∧
    Metrics.load before before behind behind = ⟨0, 0, 1, 0⟩ ∧
    ¬ ∀ actions, let metrics := (initial.run actions).stream.metrics
      (metrics.launched : Int) = metrics.completed + metrics.inFlight := by
  intro work entering leaving finished before behind
  refine ⟨by decide +kernel, by decide +kernel, by decide +kernel, by decide +kernel, fun h => ?_⟩
  exact absurd (h [.call work, .proceed]) (by decide +kernel)

end Machine

end AdaptiveLoops.Device
