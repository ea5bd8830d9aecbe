/-
What one event does to a stream, said once (`step_cases`), and what no event
undoes: an outcome that is known stays as it is (`outcome?_run`), whoever
marks the launch again.
-/
import AdaptiveLoops.Device.Stream

namespace AdaptiveLoops.Device.Stream

variable {s : Stream}

/-! ## One step of the worker -/

/-- What a step of the worker can do. -/
inductive Steps (s : Stream) : Stream → Prop where
  | still : Steps s s
  | taken {task : Task} {rest : List Task} (hrunning : s.running = none) (hbatch : s.batch = task :: rest) :
    Steps s { s with running := some (task, .taken), batch := rest }
  | stolen {task : Task} {rest : List Task} (more : Nat) (hrunning : s.running = none)
      (hbatch : s.batch = []) (hincoming : s.incoming = task :: rest) :
    Steps s { s with running := some (task, .taken), batch := rest.take more, incoming := rest.drop more }
  | started {task : Task} (hrunning : s.running = some (task, .taken)) :
    Steps s { s.note task.id Completion.start with running := some (task, .started) }
  | counted {task : Task} {phase next : Phase} {update : Metrics → Metrics}
      (hrunning : s.running = some (task, phase))
      (hcount : phase.count? (Outcome.ofWork task.work).isFailed = some (next, update)) :
    Steps s { s with metrics := update s.metrics, running := some (task, next) }
  | completed {task : Task} (hrunning : s.running = some (task, .counted)) :
    Steps s { s.note task.id (·.complete (Outcome.ofWork task.work)) with
      running := none
      finished := s.finished.push task.id }
  | left (hrunning : s.running = none) (hbatch : s.batch = []) (hincoming : s.incoming = [])
      (hclosed : s.closed = true) :
    Steps s { s with exited := true }

theorem step_cases (s : Stream) (w : WorkerStep) : Steps s (s.step w) := by
  cases w with
  | take =>
    simp only [step]
    split
    · next hrunning hbatch => exact .taken hrunning hbatch
    · exact .still
  | steal more =>
    simp only [step]
    split
    · next hrunning hbatch hincoming => exact .stolen more hrunning hbatch hincoming
    · exact .still
  | start =>
    simp only [step]
    split
    · next hrunning => exact .started hrunning
    · exact .still
  | count =>
    simp only [step]
    split
    · next hrunning =>
      split
      · next hcount => exact .counted hrunning hcount
      · exact .still
    · exact .still
  | complete =>
    simp only [step]
    split
    · next hrunning => exact .completed hrunning
    · exact .still
  | exit =>
    simp only [step]
    split
    · next hrunning hbatch hincoming =>
      split
      · next hclosed => exact .left hrunning hbatch hincoming hclosed
      · exact .still
    · exact .still

/-! ## Outcomes -/

theorem outcome?_note_start (id id' : LaunchId) :
    (s.note id Completion.start).outcome? id' = s.outcome? id' := by
  simp only [outcome?, note, Array.getElem?_modify]
  split
  · cases s.completions[id']? <;> rfl
  · rfl

theorem outcome?_note_complete (id id' : LaunchId) (o : Outcome) :
    (s.note id (·.complete o)).outcome? id' =
      if id = id' ∧ id' < s.completions.size then (s.outcome? id').or (some o) else s.outcome? id' := by
  simp only [outcome?, note, Array.getElem?_modify]
  by_cases hid : id = id'
  · subst hid
    cases hc : s.completions[id]? with
    | none =>
      have hge := Array.getElem?_eq_none_iff.1 hc
      simp [Nat.not_lt.2 hge]
    | some c =>
      have hlt := (Array.getElem?_eq_some_iff.1 hc).1
      simp only [if_true, Option.map_some, Option.bind_some, hlt, and_self, Completion.complete]
      cases ho : c.outcome <;> simp [ho]
  · simp [hid]

/-- **A launch that is complete takes no other outcome**, whoever marks it again. -/
theorem note_complete_of_isComplete {id : LaunchId} (h : s.isComplete id = true) (o : Outcome) :
    s.note id (·.complete o) = s := by
  simp only [isComplete, outcome?] at h
  cases hc : s.completions[id]? with
  | none => simp [hc] at h
  | some c =>
    simp only [hc, Option.bind_some] at h
    have hmark : c.complete o = c := by simp [Completion.complete, h]
    have hlist : s.completions.modify id (·.complete o) = s.completions := by
      refine Array.ext_getElem? fun i => ?_
      rw [Array.getElem?_modify]
      split
      · next heq =>
        subst heq
        rw [hc, Option.map_some, hmark]
      · rfl
    simp only [note, hlist]

theorem outcome?_step {id : LaunchId} {o : Outcome} (h : s.outcome? id = some o) (w : WorkerStep) :
    (s.step w).outcome? id = some o := by
  have hsteps : Steps s (s.step w) := step_cases s w
  generalize s.step w = s' at hsteps ⊢
  cases hsteps with
  | still => exact h
  | taken _ _ => exact h
  | stolen _ _ _ _ => exact h
  | @started task _ => exact (outcome?_note_start task.id id).trans h
  | counted _ _ => exact h
  | @completed task _ =>
    have hnote := outcome?_note_complete (s := s) task.id id (Outcome.ofWork task.work)
    rw [h, Option.some_or, ite_self] at hnote
    exact hnote
  | left _ _ _ _ => exact h

theorem outcome?_launch {work : Work} {id : LaunchId} {s' : Stream} (h : s.launch work = .ok (id, s'))
    (id' : LaunchId) : s'.outcome? id' = s.outcome? id' := by
  unfold launch at h
  split at h
  · cases h
  · cases h
    simp only [outcome?, Array.getElem?_push]
    split
    · next heq => rw [heq, Array.getElem?_eq_none (Nat.le_refl _)]; rfl
    · rfl

theorem outcome?_after {id : LaunchId} {o : Outcome} (h : s.outcome? id = some o) (e : Event) :
    (s.after e).outcome? id = some o := by
  cases e with
  | launch work =>
    simp only [after]
    split
    · exact h
    · next hlaunch => exact (outcome?_launch hlaunch id).trans h
  | shutdown => exact h
  | worker w => exact outcome?_step h w

/-- **An outcome that is known never changes.** -/
theorem outcome?_run {id : LaunchId} {o : Outcome} : ∀ (events : List Event) {s : Stream},
    s.outcome? id = some o → (s.run events).outcome? id = some o
  | [], _, h => h
  | e :: events, _, h => outcome?_run events (outcome?_after h e)

/-! ## What the worker leaves to the callers -/

theorem closed_step (s : Stream) (w : WorkerStep) : (s.step w).closed = s.closed := by
  have hsteps : Steps s (s.step w) := step_cases s w
  generalize s.step w = s' at hsteps ⊢
  cases hsteps <;> rfl

theorem closed_advanceUntil {done : Stream → Bool} : ∀ (n : Nat) (s : Stream),
    (advanceUntil done n s).closed = s.closed
  | 0, _ => rfl
  | n + 1, s => by
    unfold advanceUntil
    split
    · rfl
    · rw [closed_advanceUntil n, advance]
      simp only [List.foldl_cons, List.foldl_nil, closed_step]

theorem last_step (s : Stream) (w : WorkerStep) : (s.step w).last = s.last := by
  have hsteps : Steps s (s.step w) := step_cases s w
  generalize s.step w = s' at hsteps ⊢
  cases hsteps <;> rfl

/-! ## What a stream comes to -/

theorem run_append (s : Stream) (events events' : List Event) :
    s.run (events ++ events') = (s.run events).run events' :=
  List.foldl_append

/-- A stream that is come to by events. -/
def Reaches (s s' : Stream) : Prop :=
  ∃ events, s' = s.run events

theorem Reaches.refl (s : Stream) : s.Reaches s := ⟨[], rfl⟩

theorem Reaches.trans {s₁ s₂ s₃ : Stream} (h₁ : s₁.Reaches s₂) (h₂ : s₂.Reaches s₃) : s₁.Reaches s₃ := by
  obtain ⟨events₁, rfl⟩ := h₁
  obtain ⟨events₂, rfl⟩ := h₂
  exact ⟨events₁ ++ events₂, (run_append ..).symm⟩

theorem Reaches.outcome? {s s' : Stream} (h : s.Reaches s') {id : LaunchId} {o : Outcome}
    (ho : s.outcome? id = some o) : s'.outcome? id = some o := by
  obtain ⟨events, rfl⟩ := h
  exact outcome?_run events ho

theorem reaches_run (s : Stream) (events : List Event) : s.Reaches (s.run events) := ⟨events, rfl⟩

theorem launch_eq_error {work : Work} {e : LoopError} :
    s.launch work = .error e ↔ s.closed = true ∧ e = .streamClosed := by
  unfold launch
  split
  · next hclosed => simp [hclosed, eq_comm]
  · next hopen => simp [hopen]

theorem exists_launch (hopen : s.closed = false) (work : Work) : ∃ id s', s.launch work = .ok (id, s') := by
  simp [launch, hopen]

theorem reaches_launch {work : Work} {id : LaunchId} {s' : Stream} (h : s.launch work = .ok (id, s')) :
    s.Reaches s' := by
  refine ⟨[.launch work], ?_⟩
  simp only [run, List.foldl_cons, List.foldl_nil, after, h]

theorem reaches_advance (s : Stream) : s.Reaches s.advance :=
  ⟨[.worker .take, .worker (.steal s.incoming.length), .worker .start, .worker .count, .worker .count,
    .worker .count, .worker .complete], rfl⟩

theorem reaches_advanceUntil {done : Stream → Bool} : ∀ (n : Nat) (s : Stream),
    s.Reaches (advanceUntil done n s)
  | 0, s => .refl s
  | n + 1, s => by
    unfold advanceUntil
    split
    · exact .refl s
    · exact (reaches_advance s).trans (reaches_advanceUntil n s.advance)

theorem reaches_wait (s : Stream) (id : LaunchId) : s.Reaches (s.wait id) :=
  reaches_advanceUntil _ s

end AdaptiveLoops.Device.Stream
