/-
Waiting for the stream.

Where a kernel is outstanding, `advance` finishes exactly one more
(`finished_advance`), so who waits for a launch that was accepted is not
left waiting (`Accepted.wait`); after `synchronize` all that was accepted is
complete (`Accepted.synchronize`).
-/
import AdaptiveLoops.Proofs.Device.Order

namespace AdaptiveLoops.Device.Stream

variable {s : Stream} {log : List Work} {id : Nat}

/-! ## Advancing -/

/-- The worker takes a kernel, unless it has one, and starts it. -/
theorem exists_started (h : s.outstanding ≠ []) : ∃ task phase, phase ≠ .taken ∧
    (((s.step .take).step (.steal s.incoming.length)).step .start).running = some (task, phase) ∧
    (((s.step .take).step (.steal s.incoming.length)).step .start).finished = s.finished := by
  cases hrunning : s.running with
  | some r =>
    obtain ⟨task, phase⟩ := r
    cases phase <;> simp [step, note, hrunning]
  | none =>
    cases hbatch : s.batch with
    | cons task rest => simp [step, note, hrunning, hbatch]
    | nil =>
      cases hincoming : s.incoming with
      | cons task rest => simp [step, note, hrunning, hbatch, hincoming]
      | nil => simp [outstanding, hrunning, hbatch, hincoming] at h

theorem running_step_count {task : Task} {phase : Phase} (h : s.running = some (task, phase)) :
    (s.step .count).running =
      some (task, ((phase.count? (Outcome.ofWork task.work).isFailed).map (·.1)).getD phase) := by
  simp only [step, h]
  split
  · next hcount => simp [hcount]
  · next hcount => simp [hcount, h]

theorem finished_step_count (s : Stream) : (s.step .count).finished = s.finished := by
  simp only [step]
  split
  · split <;> rfl
  · rfl

theorem running_counted {task : Task} {phase : Phase} (h : s.running = some (task, phase)) (hphase : phase ≠ .taken) :
    (((s.step .count).step .count).step .count).running = some (task, .counted) := by
  rw [running_step_count (running_step_count (running_step_count h))]
  generalize (Outcome.ofWork task.work).isFailed = failed
  cases phase with
  | taken => exact absurd rfl hphase
  | _ => cases failed <;> rfl

/-- **Advancing finishes one kernel**, if there is one. -/
theorem finished_advance (h : s.outstanding ≠ []) : s.advance.finished.size = s.finished.size + 1 := by
  simp only [advance, List.foldl_cons, List.foldl_nil]
  obtain ⟨task, phase, hphase, hrunning, hfinished⟩ := exists_started h
  generalize ((s.step .take).step (.steal s.incoming.length)).step .start = started at hrunning hfinished ⊢
  have hcounted := running_counted hrunning hphase
  rw [← hfinished, ← finished_step_count started, ← finished_step_count (started.step .count),
    ← finished_step_count ((started.step .count).step .count)]
  generalize ((started.step .count).step .count).step .count = counted at hcounted ⊢
  simp [step, hcounted]

theorem Accepted.steps : ∀ (steps : List WorkerStep) {s : Stream}, s.Accepted log →
    (steps.foldl Stream.step s).Accepted log
  | [], _, h => h
  | w :: steps, _, h => Accepted.steps steps (h.step w)

theorem Accepted.advance (h : s.Accepted log) : s.advance.Accepted log :=
  Accepted.steps _ h

theorem Accepted.outstanding_ne_nil (h : s.Accepted log) (hlt : s.finished.size < log.length) :
    s.outstanding ≠ [] := by
  rw [h.outstanding]
  intro hnil
  have hle := List.drop_eq_nil_iff.1 hnil
  rw [length_numbered] at hle
  omega

theorem Accepted.length_outstanding (h : s.Accepted log) :
    s.finished.size + s.outstanding.length = log.length := by
  have hle := h.finished_le
  rw [h.outstanding, List.length_drop, length_numbered]
  omega

theorem queued_eq (s : Stream) : s.queued = s.outstanding.length := by
  simp [queued, outstanding, Nat.add_assoc]

/-! ## Waiting -/

theorem Accepted.advanceUntil {done : Stream → Bool} : ∀ (n : Nat) {s : Stream}, s.Accepted log →
    (Stream.advanceUntil done n s).Accepted log
  | 0, _, h => h
  | n + 1, s, h => by
    unfold Stream.advanceUntil
    split
    · exact h
    · exact Accepted.advanceUntil n h.advance

/-- As many steps as there are kernels up to a launch complete it. -/
theorem Accepted.isComplete_advanceUntil (hid : id < log.length) : ∀ (n : Nat) {s : Stream},
    s.Accepted log → id < s.finished.size + n →
      (Stream.advanceUntil (·.isComplete id) n s).isComplete id = true
  | 0, _, h, hlt => h.isComplete_iff.2 hlt
  | n + 1, s, h, hlt => by
    unfold Stream.advanceUntil
    split
    · next hdone => exact hdone
    · next hdone =>
      have hge : s.finished.size ≤ id := Nat.not_lt.1 fun hfinished => hdone (h.isComplete_iff.2 hfinished)
      have hadvance := finished_advance (h.outstanding_ne_nil (Nat.lt_of_le_of_lt hge hid))
      exact Accepted.isComplete_advanceUntil hid n h.advance (by omega)

/-- **A launch that was accepted is complete once it was waited for.** -/
theorem Accepted.wait (h : s.Accepted log) (hid : id < log.length) :
    (s.wait id).isComplete id = true := by
  have hall := h.length_outstanding
  refine h.isComplete_advanceUntil hid _ ?_
  rw [queued_eq]
  omega

theorem lt_size_of_launch {work : Work} {s' : Stream} (h : s.launch work = .ok (id, s')) :
    id < s'.completions.size := by
  unfold Stream.launch at h
  split at h
  · cases h
  · cases h
    simp

/-- **A launch that is waited for** is complete then, with the outcome of its work, whatever came before the wait. -/
theorem Accepted.outcome?_wait_of_reaches (h : s.Accepted log) {work : Work} {s' later : Stream}
    (hlaunch : s.launch work = .ok (id, s')) (hlater : s'.Reaches later) :
    (later.wait id).outcome? id = some (.ofWork work) := by
  have hid : id = log.length := by
    unfold Stream.launch at hlaunch
    split at hlaunch
    · cases hlaunch
    · cases hlaunch
      exact h.size
  obtain ⟨events, rfl⟩ := hlater
  have haccepted := run_accepted events (h.launch hlaunch)
  have hafter : ((s'.run events).wait id).Accepted (log ++ [work] ++ s'.acceptedIn events) :=
    haccepted.advanceUntil _
  have hdone : ((s'.run events).wait id).isComplete id = true := haccepted.wait (by simp [hid])
  rw [hafter.isComplete_iff] at hdone
  rw [hafter.outcome, List.getElem?_take_of_lt hdone, hid, List.getElem?_append_left (by simp),
    List.getElem?_concat_length, Option.map_some]

theorem Accepted.outcome?_wait (h : s.Accepted log) {work : Work} {s' : Stream}
    (hlaunch : s.launch work = .ok (id, s')) : (s'.wait id).outcome? id = some (.ofWork work) :=
  h.outcome?_wait_of_reaches hlaunch (.refl s')

theorem Accepted.isComplete_of_last (h : s.Accepted log) (hlast : s.isComplete (log.length - 1) = true) :
    s.finished.size = log.length := by
  have hle := h.finished_le
  rw [h.isComplete_iff] at hlast
  omega

/-- **After a synchronization every launch that was accepted is complete.** -/
theorem Accepted.synchronize (h : s.Accepted log) :
    s.synchronize.Accepted log ∧ s.synchronize.finished.size = log.length := by
  have hlast := h.last
  unfold Stream.synchronize Stream.synchronizeDuring
  cases hlog : log.length with
  | zero =>
    have hle := h.finished_le
    rw [hlog] at hlast hle
    rw [hlast]
    exact ⟨h, Nat.le_zero.1 hle⟩
  | succ n =>
    have hn : s.last = some n := by simp [hlast, hlog, List.range_succ]
    rw [hn]
    have hwait : (s.wait n).Accepted log := h.advanceUntil _
    have hdone : (s.wait n).isComplete (log.length - 1) = true := by
      rw [hlog]
      exact h.wait (by omega)
    exact ⟨hwait, (hwait.isComplete_of_last hdone).trans hlog⟩

theorem reaches_synchronizeDuring (s : Stream) (meanwhile : List Event) :
    s.Reaches (s.synchronizeDuring meanwhile) := by
  unfold synchronizeDuring
  split
  · exact reaches_run s meanwhile
  · exact (reaches_run s meanwhile).trans (reaches_wait _ _)

/-- **Whatever the stream does meanwhile**, what was launched before a synchronization is complete behind it. -/
theorem Accepted.synchronizeDuring (h : s.Accepted log) (meanwhile : List Event) (hid : id < s.completions.size) :
    (s.synchronizeDuring meanwhile).isComplete id = true := by
  rw [h.size] at hid
  have hlast : s.last = some (log.length - 1) := by
    rw [h.last, List.getLast?_range, if_neg (by omega)]
  have hrun := run_accepted meanwhile h
  have hwait : ((s.run meanwhile).wait (log.length - 1)).Accepted (log ++ s.acceptedIn meanwhile) :=
    hrun.advanceUntil _
  have hlt : log.length - 1 < (log ++ s.acceptedIn meanwhile).length := by
    rw [List.length_append]
    omega
  have hdone := hrun.wait hlt
  simp only [Stream.synchronizeDuring, hlast]
  rw [hwait.isComplete_iff] at hdone ⊢
  omega

end AdaptiveLoops.Device.Stream
