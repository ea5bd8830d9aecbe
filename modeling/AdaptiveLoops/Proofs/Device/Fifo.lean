/-
First come, first served: what is launched runs in the order of the
launches, one kernel at a time, and each kernel once.

The kernels whose functions were called are at every moment the first of the
log (`startedIn_eq`). For the rest of the promise there is a bound on the
turns the worker may still need until the first `n` kernels are finished
(`turnsLeft`): each turn takes one off, a theft that has to be tried again
adds one, and callers change nothing. So the worker leaves no kernel behind,
whatever happens between its turns (`finished_of_turns`).
-/
import AdaptiveLoops.Proofs.Device.Interleaving
import Mathlib.Data.List.Nodup

namespace AdaptiveLoops.Device

/-- A turn of the worker that is not spent on a theft to be tried again. -/
def Action.isTurn : Action → Bool
  | .worker (some _) => true
  | _ => false

def Action.isRetry : Action → Bool
  | .worker none => true
  | _ => false

/-- The kernel whose function was called, if the worker is not done with it. -/
def Stream.inProgress (s : Stream) : List Task :=
  match s.running with
  | none => []
  | some (_, .taken) => []
  | some (task, _) => [task]

theorem Stream.inProgress_of_some {s : Stream} {task : Task} {phase : Phase} (h : s.running = some (task, phase)) :
    s.inProgress = if phase = .taken then [] else [task] := by
  cases phase <;> simp [inProgress, h]

/-- The turns the worker needs to complete a kernel from a phase on, at most. -/
def Phase.turns : Phase → Nat
  | .taken => 5
  | .started => 4
  | .completed => 3
  | .failed => 2
  | .counted => 1

theorem Phase.exists_count? {phase : Phase} (htaken : phase ≠ .taken) (hcounted : phase ≠ .counted) (failed : Bool) :
    ∃ next update, phase.count? failed = some (next, update) ∧ next ≠ .taken ∧ next.turns < phase.turns := by
  cases phase with
  | taken => exact absurd rfl htaken
  | counted => exact absurd rfl hcounted
  | completed => cases failed <;> exact ⟨_, _, rfl, by simp, by decide⟩
  | _ => exact ⟨_, _, rfl, by simp, by decide⟩

namespace Machine

/-- The kernel whose function a step calls. -/
def startedBy (m : Machine) : Action → List Task
  | .worker _ =>
    match m.station, m.stream.running with
    | .running, some (task, .taken) => [task]
    | _, _ => []
  | _ => []

/-- The kernels whose functions a run calls, in the order of the calls. -/
def startedIn (m : Machine) : List Action → List Task
  | [] => []
  | a :: actions => m.startedBy a ++ (m.step a).startedIn actions

variable {m : Machine} {log : List Work}

theorem run_append (m : Machine) (actions actions' : List Action) :
    m.run (actions ++ actions') = (m.run actions).run actions' :=
  List.foldl_append

theorem acceptedIn_append : ∀ (actions : List Action) (m : Machine) (actions' : List Action),
    m.acceptedIn (actions ++ actions') = m.acceptedIn actions ++ (m.run actions).acceptedIn actions'
  | [], _, _ => rfl
  | a :: actions, m, actions' => by
    have hrest := acceptedIn_append actions (m.step a) actions'
    rw [List.cons_append, acceptedIn, hrest, ← List.append_assoc]
    rfl

/-! ## What a step leaves alone -/

/-- Callers leave the worker where it is, and the kernels it has. -/
theorem callers_leave (m : Machine) {a : Action} (ha : ∀ more?, a ≠ .worker more?) :
    (m.step a).station = m.station ∧ (m.step a).stream.running = m.stream.running ∧
      (m.step a).stream.finished = m.stream.finished := by
  cases a with
  | call work =>
    simp only [step, call]
    split
    · split <;> exact ⟨rfl, rfl, rfl⟩
    · exact ⟨rfl, rfl, rfl⟩
  | proceed =>
    simp only [step, proceed]
    split <;> exact ⟨rfl, rfl, rfl⟩
  | shutdown =>
    simp only [step, shutdown]
    split <;> exact ⟨rfl, rfl, rfl⟩
  | worker more? => exact absurd rfl (ha more?)

/-- Where nothing runs, the worker can only look around, take a kernel, or leave. -/
theorem work_of_not_running (h : m.Follows log) (hat : m.station ≠ .running) (more? : Option Nat) :
    (m.work more?).stream.finished = m.stream.finished ∧ m.stream.inProgress = [] ∧
      (m.work more?).stream.inProgress = [] := by
  have hfits := h.station
  unfold work
  cases hstation : m.station with
  | popping =>
    rw [hstation] at hfits
    have hnone : m.stream.running = none := hfits
    cases hbatch : m.stream.batch <;> simp [Stream.step, Stream.inProgress, hnone, hbatch]
  | stealing =>
    rw [hstation] at hfits
    obtain ⟨hnone, hbatch⟩ := hfits
    cases more? with
    | none => simp [Stream.inProgress, hnone]
    | some more =>
      cases hincoming : m.stream.incoming <;> simp [Stream.step, Stream.inProgress, hnone, hbatch, hincoming]
  | asking =>
    rw [hstation] at hfits
    simp [Stream.inProgress, hfits.1]
  | leaving =>
    rw [hstation] at hfits
    cases hincoming : m.stream.incoming <;> simp [Stream.inProgress, hfits.1]
  | running => exact absurd hstation hat
  | gone =>
    rw [hstation] at hfits
    have hnone : m.stream.running = none := by
      have hnil := hfits.1
      simp only [Stream.outstanding, List.append_eq_nil_iff, List.map_eq_nil_iff] at hnil
      simpa using hnil.1.1
    simp [Stream.inProgress, hnone]

/-- A turn of the worker while it runs a kernel: the kernel is finished, or goes on to a phase nearer to that. -/
theorem runKernel_of_some {task : Task} {phase : Phase} (hrunning : m.stream.running = some (task, phase)) :
    (phase = .counted ∧ m.runKernel.station = .popping ∧ m.runKernel.stream.running = none ∧
        m.runKernel.stream.finished = m.stream.finished.push task.id) ∨
      ∃ next, m.runKernel.station = m.station ∧ m.runKernel.stream.running = some (task, next) ∧
        m.runKernel.stream.finished = m.stream.finished ∧ next ≠ .taken ∧ next.turns < phase.turns := by
  unfold runKernel
  by_cases htaken : phase = .taken
  · subst htaken
    exact .inr ⟨.started, by simp [hrunning, Stream.step, Stream.note, Phase.turns]⟩
  · by_cases hcounted : phase = .counted
    · subst hcounted
      exact .inl (by simp [hrunning, Stream.step, Stream.note])
    · obtain ⟨next, update, hcount, hnext, hturns⟩ :=
        Phase.exists_count? htaken hcounted (Outcome.ofWork task.work).isFailed
      refine .inr ⟨next, ?_⟩
      cases phase <;> simp_all [Stream.step]

/-! ## Which kernels were started -/

/-- The number of kernels whose function was called. -/
def startedKernels (m : Machine) : Nat :=
  m.stream.finished.size + m.stream.inProgress.length

theorem Follows.startedKernels_le (h : m.Follows log) : m.startedKernels ≤ log.length := by
  have hlength := congrArg List.length h.outstanding
  have hle := h.finished_le
  rw [List.length_drop, length_numbered] at hlength
  have hprogress : m.stream.inProgress.length ≤ m.stream.outstanding.length := by
    unfold Stream.inProgress Stream.outstanding
    split <;> simp [*]
  unfold startedKernels
  omega

theorem take_numbered_append {n : Nat} (hn : n ≤ log.length) (more : List Work) :
    (numbered (log ++ more)).take n = (numbered log).take n := by
  rw [numbered, List.mapIdx_append]
  exact List.take_append_of_le_length (by rw [List.length_mapIdx]; exact hn)

theorem Follows.startedBy (h : m.Follows log) (a : Action) :
    (numbered log).take m.startedKernels ++ m.startedBy a =
      (numbered (log ++ m.acceptedBy a)).take (m.step a).startedKernels := by
  by_cases ha : ∀ more?, a ≠ .worker more?
  · obtain ⟨-, hrunning, hfinished⟩ := m.callers_leave ha
    have hsame : (m.step a).startedKernels = m.startedKernels := by
      simp only [startedKernels, Stream.inProgress, hrunning, hfinished]
    have hnone : m.startedBy a = [] := by
      cases a with
      | worker more? => exact absurd rfl (ha more?)
      | _ => rfl
    rw [hsame, hnone, List.append_nil, take_numbered_append h.startedKernels_le]
  · obtain ⟨more?, rfl⟩ := not_forall_not.1 ha
    have hlog : log ++ m.acceptedBy (.worker more?) = log := List.append_nil log
    rw [hlog]
    by_cases hat : m.station = .running
    · simp only [Machine.step, Machine.work, hat, startedKernels]
      have hfits := h.station
      rw [hat] at hfits
      obtain ⟨⟨task, phase⟩, hrunning⟩ := Option.isSome_iff_exists.1 hfits
      have hprogress := Stream.inProgress_of_some hrunning
      rcases runKernel_of_some hrunning with ⟨rfl, -, hafter, hfinished⟩ | ⟨next, -, hafter, hfinished, hnext, -⟩
      · simp [Machine.startedBy, hat, hrunning, hfinished, Stream.inProgress, hafter]
      · have hprogress' := Stream.inProgress_of_some hafter
        rw [if_neg hnext] at hprogress'
        by_cases htaken : phase = .taken
        · -- The kernel that was taken is the next of the log.
          have hhead : (numbered log)[m.stream.finished.size]? = some task := by
            rw [← List.head?_drop, h.running hrunning, List.head?_cons]
          simp [Machine.startedBy, hat, hrunning, htaken, hprogress, hprogress', hfinished, List.take_add_one, hhead]
        · have hnone : m.startedBy (.worker more?) = [] := by
            cases phase <;> simp_all [Machine.startedBy]
          simp [hnone, htaken, hprogress, hprogress', hfinished]
    · obtain ⟨hfinished, hbefore, hafter⟩ := work_of_not_running h hat more?
      have hnone : m.startedBy (.worker more?) = [] := by
        unfold Machine.startedBy
        cases hstation : m.station with
        | running => exact absurd hstation hat
        | _ => rfl
      simp only [hnone, List.append_nil, startedKernels, Machine.step, hfinished, hbefore, hafter]

/-- **The kernels that were started are the first of the log**, each once and in its order. -/
theorem Follows.startedIn : ∀ (actions : List Action) {m : Machine} {log : List Work}, m.Follows log →
    (numbered log).take m.startedKernels ++ m.startedIn actions =
      (numbered (log ++ m.acceptedIn actions)).take (m.run actions).startedKernels
  | [], m, log, _ => by
    rw [Machine.startedIn, acceptedIn, List.append_nil, List.append_nil]
    rfl
  | a :: actions, m, log, h => by
    have hrest := Follows.startedIn actions (h.step a)
    rw [← h.startedBy a, List.append_assoc, List.append_assoc] at hrest
    exact hrest

/-! ## Progress -/

theorem Follows.finished_le_step (h : m.Follows log) (a : Action) :
    m.stream.finished.size ≤ (m.step a).stream.finished.size := by
  by_cases ha : ∀ more?, a ≠ .worker more?
  · exact Nat.le_of_eq (congrArg Array.size (m.callers_leave ha).2.2.symm)
  · obtain ⟨more?, rfl⟩ := not_forall_not.1 ha
    by_cases hat : m.station = .running
    · simp only [Machine.step, Machine.work, hat]
      have hfits := h.station
      rw [hat] at hfits
      obtain ⟨⟨task, phase⟩, hrunning⟩ := Option.isSome_iff_exists.1 hfits
      rcases runKernel_of_some hrunning with ⟨-, -, -, hfinished⟩ | ⟨next, -, -, hfinished, -⟩ <;> simp [hfinished]
    · exact Nat.le_of_eq (congrArg Array.size (work_of_not_running h hat more?).1.symm)

theorem Follows.finished_le_run : ∀ (actions : List Action) {m : Machine} {log : List Work}, m.Follows log →
    m.stream.finished.size ≤ (m.run actions).stream.finished.size
  | [], _, _, _ => Nat.le_refl _
  | a :: actions, _, _, h => Nat.le_trans (h.finished_le_step a) (Follows.finished_le_run actions (h.step a))

/-- The turns the worker needs at most until one more kernel is finished. -/
def cost (m : Machine) : Nat :=
  match m.station with
  | .popping => 7
  | .stealing => 6
  | .asking => 9
  | .leaving => 8
  | .running =>
    match m.stream.running with
    | some (_, phase) => phase.turns
    | none => 0
  | .gone => 0

theorem Follows.cost_pos (h : m.Follows log) (hsome : m.stream.outstanding ≠ []) : 0 < m.cost := by
  have hfits := h.station
  unfold Machine.cost
  cases hat : m.station with
  | running =>
    rw [hat] at hfits
    obtain ⟨⟨task, phase⟩, hrunning⟩ := Option.isSome_iff_exists.1 hfits
    cases phase <;> simp [hrunning, Phase.turns]
  | gone =>
    rw [hat] at hfits
    exact absurd hfits.1 hsome
  | _ => simp

/-- **A turn brings the worker nearer to the end of the next kernel**, or is that end; a theft that has to be
tried again takes it back by one turn. -/
theorem Follows.cost_work (h : m.Follows log) (hsome : m.stream.outstanding ≠ []) (more? : Option Nat) :
    ((m.work more?).stream.finished.size = m.stream.finished.size ∧
        (more? ≠ none → (m.work more?).cost + 1 ≤ m.cost) ∧ (m.work more?).cost ≤ m.cost + 1) ∨
      ((m.work more?).stream.finished.size = m.stream.finished.size + 1 ∧
        (m.work more?).cost = 7 ∧ m.cost = 1) := by
  have hfits := h.station
  cases hat : m.station with
  | popping =>
    rw [hat] at hfits
    have hnone : m.stream.running = none := hfits
    left
    cases hbatch : m.stream.batch with
    | nil => simp [Machine.work, Machine.cost, hat, hbatch]
    | cons task rest => simp [Machine.work, Machine.cost, Stream.step, Phase.turns, hat, hnone, hbatch]
  | stealing =>
    rw [hat] at hfits
    obtain ⟨hnone, hbatch⟩ := hfits
    left
    cases more? with
    | none => simp [Machine.work, Machine.cost, hat]
    | some more =>
      -- Nothing else is outstanding, so there is a kernel to steal.
      cases hincoming : m.stream.incoming with
      | nil => simp [Stream.outstanding, hnone, hbatch, hincoming] at hsome
      | cons task rest =>
        simp [Machine.work, Machine.cost, Stream.step, Phase.turns, hat, hnone, hbatch, hincoming]
  | asking =>
    left
    cases hclosed : m.stream.closed <;> simp [Machine.work, Machine.cost, hat, hclosed]
  | leaving =>
    rw [hat] at hfits
    obtain ⟨hnone, hbatch, -⟩ := hfits
    left
    cases hincoming : m.stream.incoming with
    | nil => simp [Stream.outstanding, hnone, hbatch, hincoming] at hsome
    | cons task rest => simp [Machine.work, Machine.cost, hat, hincoming]
  | running =>
    rw [hat] at hfits
    obtain ⟨⟨task, phase⟩, hrunning⟩ := Option.isSome_iff_exists.1 hfits
    simp only [Machine.work, Machine.cost, hat]
    rcases runKernel_of_some hrunning with ⟨rfl, hpopping, -, hfinished⟩ | ⟨next, hstay, hafter, hfinished, -, hturns⟩
    · right
      simp [hpopping, hfinished, hrunning, Phase.turns]
    · left
      simp only [hstay, hat, hafter, hfinished, hrunning, true_and]
      exact ⟨fun _ => hturns, by omega⟩
  | gone =>
    rw [hat] at hfits
    exact absurd hfits.1 hsome

/-- The turns the worker needs at most until the first `n` kernels are finished. -/
def turnsLeft (m : Machine) (n : Nat) : Nat :=
  if n ≤ m.stream.finished.size then 0 else 7 * (n - (m.stream.finished.size + 1)) + m.cost

theorem turnsLeft_of_le {n : Nat} (h : n ≤ m.stream.finished.size) : m.turnsLeft n = 0 := if_pos h

theorem turnsLeft_of_lt {n : Nat} (h : m.stream.finished.size < n) :
    m.turnsLeft n = 7 * (n - (m.stream.finished.size + 1)) + m.cost := if_neg (Nat.not_le.2 h)

/-- **The turns that are left get fewer with every turn**, and more only with a theft to be tried again. -/
theorem Follows.turnsLeft_step (h : m.Follows log) {n : Nat} (hn : n ≤ log.length)
    (hlt : m.stream.finished.size < n) (a : Action) :
    (m.step a).turnsLeft n + (if a.isTurn then 1 else 0) ≤ m.turnsLeft n + if a.isRetry then 1 else 0 := by
  have hsome : m.stream.outstanding ≠ [] := by
    rw [h.outstanding, Ne, List.drop_eq_nil_iff, length_numbered]
    omega
  by_cases ha : ∀ more?, a ≠ .worker more?
  · obtain ⟨hstation, hrunning, hfinished⟩ := m.callers_leave ha
    have hsame : (m.step a).turnsLeft n = m.turnsLeft n := by
      simp only [turnsLeft, Machine.cost, hstation, hrunning, hfinished]
    have hturn : a.isTurn = false := by
      cases a with
      | worker more? => exact absurd rfl (ha more?)
      | _ => rfl
    rw [hsame, hturn]
    exact Nat.le_add_right ..
  · obtain ⟨more?, rfl⟩ := not_forall_not.1 ha
    have hcost := h.cost_work hsome more?
    have hleft := turnsLeft_of_lt hlt
    rcases h.cost_work hsome more? with ⟨hfinished, hforward, hback⟩ | ⟨hfinished, hafter, hbefore⟩
    · have hleft' : (m.step (.worker more?)).turnsLeft n =
          7 * (n - (m.stream.finished.size + 1)) + (m.work more?).cost := by
        rw [← hfinished]
        exact turnsLeft_of_lt (by rw [Machine.step, hfinished]; exact hlt)
      rw [hleft, hleft']
      cases more? with
      | none =>
        simp only [Action.isTurn, Action.isRetry, Bool.false_eq_true, if_false, if_true]
        omega
      | some more =>
        have hless := hforward (by simp)
        simp only [Action.isTurn, Action.isRetry, Bool.false_eq_true, if_false, if_true]
        omega
    · -- The next kernel is finished; a whole round is left for each one after it.
      have hleft' : (m.step (.worker more?)).turnsLeft n + 1 ≤ m.turnsLeft n := by
        by_cases hmore : n ≤ m.stream.finished.size + 1
        · rw [turnsLeft_of_le (by rw [Machine.step, hfinished]; exact hmore)]
          omega
        · rw [turnsLeft_of_lt (by rw [Machine.step, hfinished]; omega), Machine.step, hfinished, hafter]
          omega
      cases more? with
      | none =>
        simp only [Action.isTurn, Action.isRetry, Bool.false_eq_true, if_false, if_true]
        omega
      | some more =>
        simp only [Action.isTurn, Action.isRetry, Bool.false_eq_true, if_false, if_true]
        omega

/-- **With enough turns the worker finishes what was accepted**, whatever callers do between its turns. -/
theorem Follows.finished_of_turns {n : Nat} : ∀ (actions : List Action) {m : Machine} {log : List Work},
    m.Follows log → n ≤ log.length →
    m.turnsLeft n + actions.countP Action.isRetry ≤ actions.countP Action.isTurn →
      n ≤ (m.run actions).stream.finished.size
  | [], m, log, h, hn, hturns => by
    by_contra hge
    have hlt : m.stream.finished.size < n := Nat.lt_of_not_le hge
    have hsome : m.stream.outstanding ≠ [] := by
      rw [h.outstanding, Ne, List.drop_eq_nil_iff, length_numbered]
      omega
    have hpos := h.cost_pos hsome
    have hzero : m.turnsLeft n = 0 := Nat.le_zero.1 hturns
    rw [turnsLeft_of_lt hlt] at hzero
    omega
  | a :: actions, m, log, h, hn, hturns => by
    by_cases hdone : n ≤ m.stream.finished.size
    · exact Nat.le_trans hdone (Follows.finished_le_run (a :: actions) h)
    · have hstep := h.turnsLeft_step hn (Nat.lt_of_not_le hdone) a
      have hn' : n ≤ (log ++ m.acceptedBy a).length := by
        rw [List.length_append]
        omega
      rw [List.countP_cons, List.countP_cons] at hturns
      exact Follows.finished_of_turns actions (h.step a) hn' (by omega)

/-- The worker finishes all that was accepted, given seven turns for each kernel and two to begin with. -/
theorem Follows.finished_all_of_turns (h : m.Follows log) {actions : List Action}
    (hturns : 7 * m.stream.outstanding.length + 2 + actions.countP Action.isRetry ≤
      actions.countP Action.isTurn) : log.length ≤ (m.run actions).stream.finished.size := by
  have hlength := congrArg List.length h.outstanding
  have hle := h.finished_le
  rw [List.length_drop, length_numbered] at hlength
  have hcost : m.cost ≤ 9 := by
    unfold cost
    split
    · decide
    · decide
    · decide
    · decide
    · split
      · next phase _ => cases phase <;> decide
      · decide
    · decide
  refine h.finished_of_turns actions (Nat.le_refl _) ?_
  have hleft : m.turnsLeft log.length ≤ 7 * m.stream.outstanding.length + 2 := by
    rcases Nat.lt_or_ge m.stream.finished.size log.length with hlt | hge
    · rw [turnsLeft_of_lt hlt]
      omega
    · rw [turnsLeft_of_le hge]
      omega
  omega

/-! ## After a shutdown -/

theorem closed_work (m : Machine) (more? : Option Nat) :
    (m.work more?).stream.closed = m.stream.closed := by
  unfold work runKernel
  split
  · split
    · rfl
    · exact Stream.closed_step ..
  · split
    · rfl
    · split
      · rfl
      · exact Stream.closed_step ..
  · rfl
  · split <;> rfl
  · split
    · rfl
    · exact Stream.closed_step ..
    · exact Stream.closed_step ..
    · exact Stream.closed_step ..
  · rfl

theorem Follows.closed_step (h : m.Follows log) (hclosed : m.stream.closed = true) (a : Action) :
    (m.step a).stream.closed = true ∧ m.acceptedBy a = [] := by
  have hidle := h.unlocked hclosed
  cases a with
  | call work => simp [Machine.step, Machine.call, Machine.acceptedBy, hidle, hclosed]
  | proceed => simp [Machine.step, Machine.proceed, Machine.acceptedBy, hidle, hclosed]
  | shutdown => simp [Machine.step, Machine.shutdown, Stream.shutdown, Machine.acceptedBy, hidle]
  | worker more? => exact ⟨(closed_work m more?).trans hclosed, rfl⟩

theorem Follows.closed_run : ∀ (actions : List Action) {m : Machine} {log : List Work}, m.Follows log →
    m.stream.closed = true → (m.run actions).stream.closed = true ∧ m.acceptedIn actions = []
  | [], _, _, _, hclosed => ⟨hclosed, rfl⟩
  | a :: actions, m, log, h, hclosed => by
    obtain ⟨hstep, hnone⟩ := h.closed_step hclosed a
    obtain ⟨hrun, hrest⟩ := Follows.closed_run actions (h.step a) hstep
    exact ⟨hrun, by rw [acceptedIn, hnone, hrest]; rfl⟩

/-! ## The order of a run -/

theorem nodup_numbered (log : List Work) : (numbered log).Nodup := by
  refine List.Nodup.of_map (·.id) ?_
  rw [map_id_numbered]
  exact List.nodup_range

theorem startedIn_initial (actions : List Action) :
    initial.startedIn actions =
      (numbered (initial.acceptedIn actions)).take (initial.run actions).startedKernels :=
  Follows.startedIn actions initial_follows

theorem Follows.map_id_take (h : m.Follows log) :
    ((numbered log).take m.stream.finished.size).map (·.id) = m.stream.finished.toList := by
  rw [List.map_take, map_id_numbered, List.take_range, Nat.min_eq_left h.finished_le, h.finished]

theorem Follows.take_startedKernels (h : m.Follows log) :
    (numbered log).take m.startedKernels =
      (numbered log).take m.stream.finished.size ++ m.stream.inProgress := by
  unfold startedKernels
  cases hrunning : m.stream.running with
  | none => simp [Stream.inProgress, hrunning]
  | some r =>
    obtain ⟨task, phase⟩ := r
    have hhead : (numbered log)[m.stream.finished.size]? = some task := by
      rw [← List.head?_drop, h.running hrunning, List.head?_cons]
    cases phase <;> simp [Stream.inProgress, hrunning, List.take_add_one, hhead]

/-- Every kernel that was accepted is started once and finished, given enough turns. -/
theorem started_once_of_turns {actions more : List Action}
    (hturns : 7 * (initial.run actions).stream.outstanding.length + 2 + more.countP Action.isRetry ≤
      more.countP Action.isTurn) {task : Task} (htask : task ∈ numbered (initial.acceptedIn actions)) :
    (initial.startedIn (actions ++ more)).count task = 1 ∧
      task.id ∈ ((initial.run actions).run more).stream.finished := by
  have h := run_follows actions
  have hrun := h.run more
  have hdone := h.finished_all_of_turns hturns
  have hid : task.id < (initial.acceptedIn actions).length := by
    have hmem := List.mem_map_of_mem (f := (·.id)) htask
    rwa [map_id_numbered, List.mem_range] at hmem
  constructor
  · have hstarted := startedIn_initial (actions ++ more)
    rw [acceptedIn_append, run_append] at hstarted
    rw [hstarted]
    refine List.count_eq_one_of_mem ((nodup_numbered _).sublist (List.take_sublist ..)) ?_
    -- The kernels accepted by then are among the first that are finished, and those were started.
    have hsome : task ∈ (numbered (initial.acceptedIn actions ++ (initial.run actions).acceptedIn more)).take
        (initial.acceptedIn actions).length := by
      rw [take_numbered_append (Nat.le_refl _), List.take_of_length_le (Nat.le_of_eq (length_numbered _))]
      exact htask
    refine List.Sublist.mem hsome (List.take_sublist_take_left ?_)
    exact Nat.le_trans hdone (Nat.le_add_right ..)
  · rw [← Array.mem_toList_iff, hrun.finished, List.mem_range]
    exact Nat.lt_of_lt_of_le hid hdone

/--
**The stream is first come, first served**, whatever the order of the steps of its callers and its worker.

* What is finished, then what runs, then the worker's own queue, then the incoming kernels are the accepted
  launches, in their order.
* The kernels that were started are the finished ones and the one in progress: one at a time, in order, none
  of them twice.
* After enough turns of the worker each accepted kernel has been started once and is finished, whatever else
  happens meanwhile.
* After a shutdown every launch is refused and none is accepted.
* A worker that has gone left a closed stream with nothing queued and no launch under way.
-/
theorem run_in_order (actions : List Action) :
    let m := initial.run actions
    let accepted := numbered (initial.acceptedIn actions)
    (∃ done : List Task, done.map (·.id) = m.stream.finished.toList ∧
      done ++ m.stream.running.toList.map (·.1) ++ m.stream.batch ++ m.stream.incoming = accepted ∧
      initial.startedIn actions = done ++ m.stream.inProgress) ∧
    (initial.startedIn actions).Nodup ∧
    (∀ more : List Action,
      7 * m.stream.outstanding.length + 2 + more.countP Action.isRetry ≤ more.countP Action.isTurn →
        ∀ task ∈ accepted, (initial.startedIn (actions ++ more)).count task = 1 ∧
          task.id ∈ (m.run more).stream.finished) ∧
    (m.calling = .idle → ∀ (more : List Action) (work : Work),
      ((m.step .shutdown).run more).answer (.call work) = some (.error .streamClosed) ∧
        (m.step .shutdown).acceptedIn more = []) ∧
    (m.station = .gone → m.stream.closed = true ∧ m.stream.outstanding = [] ∧ m.calling = .idle) := by
  intro m accepted
  have h : m.Follows (initial.acceptedIn actions) := run_follows actions
  refine ⟨⟨accepted.take m.stream.finished.size, h.map_id_take, ?_, ?_⟩, ?_, ?_, ?_, ?_⟩
  · have hall : accepted.take m.stream.finished.size ++ m.stream.outstanding = accepted := by
      rw [h.outstanding]
      exact List.take_append_drop ..
    simpa only [Stream.outstanding, List.append_assoc] using hall
  · rw [startedIn_initial]
    exact h.take_startedKernels
  · rw [startedIn_initial]
    exact (nodup_numbered _).sublist (List.take_sublist ..)
  · exact fun more hturns task htask => started_once_of_turns hturns htask
  · intro hidle more work
    have hshut := h.step .shutdown
    have hclosed : (m.step .shutdown).stream.closed = true := by
      simp [step, shutdown, hidle, Stream.shutdown]
    obtain ⟨hrun, hnone⟩ := hshut.closed_run more hclosed
    have hidle' := (hshut.run more).unlocked hrun
    exact ⟨by simp [answer, hidle', hrun], hnone⟩
  · intro hgone
    have hfits := h.station
    rw [hgone] at hfits
    exact ⟨hfits.2, hfits.1, h.unlocked hfits.2⟩

end Machine

end AdaptiveLoops.Device
