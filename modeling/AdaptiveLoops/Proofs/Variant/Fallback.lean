/-
The synchronous fallback does the work of the launch it stands in for.

A policy and its synchronous form build trees that differ in their labels
alone, so both kernels attempt the same tuples (`kernelWork_attempts`), and
whether one of them fails depends on the room for its blocks and on the
tuples whose body panics, not on how its blocks are scheduled. The two
launches then end alike (`launches_agree`).
-/
import AdaptiveLoops.Proofs.Device.Completion
import AdaptiveLoops.Proofs.Device.Waiting
import AdaptiveLoops.Proofs.Dispatch.Coverage
import AdaptiveLoops.Proofs.Variant.Trees
import AdaptiveLoops.Proofs.Walk.Panics

namespace AdaptiveLoops

open Device (Stream LaunchId Outcome)

/-! ## Outcomes -/

theorem Device.Outcome.ofWork_eq_completed {work : Work} :
    (∃ elapsed, Outcome.ofWork work = .completed elapsed) ↔ work.failure? = none := by
  unfold Outcome.ofWork
  cases work.failure? <;> simp

theorem Device.Outcome.exists_ofWork_eq_failed {work : Work} :
    (∃ message, Outcome.ofWork work = .failed message) ↔ ¬ work.failure? = none := by
  simp only [Outcome.ofWork_eq_failed, Option.ne_none_iff_exists', ← ne_eq]

namespace Statement

theorem settled_eq_complete {outcome : Outcome} {elapsed : Duration} :
    (settled outcome).map Launch.complete = .ok (.complete elapsed) ↔ outcome = .completed elapsed := by
  simp [map_settled_eq_ok]

theorem settled_eq_backendFailure {outcome : Outcome} {message : String} :
    (settled outcome).map Launch.complete = .error (.backendFailure .device message) ↔
      outcome = .failed message := by
  simp [map_settled_eq_error]

end Statement

/-! ## Kernels whose body may panic -/

namespace Work

/-- What a failed kernel says: its body panicked, or it had no room for its blocks and did not begin. -/
inductive FailsWith (work : Work) (body : LoopBody) (room : Prop) : String → Prop where
  | panicked {x : Tuple} {payload : Payload} (hroom : room) (hx : x ∈ work.visits)
      (hpanic : body x = some payload) : FailsWith work body room payload.message
  | noRoom (hroom : ¬ room) (hnothing : work.visits = #[]) : FailsWith work body room "capacity overflow"

/-- What a kernel comes to that passes `ts` to the body where there is room for its blocks. -/
structure Attempts (work : Work) (body : LoopBody) (room : Prop) (ts : List Tuple) : Prop where
  perm : work.failure? = none → work.visits.toList.Perm ts
  failure?_eq_none_iff : work.failure? = none ↔ room ∧ ∀ x ∈ ts, body x = none
  fails : ∀ message, work.failure? = some message → work.FailsWith body room message

variable {work work' : Work} {body : LoopBody} {room : Prop} {ts : List Tuple}

theorem Attempts.of_room {p : Progress} (h : p.Attempts body True ts) (hroom : room) (elapsed : Duration) :
    (ofProgress p elapsed).Attempts body room ts where
  perm hf := h.perm (Option.map_eq_none_iff.1 hf)
  failure?_eq_none_iff := by
    simp only [failure?, ofProgress, Option.map_eq_none_iff, h.fault_eq_none_iff, hroom]
  fails message hf := by
    obtain ⟨fault, hfault, rfl⟩ := Option.map_eq_some_iff.1 hf
    rcases h.fault fault hfault with ⟨hno, -⟩ | ⟨x, hx, hpanic⟩
    · exact absurd trivial hno
    · obtain ⟨payload, hpayload, rfl⟩ := Option.map_eq_some_iff.1 hpanic
      exact .panicked hroom hx hpayload

theorem Attempts.of_noRoom (hroom : ¬ room) (hnothing : work.visits = #[])
    (hfailure : work.failure? = some "capacity overflow") : work.Attempts body room ts where
  perm hf := by
    rw [hfailure] at hf
    cases hf
  failure?_eq_none_iff := by simp [hfailure, hroom]
  fails message hf := by
    rw [hfailure] at hf
    cases hf
    exact .noRoom hroom hnothing

/-- **Kernels that attempt the same tuples fail alike.** -/
theorem Attempts.failure?_iff (h : work.Attempts body room ts) (h' : work'.Attempts body room ts) :
    work.failure? = none ↔ work'.failure? = none :=
  h.failure?_eq_none_iff.trans h'.failure?_eq_none_iff.symm

end Work

theorem Policy.isDevice_synchronous {policy : Policy} : policy.synchronous.isDevice = policy.isDevice := by
  cases policy <;> rfl

theorem Policy.hasRoom_synchronous {policy : Policy} {space : IterationSpace} :
    policy.synchronous.HasRoom space ↔ policy.HasRoom space := by
  rw [HasRoom, HasRoom, blockSize?_synchronous]

namespace Statement

variable {policy : Policy} {space : IterationSpace}

/-- The tuples that a launch under the policy passes to the body if nothing stops it. -/
def attempted (policy : Policy) (space : IterationSpace) : List Tuple :=
  (ofPolicy policy space.rank).tuples space.segments (Frame.ofSpace space).index

theorem attempted_synchronous : attempted policy.synchronous space = attempted policy space := by
  rw [attempted, ← tuples_unlabelled, unlabelled_ofPolicy_synchronous, tuples_unlabelled, attempted]

theorem validate_synchronous (policy : Policy) (space : IterationSpace) :
    (ofPolicy policy.synchronous space.rank).validate space.rank =
      (ofPolicy policy space.rank).validate space.rank := by
  rw [← validate_unlabelled, unlabelled_ofPolicy_synchronous, validate_unlabelled]

/-- **The kernel of a valid tree attempts the tuples of the tree**, on spaces of any size. -/
theorem kernelWork_attempts (hdevice : policy.isDevice = true)
    (hvalid : (ofPolicy policy space.rank).validate space.rank = .ok ()) (body : LoopBody) (now : Moment) :
    (kernelWork (ofPolicy policy space.rank).children space body now).Attempts body (policy.HasRoom space)
      (attempted policy space) := by
  cases policy with
  | sequential => cases hdevice
  | threaded minChunk => cases hdevice
  | device block mode =>
    by_cases hroom : Policy.HasRoom (.device block mode) space
    · have hwalk := (Walker.mk body now.schedule true).run_ofSpace_attempts body rfl hvalid callsBound_ofPolicy
        (fun hthreads => absurd hthreads (not_threaded_ofPolicy rfl)) []
      have hfits : (true = true → (ofPolicy (.device block mode) space.rank).Fits space.segments) = True :=
        eq_true fun _ => fits_ofPolicy.2 hroom
      rw [hfits] at hwalk
      rw [kernelWork_eq (.device block mode)]
      exact .of_room hwalk hroom now.elapsed
    · exact .of_noRoom hroom (kernelWork_noRoom hroom now).1 (kernelWork_noRoom hroom now).2

theorem kernelWork_synchronous_attempts (hdevice : policy.isDevice = true)
    (hvalid : (ofPolicy policy space.rank).validate space.rank = .ok ()) (body : LoopBody) (now : Moment) :
    (kernelWork (ofPolicy policy.synchronous space.rank).children space body now).Attempts body
      (policy.HasRoom space) (attempted policy space) := by
  rw [← Policy.hasRoom_synchronous, ← attempted_synchronous]
  exact kernelWork_attempts (Policy.isDevice_synchronous.trans hdevice) ((validate_synchronous policy space).trans hvalid) body now

end Statement

/-! ## Launches -/

namespace Statement

theorem dispatch_device {block : UInt64} {mode : Mode} (stream : Stream) (space : IterationSpace)
    (body : Body) (now : Moment) :
    dispatch stream (.device block mode) space body now =
      match (ofPolicy (.device block mode) space.rank).validate space.rank with
      | .error e => ⟨stream, none, .error e⟩
      | .ok () =>
        launchKernel stream mode
          (kernelWork (ofPolicy (.device block mode) space.rank).children space body now) := by
  unfold dispatch build
  cases (ofPolicy (.device block mode) space.rank).validate space.rank <;> rfl

end Statement

namespace Variant

/-- A launch that is waited for some time after it was made, and a synchronous one, that did the same work. -/
structure SameWork (policy : Policy) (space : IterationSpace) (body : LoopBody) (pending waited : Execution)
    (id : LaunchId) (outcome : Outcome) (work work' : Work) : Prop where
  queued : pending.result = .ok (.pending id)
  ends : ∀ later, pending.stream.Reaches later → (later.wait id).outcome? id = some outcome
  issued : pending.work = some work
  issued' : waited.work = some work'
  completed : (∃ elapsed, outcome = .completed elapsed) ↔ ∃ elapsed, waited.result = .ok (.complete elapsed)
  perm : (∃ elapsed, outcome = .completed elapsed) → work.visits.toList.Perm work'.visits.toList
  failed : (∃ message, outcome = .failed message) ↔
    ∃ message, waited.result = .error (.backendFailure .device message)
  message : ∀ message, outcome = .failed message → work.FailsWith body (policy.HasRoom space) message
  message' : ∀ message, waited.result = .error (.backendFailure .device message) →
    work'.FailsWith body (policy.HasRoom space) message

/-- Two kernels that attempt the same tuples do the same work, one queued and one waited for. -/
theorem sameWork_of_attempts {policy : Policy} {space : IterationSpace} {body : LoopBody} {ts : List Tuple}
    {work work' : Work} (h : work.Attempts body (policy.HasRoom space) ts)
    (h' : work'.Attempts body (policy.HasRoom space) ts) {stream stream' : Stream}
    (hstream : Stream.empty.Reaches stream) (hopen : stream.closed = false) (hopen' : stream'.closed = false) :
    ∃ id, SameWork policy space body (Statement.launchKernel stream .async work)
      (Statement.launchKernel stream' .sync work') id (.ofWork work) work work' := by
  obtain ⟨log, haccepted⟩ := Device.Stream.empty_accepted.reaches hstream
  obtain ⟨id, queued, hlaunch⟩ := Device.Stream.exists_launch hopen work
  obtain ⟨id', queued', hlaunch'⟩ := Device.Stream.exists_launch hopen' work'
  simp only [Statement.launchKernel, hlaunch, hlaunch']
  refine ⟨id, rfl, fun later hlater => haccepted.outcome?_wait_of_reaches hlaunch hlater, rfl, rfl, ?_, ?_, ?_,
    fun message hf => h.fails message (Outcome.ofWork_eq_failed.1 hf), fun message hf => ?_⟩
  · simp only [Statement.settled_eq_complete, Outcome.ofWork_eq_completed]
    exact h.failure?_iff h'
  · rw [Outcome.ofWork_eq_completed]
    exact fun hf => (h.perm hf).trans (h'.perm ((h.failure?_iff h').1 hf)).symm
  · simp only [Statement.settled_eq_backendFailure, Outcome.exists_ofWork_eq_failed]
    exact not_congr (h.failure?_iff h')
  · exact h'.fails message (Outcome.ofWork_eq_failed.1 (Statement.settled_eq_backendFailure.1 hf))

/--
**The synchronous fallback does the work of the launch**: both are refused for
the same tree, with nothing run, or both run, and then they end alike.
-/
theorem launches_agree {policy : Policy} (hasync : policy.isAsync = true) {v v' : Variant}
    (hv : v.Reachable policy) (hv' : v'.Reachable policy) {stream stream' : Stream}
    (hstream : Stream.empty.Reaches stream) (hopen : stream.closed = false) (hopen' : stream'.closed = false)
    (space : IterationSpace) (body : LoopBody) (now now' : Moment) :
    let pending := (v.launch stream space body now).2
    let waited := (v'.launchSynchronously stream' space body now').2
    (∃ fault, pending = ⟨stream, none, .error (.invalidStatementTree fault)⟩ ∧
      waited = ⟨stream', none, .error (.invalidStatementTree fault)⟩) ∨
    ∃ id outcome work work', SameWork policy space body pending waited id outcome work work' := by
  obtain ⟨hprepared, hpolicy⟩ := hv.prepared
  obtain ⟨hprepared', hpolicy'⟩ := hv'.prepared
  simp only [launch, launchSynchronously, hprepared.issue_eq, hprepared'.issue_eq, hpolicy, hpolicy']
  obtain ⟨block, rfl⟩ : ∃ block, policy = .device block .async := by
    rcases policy with _ | _ | ⟨block, _ | _⟩
    · cases hasync
    · cases hasync
    · cases hasync
    · exact ⟨block, rfl⟩
  have hsame : (Statement.ofPolicy (.device block .sync) space.rank).validate space.rank =
      (Statement.ofPolicy (.device block .async) space.rank).validate space.rank :=
    Statement.validate_synchronous (.device block .async) space
  simp only [Policy.synchronous, Statement.dispatch_device, hsame]
  cases hvalid : (Statement.ofPolicy (.device block .async) space.rank).validate space.rank with
  | error e =>
    obtain ⟨fault, rfl⟩ := Statement.eq_invalidStatementTree_of_validate hvalid
    exact .inl ⟨fault, rfl, rfl⟩
  | ok _ =>
    obtain ⟨id, hsameWork⟩ := sameWork_of_attempts (Statement.kernelWork_attempts rfl hvalid body now)
      (Statement.kernelWork_synchronous_attempts rfl hvalid body now') hstream hopen hopen'
    exact .inr ⟨id, _, _, _, hsameWork⟩

/-- A body that panics at one of eight tuples, launched in two blocks of four. -/
theorem launches_agree_panicking :
    let v : Variant := ⟨.named "saxpy", 0, .device 4 .async, [], 0⟩
    let body : LoopBody := fun x => if x = [2] then some (.literal "boom") else none
    ∃ id outcome work work', SameWork (.device 4 .async) ⟨[⟨0, 8⟩]⟩ body
      (v.launch .empty ⟨[⟨0, 8⟩]⟩ body ⟨.halving 2, ⟨0⟩⟩).2
      (v.launchSynchronously .empty ⟨[⟨0, 8⟩]⟩ body ⟨.serial, ⟨0⟩⟩).2 id outcome work work' := by
  intro v body
  have hv : v.Reachable (.device 4 .async) := @Reachable.instantiated _ (.named "saxpy") 0 .empty v rfl
  refine (launches_agree rfl hv hv (.refl _) rfl rfl _ _ _ _).resolve_left ?_
  rintro ⟨fault, hpending, -⟩
  have hrefused := congrArg Execution.result hpending
  cases hrefused

/-- A device that takes single indices of a long dimension fails, though no tuple makes the body panic. -/
theorem pending_launch_without_room :
    let v : Variant := ⟨.named "saxpy", 0, .device 1 .async, [], 0⟩
    let body : LoopBody := fun _ => none
    let pending := (v.launch .empty .longest body ⟨.serial, ⟨0⟩⟩).2
    v.policy.isAsync = true ∧ v.Reachable v.policy ∧ Stream.empty.closed = false ∧
      ∃ id message work, pending.result = .ok (.pending id) ∧ pending.work = some work ∧
        (pending.stream.wait id).outcome? id = some (.failed message) ∧
        ¬ ∃ x ∈ work.visits, ∃ payload, body x = some payload ∧ message = payload.message := by
  intro v body pending
  have hv : v.Reachable (.device 1 .async) := @Reachable.instantiated _ (.named "saxpy") 0 .empty v rfl
  have hvalid : (Statement.ofPolicy (.device 1 .async) IterationSpace.longest.rank).validate
      IterationSpace.longest.rank = .ok () := Statement.validate_ofPolicy (by decide) (by rintro _ ⟨⟩; decide)
  have hroom : ¬ Policy.HasRoom (.device 1 .async) .longest := by
    simp only [Policy.HasRoom, Policy.blockSize?, Option.mem_some_iff, forall_eq']
    decide
  let work := Statement.kernelWork (Statement.ofPolicy (.device 1 .async) 1).children .longest body ⟨.serial, ⟨0⟩⟩
  have hfailure : work.failure? = some "capacity overflow" :=
    (Statement.kernelWork_noRoom hroom ⟨.serial, ⟨0⟩⟩).2
  have hpending : pending = Statement.launchKernel .empty .async work := by
    show (v.issue (.device 1 .async) .empty .longest body ⟨.serial, ⟨0⟩⟩).2 = _
    rw [hv.prepared.1.issue_eq, Statement.dispatch_device, hvalid]
    rfl
  refine ⟨rfl, hv, rfl, 0, "capacity overflow", work, ?_, ?_, ?_, by simp [body]⟩
  · rw [hpending]
    rfl
  · rw [hpending]
    rfl
  · rw [hpending, ← Outcome.ofWork_eq_failed.2 hfailure]
    exact Device.Stream.empty_accepted.outcome?_wait rfl

end Variant

end AdaptiveLoops
