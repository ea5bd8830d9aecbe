/-
Failures of a loop whose tree is valid.

The walk of such a tree makes no access that a check would stop, and the one
thing that can stop it besides a panic of the body is a device without room
for a list of pieces. What the caller learns, from the call or from the
handle of a launch that is not waited for, is how that walk ended
(`Execution.Tells`), and the stream goes on whatever a kernel comes to.

The body may do otherwise at each call, also on a tuple that it had before.
-/
import AdaptiveLoops.Proofs.Variant.Fallback
import AdaptiveLoops.Proofs.Walk.Calls
import AdaptiveLoops.Proofs.Walk.Checked
import AdaptiveLoops.Proofs.Walk.Faults

namespace AdaptiveLoops

open Device (Stream LaunchId Outcome)

/-! ## What a caller learns -/

namespace Execution

/-- The loop is complete, or its launch is once it is waited for, and neither failed. -/
def EndsWell (e : Execution) : Prop :=
  (∃ elapsed, e.result = .ok (.complete elapsed)) ∨
  ∃ id elapsed, e.result = .ok (.pending id) ∧
    ∀ later, e.stream.Reaches later → (later.wait id).outcome? id = some (.completed elapsed)

/-- The loop failed with a message, or its launch has failed once it is waited for. -/
def FailsWith (e : Execution) (backend : Backend) (message : String) : Prop :=
  e.result = .error (.backendFailure backend message) ∨
  ∃ id, e.result = .ok (.pending id) ∧ backend = .device ∧
    ∀ later, e.stream.Reaches later → (later.wait id).outcome? id = some (.failed message)

/-- A caller learns how the work ended. -/
structure Tells (e : Execution) (backend : Backend) (work : Work) : Prop where
  issued : e.work = some work
  endsWell_iff : e.EndsWell ↔ work.failure? = none
  failsWith : ∀ message, work.failure? = some message → e.FailsWith backend message

theorem tells_of_pending {e : Execution} {id : LaunchId} {work : Work} (hissued : e.work = some work)
    (hresult : e.result = .ok (.pending id))
    (houtcome : ∀ later, e.stream.Reaches later → (later.wait id).outcome? id = some (.ofWork work)) :
    e.Tells .device work where
  issued := hissued
  endsWell_iff := by
    constructor
    · rintro (⟨elapsed, h⟩ | ⟨id', elapsed, h, hlater⟩)
      · rw [hresult] at h
        cases h
      · rw [hresult] at h
        cases h
        have hwork := (houtcome _ (.refl _)).symm.trans (hlater _ (.refl _))
        exact Outcome.ofWork_eq_completed.1 ⟨elapsed, Option.some.inj hwork⟩
    · intro hnone
      obtain ⟨elapsed, hwork⟩ := Outcome.ofWork_eq_completed.2 hnone
      exact .inr ⟨id, elapsed, hresult, fun later hlater => hwork ▸ houtcome later hlater⟩
  failsWith message hfailed :=
    .inr ⟨id, hresult, rfl, fun later hlater => Outcome.ofWork_eq_failed.2 hfailed ▸ houtcome later hlater⟩

theorem tells_of_result {e : Execution} {backend : Backend} {work : Work} (hissued : e.work = some work)
    (hcomplete : work.failure? = none → e.result = .ok (.complete work.elapsed))
    (hfailed : ∀ message, work.failure? = some message → e.result = .error (.backendFailure backend message)) :
    e.Tells backend work where
  issued := hissued
  endsWell_iff := by
    refine ⟨fun hends => ?_, fun hnone => .inl ⟨_, hcomplete hnone⟩⟩
    by_contra hsome
    obtain ⟨message, hmessage⟩ := Option.ne_none_iff_exists'.1 hsome
    rcases hends with ⟨elapsed, h⟩ | ⟨id, elapsed, h, -⟩ <;> rw [hfailed message hmessage] at h <;> cases h
  failsWith message h := .inl (hfailed message h)

end Execution

namespace Statement

theorem runHost_tells (stream : Stream) (policy : Policy) (work : Work) :
    (runHost stream policy work).Tells policy.backend work :=
  Execution.tells_of_result rfl result_runHost_complete fun _ => result_runHost_failed

theorem launchKernel_tells {stream : Stream} (hstream : Stream.empty.Reaches stream) (hopen : stream.closed = false)
    (mode : Mode) (work : Work) : (launchKernel stream mode work).Tells .device work := by
  obtain ⟨log, haccepted⟩ := Device.Stream.empty_accepted.reaches hstream
  obtain ⟨id, queued, hlaunch⟩ := Device.Stream.exists_launch hopen work
  simp only [launchKernel, hlaunch]
  cases mode with
  | async => exact Execution.tells_of_pending rfl rfl fun later => haccepted.outcome?_wait_of_reaches hlaunch
  | sync =>
    refine Execution.tells_of_result rfl (fun hnone => ?_) fun message hfailed => ?_
    · rw [settled_eq_complete, Outcome.ofWork, hnone]
    · rw [settled_eq_backendFailure, Outcome.ofWork_eq_failed, hfailed]

theorem closed_launchKernel (stream : Stream) (mode : Mode) (work : Work) :
    (launchKernel stream mode work).stream.closed = stream.closed := by
  unfold launchKernel
  split
  · rfl
  · next id after hlaunch =>
    have hafter : after.closed = stream.closed := by
      unfold Stream.launch at hlaunch
      split at hlaunch
      · cases hlaunch
      · cases hlaunch
        rfl
    cases mode with
    | async => exact hafter
    | sync => exact (Device.Stream.closed_advanceUntil _ _).trans hafter

end Statement

/-! ## Failures -/

/--
A loop that fails for its body, or for want of room, and for nothing else. No
two of its calls are made at one path. The stream it leaves behind accepts
what it accepted before, and finishes it.
-/
structure Execution.FailsByBody (e : Execution) (stream : Stream) (policy : Policy) (body : Body) (room : Prop)
    (work : Work) : Prop where
  issued : e.work = some work
  apart : (work.calls.toList.map (·.path)).Nodup
  endsWell_iff : e.EndsWell ↔ room ∧ ∀ c ∈ work.calls, body c = none
  failsWith : ¬ e.EndsWell → ∃ message, e.FailsWith policy.backend message ∧
    ((¬ room ∧ message = "capacity overflow") ∨
      ∃ c ∈ work.calls, ∃ payload, body c = some payload ∧ message = payload.message)
  fault : ∀ fault, work.fault = some fault →
    (¬ room ∧ fault = .noRoom) ∨ ∃ c ∈ work.calls, ∃ payload, body c = some payload ∧ fault = .panic payload
  closed : e.stream.closed = stream.closed
  finishes : ∀ later, e.stream.Reaches later → ∀ next id queued, later.launch next = .ok (id, queued) →
    (queued.wait id).outcome? id = some (.ofWork next)

theorem Execution.Tells.failsByBody {e : Execution} {stream : Stream} {policy : Policy} {body : Body} {room : Prop}
    {p : Progress} {elapsed : Duration} (h : e.Tells policy.backend (.ofProgress p elapsed))
    (hbody : p.FaultsByBody body room) (hapart : (p.calls.toList.map (·.path)).Nodup)
    (hstream : Stream.empty.Reaches stream) (hreaches : stream.Reaches e.stream)
    (hclosed : e.stream.closed = stream.closed) :
    e.FailsByBody stream policy body room (.ofProgress p elapsed) where
  issued := h.issued
  apart := hapart
  endsWell_iff := by
    rw [h.endsWell_iff, Work.failure?, Option.map_eq_none_iff]
    exact hbody.fault_eq_none_iff
  failsWith hends := by
    rw [h.endsWell_iff] at hends
    obtain ⟨message, hmessage⟩ := Option.ne_none_iff_exists'.1 hends
    refine ⟨message, h.failsWith message hmessage, ?_⟩
    obtain ⟨fault, hfault, rfl⟩ := Option.map_eq_some_iff.1 hmessage
    rcases hbody.fault fault hfault with ⟨hno, rfl⟩ | ⟨c, hc, payload, hpanic, rfl⟩
    · exact .inl ⟨hno, rfl⟩
    · exact .inr ⟨c, hc, payload, hpanic, rfl⟩
  fault := hbody.fault
  closed := hclosed
  finishes later hlater next id queued hlaunch := by
    obtain ⟨log, haccepted⟩ := Device.Stream.empty_accepted.reaches ((hstream.trans hreaches).trans hlater)
    exact haccepted.outcome?_wait hlaunch

namespace Statement

open Walker

/--
**Only its body can make a valid tree fail**, where a device has room for the
lists of its pieces. No check would stop its walk anywhere. It ends well
exactly where no call of the body panicked, and otherwise it fails with the
message of one that did. No room is a failure of its own.
-/
theorem execute_failsByBody {t : Statement} {space : IterationSpace} (hvalid : t.validate space.rank = .ok ())
    (haddr : space.Addressable) {policy : Policy} {stream : Stream} (hstream : Stream.empty.Reaches stream)
    (hdevice : policy.isDevice = true → (∃ label stmts, t = .kernel label stmts) ∧ stream.closed = false)
    (body : Body) (now : Moment) :
    let w : Walker := ⟨body, now.schedule, policy.isDevice⟩
    w.checkedRun [] t (.ofSpace space) = w.run [] t (.ofSpace space) ∧
    (t.execute stream policy space body now).FailsByBody stream policy body
      (policy.isDevice = true → t.Fits space.segments)
      (.ofProgress (w.run [] t (.ofSpace space)) now.elapsed) := by
  intro w
  have hbody := w.run_faultsByBody hvalid haddr []
  have hapart := (w.run_apart t [] (.ofSpace space)).nodup
  refine ⟨w.checkedRun_eq t [] (validate_eq_ok.1 hvalid) (.ofSpace space), ?_⟩
  cases policy with
  | sequential =>
    exact (runHost_tells stream .sequential _).failsByBody hbody hapart hstream (.refl _) rfl
  | threaded minChunk =>
    exact (runHost_tells stream (.threaded minChunk) _).failsByBody hbody hapart hstream (.refl _) rfl
  | device block mode =>
    obtain ⟨⟨label, stmts, rfl⟩, hopen⟩ := hdevice rfl
    have htells := launchKernel_tells hstream hopen mode (kernelWork stmts space body now)
    rw [kernelWork_eq label] at htells
    have hreaches := (launchKernel_runs stream mode (kernelWork stmts space body now)).reaches
    have hclosed := closed_launchKernel stream mode (kernelWork stmts space body now)
    rw [kernelWork_eq label] at hreaches hclosed
    rw [execute, kernelWork_eq label]
    exact htells.failsByBody hbody hapart hstream hreaches hclosed

/-- A queued kernel that calls its body twice on each of five tuples, and panics at the second call on one. -/
theorem execute_failsByBody_second_call :
    let t : Statement := .kernel .sequential [.segments 0 2 [.loop 0 (.threaded 1) [.call, .call]]]
    let body : Body := fun c => if c.path.head? = some 1 ∧ c.index = [2] then some (.literal "boom") else none
    let e := t.execute .empty (.device 2 .async) ⟨[⟨-1, 4⟩]⟩ body ⟨.halving 4, ⟨0⟩⟩
    ¬ e.EndsWell ∧ e.FailsWith .device "boom" ∧
      ∃ work, e.work = some work ∧ ∃ c ∈ work.calls, c.index = [2] ∧ body c = none := by
  intro t body e
  have hfits : t.Fits [⟨-1, 4⟩] := by
    simp [t, Fits, FitsAll]
    decide
  have haddr : (IterationSpace.mk [⟨-1, 4⟩]).Addressable := by
    simp [IterationSpace.Addressable, Segment.Addressable]
    decide
  obtain ⟨-, h⟩ := @execute_failsByBody t ⟨[⟨-1, 4⟩]⟩ rfl haddr (.device 2 .async) .empty (.refl _)
    (fun _ => ⟨⟨_, _, rfl⟩, rfl⟩) body ⟨.halving 4, ⟨0⟩⟩
  have hends : ¬ e.EndsWell := fun hends => by
    have hquiet := (h.endsWell_iff.1 hends).2 ⟨[1, 1, 0, 1, 0], [2]⟩ (Array.mem_toList_iff.1 (by decide +kernel))
    cases hquiet
  refine ⟨hends, ?_, _, h.issued, ⟨[0, 1, 0, 1, 0], [2]⟩, Array.mem_toList_iff.1 (by decide +kernel), rfl, rfl⟩
  obtain ⟨message, hfails, ⟨hno, -⟩ | ⟨c, -, payload, hpanic, rfl⟩⟩ := h.failsWith hends
  · exact absurd (fun _ => hfits) hno
  · simp only [body] at hpanic
    split at hpanic
    · cases hpanic
      exact hfails
    · cases hpanic

/-- A device without room for its pieces fails, though nothing in its kernel calls the body. -/
theorem quiet_kernel_without_room :
    let t : Statement := .kernel .sequential [.segments 0 1 [.barrier]]
    let e := t.execute .empty (.device 1 .sync) .longest (fun _ => none) ⟨.serial, ⟨0⟩⟩
    t.validate IterationSpace.longest.rank = .ok () ∧ IterationSpace.longest.Addressable ∧
      e.result = .error (.backendFailure .device "capacity overflow") ∧ e.work.map (·.visits) = some #[] := by
  intro t e
  refine ⟨rfl, IterationSpace.longest_addressable, ?_⟩
  simp only [e, t]
  rw [execute, kernelWork_eq .sequential, run_noRoom rfl rfl (by decide)]
  exact ⟨rfl, by decide +kernel⟩

end Statement

end AdaptiveLoops
