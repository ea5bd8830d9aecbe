/-
What building a tree and dispatching it comes to.

Under every policy the body gets each tuple of the space once and nothing
else (`Work.Covers`), on the host always and on the device unless it has no
room to list its blocks. Then nothing at all reaches the body.
-/
import AdaptiveLoops.Dispatch
import AdaptiveLoops.Proofs.Walk.Scheduling

namespace AdaptiveLoops

open Device (Stream)

/-- The work passes each tuple of the space to the body once, and no other tuple. -/
structure Work.Covers (work : Work) (space : IterationSpace) : Prop where
  fault : work.fault = none
  perm : work.visits.toList.Perm space.tuples
  nodup : work.visits.toList.Nodup
  mem_iff : ∀ t, t ∈ work.visits ↔ space.Contains t
  size : work.visits.size = (space.segments.map (·.length)).prod

theorem Work.Covers.of_perm {work : Work} {space : IterationSpace} (hfault : work.fault = none)
    (hperm : work.visits.toList.Perm space.tuples) : work.Covers space where
  fault := hfault
  perm := hperm
  nodup := hperm.nodup_iff.2 space.nodup_tuples
  mem_iff t := by rw [← Array.mem_toList_iff, hperm.mem_iff, IterationSpace.mem_tuples]
  size := by rw [← Array.length_toList, hperm.length_eq, IterationSpace.length_tuples]

theorem Work.visits_ofProgress (p : Progress) (elapsed : Duration) : (ofProgress p elapsed).visits = p.visits := rfl

theorem Work.failure?_ofProgress {p : Progress} {fault : Fault} (h : p.fault = some fault) (elapsed : Duration) :
    (ofProgress p elapsed).failure? = some fault.message := by
  rw [failure?, ofProgress, h]
  rfl

/-- A loop that ended well, or that is queued, with work that covers the space. -/
structure Execution.Covers (e : Execution) (space : IterationSpace) (work : Work) : Prop where
  issued : e.work = some work
  covers : work.Covers space
  launched : ∃ launch, e.result = .ok launch ∧
    ∀ id, launch = .pending id → ⟨id, work⟩ ∈ e.stream.incoming

/-- A device has room to list the blocks of the first dimension; the host lists none. -/
def Policy.HasRoom (policy : Policy) (space : IterationSpace) : Prop :=
  ∀ block ∈ policy.blockSize?, ∀ s ∈ space.segments[0]?, s.chunkCount block ≤ Memory.capacity 16

namespace Statement

variable {policy : Policy} {space : IterationSpace} {body : Body}

theorem run_ofPolicy_yields (w : Walker) (hrank : 0 < space.rank) (haddr : space.Addressable)
    (hblock : ∀ block ∈ policy.blockSize?, block ≠ 0 ∧ (block.toNat : Int) ≤ Int64.maxValue.toInt)
    (hbody : ∀ x, w.body x = none) :
    Progress.Yields (w.onDevice = true → policy.HasRoom space) space.tuples
      (w.run [] (ofPolicy policy space.rank) (.ofSpace space)) := by
  have hvalid := validate_ofPolicy hrank fun block hb => (hblock block hb).1
  refine (w.run_ofSpace_yields hbody hvalid callsBound_ofPolicy haddr []).congr ?_ ?_
  · rw [fits_ofPolicy, Policy.HasRoom]
  · refine .of_eq (tuples_ofPolicy ?_ hrank fun block hb => (hblock block hb).2)
    simp [Frame.ofSpace, IterationSpace.rank]

/-! ## Work -/

theorem hostWork_covers (policy : Policy) (hrank : 0 < space.rank) (haddr : space.Addressable)
    (hhost : policy.blockSize? = none) (hbody : ∀ x, body x = none) (now : Moment) :
    ((ofPolicy policy space.rank).hostWork space body now).Covers space := by
  have hblock : ∀ block ∈ policy.blockSize?, block ≠ 0 ∧ (block.toNat : Int) ≤ Int64.maxValue.toInt := by
    simp [hhost]
  have hyields := run_ofPolicy_yields ⟨body, now.schedule, false⟩ hrank haddr hblock hbody
  obtain ⟨hfault, hperm⟩ := hyields.done (by simp)
  exact .of_perm hfault hperm

/-- The device runs what is inside a kernel as it would run the kernel. -/
theorem kernelWork_eq (policy : Policy) (stmts : List Statement) (now : Moment) :
    kernelWork stmts space body now =
      .ofProgress ((Walker.mk body now.schedule true).run [] (.kernel policy stmts) (.ofSpace space))
        now.elapsed := by
  rw [Walker.run]
  rfl

theorem kernelWork_covers {stmts : List Statement} (hrank : 0 < space.rank) (haddr : space.Addressable)
    (hblock : ∀ block ∈ policy.blockSize?, block ≠ 0 ∧ (block.toNat : Int) ≤ Int64.maxValue.toInt)
    (htree : ofPolicy policy space.rank = .kernel policy stmts) (hroom : policy.HasRoom space)
    (hbody : ∀ x, body x = none) (now : Moment) : (kernelWork stmts space body now).Covers space := by
  have hyields := run_ofPolicy_yields ⟨body, now.schedule, true⟩ hrank haddr hblock hbody
  obtain ⟨hfault, hperm⟩ := hyields.done fun _ => hroom
  rw [kernelWork_eq policy, ← htree]
  exact .of_perm hfault hperm

theorem kernelWork_noRoom {block : UInt64} {mode : Mode} {nest rest : List Statement}
    (hroom : ¬ Policy.HasRoom (.device block mode) space) (now : Moment) :
    let work := kernelWork (.segments 0 block nest :: rest) space body now
    work.visits = #[] ∧ work.failure? = some "capacity overflow" := by
  simp only [Policy.HasRoom, Policy.blockSize?, Option.mem_some_iff, forall_eq', not_forall,
    Nat.not_le] at hroom
  obtain ⟨s, hs, hmany⟩ := hroom
  rw [kernelWork_eq (.device block mode), Walker.run_noRoom rfl hs hmany]
  refine ⟨?_, rfl⟩
  rw [Work.visits_ofProgress, Progress.visits_stop]

/-! ## Execution -/

theorem result_runHost_failed {stream : Stream} {work : Work} {message : String} (h : work.failure? = some message) :
    (runHost stream policy work).result = .error (.backendFailure policy.backend message) := by
  simp only [runHost, h]

theorem result_runHost_complete {stream : Stream} {work : Work} (h : work.failure? = none) :
    (runHost stream policy work).result = .ok (.complete work.elapsed) := by
  simp only [runHost, h]

theorem runHost_covers {stream : Stream} {work : Work} (h : work.Covers space) :
    (runHost stream policy work).Covers space work where
  issued := rfl
  covers := h
  launched := by
    refine ⟨.complete work.elapsed, result_runHost_complete ?_, by simp⟩
    simp [Work.failure?, h.fault]

theorem launchKernel_covers {stream : Stream} {mode : Mode} {work : Work} (hopen : stream.closed = false)
    (h : work.Covers space) : (launchKernel stream mode work).Covers space work := by
  have hlaunch : ∃ id s, stream.launch work = .ok (id, s) ∧ ⟨id, work⟩ ∈ s.incoming := by
    simp [Stream.launch, hopen]
  obtain ⟨id, s, hlaunch, hqueued⟩ := hlaunch
  simp only [launchKernel, hlaunch]
  cases mode with
  | async =>
    refine ⟨rfl, h, .pending id, rfl, ?_⟩
    rintro _ ⟨⟩
    exact hqueued
  | sync =>
    refine ⟨rfl, h, .complete work.elapsed, ?_, by simp⟩
    simp [settled, Device.Outcome.ofWork, Work.failure?, h.fault, Except.map]

theorem launchKernel_closed {stream : Stream} (hclosed : stream.closed = true) (mode : Mode) (work : Work) :
    launchKernel stream mode work = ⟨stream, none, .error .streamClosed⟩ := by
  simp [launchKernel, Stream.launch, hclosed]

theorem work_launchKernel {stream : Stream} (hopen : stream.closed = false) (mode : Mode) (work : Work) :
    (launchKernel stream mode work).work = some work := by
  cases mode <;> simp [launchKernel, Stream.launch, hopen]

/--
**A loop passes every tuple of its space to the body exactly once**, under any
policy and however its parallel loops are split: done when a host policy or
a waited-for launch returns, and queued where the launch is not waited for.
A shut down stream refuses a device's launch, and a device without room for
its list of blocks passes nothing to the body.
-/
theorem execute_build (hrank : 0 < space.rank) (haddr : space.Addressable)
    (hblock : ∀ block ∈ policy.blockSize?, 1 ≤ block ∧ (block.toNat : Int) ≤ Int64.maxValue.toInt)
    (hbody : ∀ x, body x = none) (stream : Stream) (now : Moment) :
    ∃ tree, build space policy = .ok tree ∧
      let e := tree.execute stream policy space body now
      (policy.isDevice = true ∧ stream.closed = true → e.work = none ∧ e.result = .error .streamClosed) ∧
      (¬ (policy.isDevice = true ∧ stream.closed = true) →
        (policy.HasRoom space → ∃ work, e.Covers space work) ∧
        (¬ policy.HasRoom space → ∃ work, e.work = some work ∧ work.visits = #[] ∧
          work.failure? = some "capacity overflow")) := by
  have hblock : ∀ block ∈ policy.blockSize?, block ≠ 0 ∧ (block.toNat : Int) ≤ Int64.maxValue.toInt := by
    intro block hb
    refine ⟨?_, (hblock block hb).2⟩
    rintro rfl
    exact absurd (hblock 0 hb).1 (by decide)
  refine ⟨_, build_eq_ok hrank fun block hb => (hblock block hb).1, ?_⟩
  cases policy with
  | sequential =>
    have hcovers := hostWork_covers .sequential hrank haddr rfl hbody now
    refine ⟨by simp [Policy.isDevice], fun _ => ⟨fun _ => ⟨_, runHost_covers hcovers⟩, ?_⟩⟩
    simp [Policy.HasRoom, Policy.blockSize?]
  | threaded minChunk =>
    have hcovers := hostWork_covers (.threaded minChunk) hrank haddr rfl hbody now
    refine ⟨by simp [Policy.isDevice], fun _ => ⟨fun _ => ⟨_, runHost_covers hcovers⟩, ?_⟩⟩
    simp [Policy.HasRoom, Policy.blockSize?]
  | device block mode =>
    simp only [Policy.isDevice, true_and, ofPolicy, execute]
    refine ⟨fun hclosed => ?_, fun hopen => ⟨fun hroom => ?_, fun hroom => ?_⟩⟩
    · rw [launchKernel_closed hclosed]
      exact ⟨rfl, rfl⟩
    · exact ⟨_, launchKernel_covers (by simpa using hopen)
        (kernelWork_covers hrank haddr hblock rfl hroom hbody now)⟩
    · exact ⟨_, work_launchKernel (by simpa using hopen) mode _, kernelWork_noRoom hroom now⟩

/-- Fifteen tuples in three queued blocks, the last one shorter. -/
theorem execute_build_blocks : ∃ tree work,
    build ⟨[⟨-1, 4⟩, ⟨0, 3⟩]⟩ (.device 2 .async) = .ok tree ∧
    (tree.execute .empty (.device 2 .async) ⟨[⟨-1, 4⟩, ⟨0, 3⟩]⟩ (fun _ => none)
      ⟨.halving 4, ⟨0⟩⟩).Covers ⟨[⟨-1, 4⟩, ⟨0, 3⟩]⟩ work ∧
    work.visits.size = 15 := by
  obtain ⟨tree, htree, -, hopen⟩ := @execute_build (.device 2 .async) ⟨[⟨-1, 4⟩, ⟨0, 3⟩]⟩ (fun _ => none)
    (by decide) (by simp [IterationSpace.Addressable, Segment.Addressable]; decide)
    (by rintro _ ⟨⟩; decide) (fun _ => rfl) .empty ⟨.halving 4, ⟨0⟩⟩
  obtain ⟨work, hwork⟩ := (hopen (by decide)).1 (by simp [Policy.HasRoom, Policy.blockSize?]; decide)
  exact ⟨tree, work, htree, hwork, hwork.covers.size⟩

/-- A device that takes single indices of a long dimension does not cover the space. -/
theorem device_execute_without_room :
    0 < IterationSpace.longest.rank ∧ IterationSpace.longest.Addressable ∧
    (∀ block ∈ (Policy.device 1 .sync).blockSize?, 1 ≤ block ∧ (block.toNat : Int) ≤ Int64.maxValue.toInt) ∧
    ∃ tree, build .longest (.device 1 .sync) = .ok tree ∧
      ¬ ∃ work, (tree.execute .empty (.device 1 .sync) .longest (fun _ => none)
        ⟨.serial, ⟨0⟩⟩).Covers .longest work := by
  have hblock : ∀ block ∈ (Policy.device 1 .sync).blockSize?, block ≠ 0 := by
    rintro _ ⟨⟩
    decide
  refine ⟨by decide, IterationSpace.longest_addressable, by rintro _ ⟨⟩; decide, _,
    build_eq_ok (by decide) hblock, ?_⟩
  rintro ⟨work, hcovers⟩
  have hroom : ¬ Policy.HasRoom (.device 1 .sync) .longest := by
    simp only [Policy.HasRoom, Policy.blockSize?, Option.mem_some_iff, forall_eq']
    decide
  have hissued := hcovers.issued
  have hopen : Stream.empty.closed = false := rfl
  simp only [ofPolicy, execute, work_launchKernel hopen, Option.some.injEq] at hissued
  have hempty : work.visits = #[] := by
    rw [← hissued]
    exact (kernelWork_noRoom hroom _).1
  have hzero : [0] ∈ work.visits :=
    (hcovers.covers.mem_iff _).2 (IterationSpace.mem_tuples.1 IterationSpace.zero_mem_tuples_longest)
  simp [hempty] at hzero

end Statement

end AdaptiveLoops
