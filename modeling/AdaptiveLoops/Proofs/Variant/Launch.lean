/-
Launches of a variant. `issue_ran` says what comes of a loop that is issued
under one. A loop whose tree is there counts as a launch, and where the
space has a dimension and the policy no empty block there always is one
(`Policy.Suits`). What is refused is never refused by a pool, which a variant
knows nothing of.
-/
import AdaptiveLoops.Proofs.Device.Steps
import AdaptiveLoops.Proofs.Statement.Build
import AdaptiveLoops.Variant

namespace AdaptiveLoops

open Device (Stream LaunchId Outcome)

@[simp] theorem Policy.blockSize?_synchronous (p : Policy) : p.synchronous.blockSize? = p.blockSize? := by
  cases p <;> rfl

/-- There is a tree for the policy and the space. -/
def Policy.Suits (policy : Policy) (space : IterationSpace) : Prop :=
  0 < space.rank ∧ ∀ block ∈ policy.blockSize?, block ≠ 0

theorem Policy.suits_synchronous {policy : Policy} {space : IterationSpace} :
    policy.synchronous.Suits space ↔ policy.Suits space := by
  rw [Suits, Suits, blockSize?_synchronous]

namespace LoopError

/-- Whether it is for a pool to say so. -/
def isOfPool : LoopError → Bool
  | .poolExhausted _ _ => true
  | .slotNotInFlight _ => true
  | .slotBusy _ => true
  | _ => false

theorem isPoolExhausted_of_isOfPool {e : LoopError} (h : e.isOfPool = false) : e.isPoolExhausted = false := by
  cases e <;> first | rfl | cases h

end LoopError

namespace Statement

theorem isOfPool_of_build {space : IterationSpace} {policy : Policy} {e : LoopError}
    (h : build space policy = .error e) : e.isOfPool = false := by
  obtain ⟨fault, rfl⟩ := eq_invalidStatementTree_of_build h
  rfl

section
variable {β : Type} {outcome : Outcome} {f : Duration → β}

theorem map_settled_eq_ok {x : β} : (settled outcome).map f = .ok x ↔ ∃ elapsed, outcome = .completed elapsed ∧ f elapsed = x := by
  cases outcome <;> simp [settled, Except.map]

theorem map_settled_eq_error {e : LoopError} :
    (settled outcome).map f = .error e ↔ ∃ message, outcome = .failed message ∧ .backendFailure .device message = e := by
  cases outcome <;> simp [settled, Except.map]

end

/-- What running a tree can come to on a stream. -/
structure Runs (stream : Stream) (e : Execution) : Prop where
  error : ∀ error, e.result = .error error → error.isOfPool = false
  pending : ∀ id, e.result = .ok (.pending id) → ∃ work, stream.launch work = .ok (id, e.stream)
  reaches : stream.Reaches e.stream

variable {stream : Stream} {policy : Policy} {work : Work}

theorem runs_refused {e : LoopError} (he : e.isOfPool = false) : Runs stream ⟨stream, none, .error e⟩ where
  error _ h := by
    cases h
    exact he
  pending _ h := by cases h
  reaches := .refl stream

theorem launchKernel_runs (stream : Stream) (mode : Mode) (work : Work) :
    Runs stream (launchKernel stream mode work) := by
  unfold launchKernel
  split
  · next e hlaunch =>
    obtain ⟨-, rfl⟩ := Device.Stream.launch_eq_error.1 hlaunch
    exact runs_refused rfl
  · next id after hlaunch =>
    have hreaches : stream.Reaches after := Device.Stream.reaches_launch hlaunch
    cases mode with
    | async =>
      refine ⟨fun _ h => ?_, fun _ h => ?_, hreaches⟩
      · cases h
      · cases h
        exact ⟨work, hlaunch⟩
    | sync =>
      refine ⟨fun error h => ?_, fun id h => ?_, hreaches.trans (Device.Stream.reaches_wait after id)⟩
      · obtain ⟨message, -, rfl⟩ := map_settled_eq_error.1 h
        rfl
      · obtain ⟨elapsed, -, h⟩ := map_settled_eq_ok.1 h
        cases h

theorem runHost_runs (stream : Stream) (policy : Policy) (work : Work) :
    Runs stream (runHost stream policy work) := by
  refine ⟨fun error h => ?_, fun id h => ?_, .refl stream⟩
  · simp only [runHost] at h
    split at h
    · cases h
      rfl
    · cases h
  · simp only [runHost] at h
    split at h <;> cases h

theorem execute_runs (tree : Statement) (stream : Stream) (policy : Policy) (space : IterationSpace)
    (body : Body) (now : Moment) : Runs stream (tree.execute stream policy space body now) := by
  unfold execute
  split
  · split
    · exact launchKernel_runs ..
    · exact runs_refused rfl
  · exact runHost_runs ..

end Statement

namespace Variant

/-- A launch of a variant: it keeps what it is, and has one more launch. -/
structure Launched (v v' : Variant) : Prop where
  policy : v'.policy = v.policy
  launches : v'.launches = v.launches + 1

/-- What issuing a loop under a variant can come to, where `suits` means that there is a tree for it. -/
structure Ran (v : Variant) (suits : Prop) (stream : Stream) (v' : Variant) (e : Execution) : Prop where
  launched : suits → v.Launched v'
  launched_of_ok : ∀ launch, e.result = .ok launch → v.Launched v'
  runs : Statement.Runs stream e

theorem tree_cases (v : Variant) (policy : Policy) (space : IterationSpace) :
    (∃ v' place tree, v.tree policy space = (v', .ok (place, tree)) ∧
      v'.policy = v.policy ∧ v'.launches = v.launches) ∨
    (∃ e, v.tree policy space = (v, .error e) ∧ e.isOfPool = false ∧ ¬ policy.Suits space) := by
  unfold tree
  split
  · exact .inl ⟨_, _, _, rfl, rfl, rfl⟩
  · split
    · next e hbuild =>
      refine .inr ⟨e, rfl, Statement.isOfPool_of_build hbuild, fun ⟨hrank, hblock⟩ => ?_⟩
      rw [Statement.build_eq_ok hrank hblock] at hbuild
      cases hbuild
    · exact .inl ⟨_, _, _, rfl, rfl, rfl⟩

/-- **An issued loop counts as a launch** where it has a tree, and then its tree is executed. -/
theorem issue_ran (v : Variant) (policy : Policy) (stream : Stream) (space : IterationSpace) (body : Body)
    (now : Moment) : v.Ran (policy.Suits space) stream (v.issue policy stream space body now).1
      (v.issue policy stream space body now).2 := by
  rcases v.tree_cases policy space with ⟨v', place, tree, htree, hpolicy, hlaunches⟩ | ⟨e, htree, he, hnone⟩
  · have hlaunched : v.Launched v'.recordLaunch := ⟨hpolicy, congrArg (· + 1) hlaunches⟩
    simp only [issue, htree]
    exact ⟨fun _ => hlaunched, fun _ _ => hlaunched, Statement.execute_runs ..⟩
  · simp only [issue, htree]
    exact ⟨fun hsuits => absurd hsuits hnone, fun _ h => (nomatch h), Statement.runs_refused he⟩

end Variant

end AdaptiveLoops
