/-
Defects: what stops the program instead of refusing a call.

Nothing that a tree, a stream, a body or a pool has to say is a defect. So an
invocation ends in one only where the model picks a candidate that the region
does not have (`Turn.isDefect_of_error?`), and a model that picks in range
never does (`isDefect_of_turns`).
-/
import AdaptiveLoops.Proofs.Region.Ledger
import AdaptiveLoops.Proofs.Region.Setup

namespace AdaptiveLoops

open Device (Stream LaunchId Outcome)

/-! ## Launches -/

namespace Statement

theorem isDefect_of_build {space : IterationSpace} {policy : Policy} {e : LoopError}
    (h : build space policy = .error e) : e.isDefect = false := by
  obtain ⟨fault, rfl⟩ := eq_invalidStatementTree_of_build h
  rfl

theorem isDefect_of_launchKernel {stream : Stream} {mode : Mode} {work : Work} {e : LoopError}
    (h : (launchKernel stream mode work).result = .error e) : e.isDefect = false := by
  unfold launchKernel at h
  split at h
  · next hlaunch =>
    cases h
    obtain ⟨-, rfl⟩ := Device.Stream.launch_eq_error.1 hlaunch
    rfl
  · cases mode with
    | async => cases h
    | sync =>
      obtain ⟨message, -, rfl⟩ := map_settled_eq_error.1 h
      rfl

theorem isDefect_of_execute {tree : Statement} {stream : Stream} {policy : Policy} {space : IterationSpace}
    {body : Body} {now : Moment} {e : LoopError}
    (h : (tree.execute stream policy space body now).result = .error e) : e.isDefect = false := by
  unfold execute at h
  split at h
  · split at h
    · exact isDefect_of_launchKernel h
    · cases h
      rfl
  · simp only [runHost] at h
    split at h
    · cases h
      rfl
    · cases h

end Statement

theorem Variant.isDefect_of_issue {v : Variant} {policy : Policy} {stream : Stream} {space : IterationSpace}
    {body : Body} {now : Moment} {e : LoopError}
    (h : (v.issue policy stream space body now).2.result = .error e) : e.isDefect = false := by
  unfold issue tree at h
  split at h
  · next htree =>
    split at htree
    · cases htree
    · split at htree
      · next hbuild =>
        cases htree
        cases h
        exact Statement.isDefect_of_build hbuild
      · cases htree
  · exact Statement.isDefect_of_execute h

/-! ## Invocations -/

namespace Region

variable {α : Type} {r : Region α} {e : LoopError}

theorem isDefect_of_settle {x : Execution} (hx : ∀ e, x.result = .error e → e.isDefect = false)
    (h : (r.settle x).result = .error e) : e.isDefect = false := by
  unfold settle at h
  split at h
  · next error herror =>
    cases h
    exact hx _ herror
  · cases h
  · dsimp only at h
    split at h
    · obtain ⟨message, -, rfl⟩ := Statement.map_settled_eq_error.1 h
      rfl
    · cases h
      rfl

theorem isDefect_of_releasing {stream : Stream} {slot : Nat} {work : Option Work} {result : Except LoopError Issued}
    (hresult : ∀ e, result = .error e → e.isDefect = false)
    (h : (r.releasing stream slot work result).result = .error e) : e.isDefect = false := by
  unfold releasing at h
  split at h
  · next hrelease =>
    cases h
    unfold Pool.release at hrelease
    split at hrelease
    · cases hrelease
      rfl
    · cases hrelease
      rfl
    · cases hrelease
    · split at hrelease
      · cases hrelease
      · cases hrelease
        rfl
  · exact hresult e h

theorem isDefect_of_keep {slot : Nat} {x : Execution} (hx : ∀ e, x.result = .error e → e.isDefect = false)
    (h : (r.keep slot x).result = .error e) : e.isDefect = false := by
  unfold keep at h
  split at h
  · cases h
  · exact isDefect_of_releasing (fun _ hok => by cases hok) h
  · next error herror =>
    refine isDefect_of_releasing (fun e' he' => ?_) h
    cases he'
    exact hx _ herror

theorem isDefect_of_issue {v : Variant} {stream : Stream} {candidate : Nat} {space : IterationSpace}
    {body : Body} {now : Moment} (h : (r.issue v stream candidate space body now).result = .error e) :
    e.isDefect = false := by
  unfold issue at h
  split at h
  · split at h
    · exact isDefect_of_keep (fun _ => Variant.isDefect_of_issue) h
    · next error hp =>
      obtain ⟨-, rfl⟩ := Pool.acquire_eq_error hp
      split at h
      · cases h
        rfl
      · exact isDefect_of_settle (fun _ => Variant.isDefect_of_issue) h
  · exact isDefect_of_settle (fun _ => Variant.isDefect_of_issue) h

variable [Model α]

theorem isDefect_of_conclude {context : Context} {issued : Issued} (h : r.conclude context issued = .error e) :
    e.isDefect = false := by
  cases issued with
  | finished elapsed => cases h
  | pending slot launch =>
    simp only [conclude] at h
    cases harm : r.pool.arm slot context launch with
    | ok pool => simp [harm, Except.map] at h
    | error e' =>
      simp only [harm, Except.map, Except.error.injEq] at h
      unfold Pool.arm at harm
      split at harm
      · cases harm
      · cases harm
        rw [← h]
        rfl

theorem isDefect_of_launch {stream : Stream} {plugins : List Plugin} {choice : Choice} {space : IterationSpace}
    {body : Body} {now : Moment} (h : (r.launch stream plugins choice space body now).result = .error e) :
    e.isDefect = false := by
  simp only [launch] at h
  split at h
  · next hissue =>
    cases h
    exact isDefect_of_issue hissue
  · split at h
    · next hconclude =>
      cases h
      exact isDefect_of_conclude hconclude
    · cases h

/-- **An invocation is no defect** where its candidate is one of the region's. -/
theorem isDefect_of_proceed {chosen issued : Stream} {plugins : List Plugin} {space : IterationSpace}
    {body : Body} {now : Moment}
    (hpick : (r.select (Features.ofSpace space) r.invocations).1 < r.policies.length)
    (h : (r.proceed chosen issued plugins space body now).result = .error e) : e.isDefect = false := by
  have hpolicy := List.getElem?_eq_getElem hpick
  have hcases := instantiate_cases (r.asked (Features.ofSpace space))
    (r.select (Features.ofSpace space) r.invocations).1 r.policies[(r.select (Features.ofSpace space) r.invocations).1]
    chosen
  unfold proceed at h
  rw [pick_eq] at h
  simp only [hpolicy] at h
  rcases hcases with ⟨-, v, variants, hv, -⟩ | ⟨-, hclosed⟩
  · rw [hv] at h
    exact isDefect_of_launch h
  · rw [hclosed] at h
    cases h
    rfl

theorem isDefect_of_collectedResult {done : List Collected} (h : collectedResult done = .error e) :
    e.isDefect = false := by
  unfold collectedResult at h
  split at h
  · cases h
  · cases h
    rfl

end Region

/-! ## Turns -/

namespace Session

variable {α : Type} [Model α]

theorem Turn.isDefect_of_error? {t : Turn α} (hpicked : ∀ candidate ∈ t.picked?, candidate < t.polled.policies.length)
    {e : LoopError} (h : t.error? = some e) : e.isDefect = false := by
  obtain ⟨s, act⟩ := t
  cases act with
  | stream event => cases h
  | drain polling =>
    simp only [error?, answer?, seen] at h
    split at h
    · next hdrain =>
      cases h
      exact Region.isDefect_of_collectedResult hdrain
    · cases h
  | invoke plugins space body now meanwhile =>
    have hanswer : (s.region.invokeDuring s.stream meanwhile plugins space body now).result = .error e := by
      unfold error? answer? at h
      cases hresult : (s.region.invokeDuring s.stream meanwhile plugins space body now).result with
      | ok d =>
        simp only [hresult] at h
        cases h
      | error e' =>
        simp only [hresult, Option.some.injEq] at h
        rw [h]
    simp only [picked?, polled, seen, features] at hpicked
    rw [Region.invokeDuring_eq] at hanswer
    cases hdrain : s.region.drainSeeing (meanwhile.polling.seen s.stream) with
    | mk r result =>
      simp only [hdrain] at hanswer hpicked
      cases result with
      | error error =>
        cases hanswer
        exact Region.isDefect_of_collectedResult (congrArg Prod.snd hdrain)
      | ok n => exact Region.isDefect_of_proceed (hpicked _ rfl) hanswer

/-- **No turn is a defect** where the model picks in range. -/
theorem isDefect_of_turns {s : Session α} (h : s.region.Sound)
    (hmodel : Model.InRange s.region.model s.region.policies.length) (hsome : 0 < s.region.policies.length)
    {acts : List Act} : ∀ t ∈ s.turns acts, ∀ e, t.error? = some e → e.isDefect = false := by
  intro t ht e he
  obtain ⟨earlier, later, heq⟩ := List.append_of_mem ht
  obtain ⟨hsound, hsame, htold, -⟩ := turns_eq_append h heq
  exact Turn.isDefect_of_error? (Turn.picked?_lt hsound (hsame ▸ hmodel.told htold) (hsame ▸ hsome)) he

end Session

end AdaptiveLoops
