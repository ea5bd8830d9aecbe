/-
The trees of a variant never show: a loop that is issued under one runs the
tree that building gives for its policy and its space (`Prepared.issue_eq`),
whether the tree was kept from an earlier loop or not.
-/
import AdaptiveLoops.Proofs.Variant.Launch

namespace AdaptiveLoops

open Device (Stream)

namespace Statement

/-- Issues a loop under a policy, with a tree that is built for it. -/
def dispatch (stream : Stream) (policy : Policy) (space : IterationSpace) (body : Body) (now : Moment) :
    Execution :=
  match build space policy with
  | .error e => ⟨stream, none, .error e⟩
  | .ok tree => tree.execute stream policy space body now

end Statement

namespace Variant

/-- The trees that a variant keeps are those that are built. -/
def Prepared (v : Variant) : Prop :=
  ∀ t ∈ v.trees, ∀ space : IterationSpace, space.rank = t.rank → Statement.build space t.policy = .ok t.tree

variable {v : Variant}

theorem placeOf?_eq_some {policy : Policy} {rank place : Nat} (h : v.placeOf? policy rank = some place) :
    ∃ t ∈ v.trees, v.trees[place]? = some t ∧ t.policy = policy ∧ t.rank = rank := by
  rw [placeOf?, List.findIdx?_eq_some_iff_getElem] at h
  obtain ⟨hlt, hkey, -⟩ := h
  simp only [Bool.and_eq_true, beq_iff_eq] at hkey
  exact ⟨v.trees[place], List.getElem_mem hlt, List.getElem?_eq_getElem hlt, hkey⟩

/-- **Looking a tree up gives what building gives**, and keeps no other trees. -/
theorem Prepared.tree (h : v.Prepared) (policy : Policy) (space : IterationSpace) :
    (v.tree policy space).1.Prepared ∧ (v.tree policy space).1.policy = v.policy ∧
      (v.tree policy space).2.map (·.2) = Statement.build space policy := by
  unfold Variant.tree
  split
  · next place hplace =>
    obtain ⟨t, ht, hget, rfl, hrank⟩ := placeOf?_eq_some hplace
    refine ⟨h, rfl, ?_⟩
    rw [h t ht space hrank.symm, hget]
    rfl
  · split
    · next e hbuild => exact ⟨h, rfl, hbuild.symm⟩
    · next tree hbuild =>
      refine ⟨fun t ht space' hrank => ?_, rfl, hbuild.symm⟩
      rcases List.mem_append.1 ht with ht | ht
      · exact h t ht space' hrank
      · rw [List.mem_singleton] at ht
        subst ht
        exact (Statement.build_congr hrank policy).trans hbuild

/-- **A loop is issued as if its tree were built anew.** -/
theorem Prepared.issue_eq (h : v.Prepared) (policy : Policy) (stream : Stream) (space : IterationSpace)
    (body : Body) (now : Moment) :
    (v.issue policy stream space body now).2 = Statement.dispatch stream policy space body now := by
  have htree := (h.tree policy space).2.2
  simp only [issue, Statement.dispatch]
  cases hlookup : v.tree policy space with
  | mk v' result =>
    rw [hlookup] at htree
    rw [← htree]
    cases result <;> rfl

theorem Prepared.issue (h : v.Prepared) (policy : Policy) (stream : Stream) (space : IterationSpace)
    (body : Body) (now : Moment) :
    (v.issue policy stream space body now).1.Prepared ∧
      (v.issue policy stream space body now).1.policy = v.policy := by
  obtain ⟨hprepared, hpolicy, -⟩ := h.tree policy space
  simp only [Variant.issue]
  cases hlookup : v.tree policy space with
  | mk v' result =>
    rw [hlookup] at hprepared hpolicy
    cases result with
    | error e => exact ⟨hprepared, hpolicy⟩
    | ok found => exact ⟨hprepared, hpolicy⟩

/-! ## Variants in use -/

/-- The variants that a candidate with the policy comes to: put into use, asked for trees, and launched. -/
inductive Reachable (policy : Policy) : Variant → Prop where
  | instantiated {site : CallSite} {index : Nat} {stream : Stream} {v : Variant}
      (h : instantiate site index policy stream = .ok v) : Reachable policy v
  | asked {v : Variant} (h : Reachable policy v) (policy' : Policy) (space : IterationSpace) :
      Reachable policy (v.tree policy' space).1
  | launched {v : Variant} (h : Reachable policy v) (stream : Stream) (space : IterationSpace) (body : Body)
      (now : Moment) : Reachable policy (v.launch stream space body now).1
  | launchedSynchronously {v : Variant} (h : Reachable policy v) (stream : Stream) (space : IterationSpace)
      (body : Body) (now : Moment) : Reachable policy (v.launchSynchronously stream space body now).1

theorem prepared_instantiate {site : CallSite} {index : Nat} {policy : Policy} {stream : Stream}
    (h : instantiate site index policy stream = .ok v) : v.Prepared ∧ v.policy = policy := by
  unfold instantiate at h
  split at h
  · cases h
  · cases h
    exact ⟨fun _ ht => absurd ht List.not_mem_nil, rfl⟩

/-- **A variant in use keeps its policy**, and no trees but those that are built. -/
theorem Reachable.prepared {policy : Policy} (h : v.Reachable policy) : v.Prepared ∧ v.policy = policy := by
  induction h with
  | instantiated h => exact prepared_instantiate h
  | asked _ policy' space ih =>
    have htree := ih.1.tree policy' space
    exact ⟨htree.1, htree.2.1.trans ih.2⟩
  | @launched v _ stream space body now ih =>
    have hissue := ih.1.issue v.policy stream space body now
    exact ⟨hissue.1, hissue.2.trans ih.2⟩
  | @launchedSynchronously v _ stream space body now ih =>
    have hissue := ih.1.issue v.policy.synchronous stream space body now
    exact ⟨hissue.1, hissue.2.trans ih.2⟩

end Variant

end AdaptiveLoops
