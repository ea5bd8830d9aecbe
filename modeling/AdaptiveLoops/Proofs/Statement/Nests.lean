/-
The shape of the trees that are built.

Building fails for a device policy alone, where there is no dimension to cut
or no block to cut it into (`build_eq`). A tree that is built has one call,
below a loop over each dimension, outermost first; the policy is on the
outermost loop and the loops inside it run in sequence (`build_nests`).
-/
import AdaptiveLoops.Proofs.Statement.Build
import AdaptiveLoops.Proofs.Statement.Positions

namespace AdaptiveLoops.Statement

/-- The loops of a nest, the outermost first. -/
def nestLoops (policy : Policy) (dim count : Nat) : List (Nat × Policy) :=
  (List.range' dim count).map fun d => (d, if d = dim then policy else .sequential)

theorem nestLoops_succ (policy : Policy) (dim count : Nat) :
    nestLoops policy dim (count + 1) = (dim, policy) :: nestLoops .sequential (dim + 1) count := by
  simp only [nestLoops, List.range'_succ, List.map_cons, if_true, List.cons.injEq, true_and]
  refine List.map_congr_left fun d hd => ?_
  have hne : d ≠ dim := by
    have := (List.mem_range'_1.1 hd).1
    omega
  simp [hne]

theorem calls_nestFrom : ∀ (count : Nat) (policy : Policy) (dim : Nat) (above : List Statement),
    ∃ p, (positionsBelow above (nestFrom policy dim count)).filter (·.node.isCall) = [p] ∧
      p.loops.reverse = (above.filterMap loop?).reverse ++ nestLoops policy dim count
  | 0, _, _, above => ⟨⟨above, .call⟩, rfl, by simp [Position.loops, nestLoops]⟩
  | count + 1, policy, dim, above => by
    have hinner := calls_nestFrom count .sequential (dim + 1) (nestFrom policy dim (count + 1) :: above)
    obtain ⟨p, hcalls, hloops⟩ := hinner
    refine ⟨p, ?_, ?_⟩
    · simpa [nestFrom, positionsBelow, positionsOfAll, isCall] using hcalls
    · rw [hloops, nestLoops_succ]
      simp [nestFrom, loop?]

theorem depth_nestFrom : ∀ (count : Nat) (policy : Policy) (dim : Nat),
    (nestFrom policy dim count).depth = count + 1
  | 0, _, _ => rfl
  | count + 1, _, dim => by
    simp only [nestFrom, depth, depthBelow, depth_nestFrom count, Nat.max_zero]
    omega

/-! ## Trees of policies -/

/-- One call in the tree, below one loop over each dimension, and no more levels than that takes. -/
structure NestsOnce (policy : Policy) (rank : Nat) (tree : Statement) : Prop where
  call : ∃ p, tree.positions.filter (·.node.isCall) = [p] ∧
    p.loops.reverse = (List.range rank).map fun d => (d, if d = 0 then policy else .sequential)
  depth : tree.depth = rank + if policy.isDevice then 3 else 1

theorem nestLoops_zero (policy : Policy) (rank : Nat) :
    nestLoops policy 0 rank = (List.range rank).map fun d => (d, if d = 0 then policy else .sequential) := by
  rw [nestLoops, List.range_eq_range']

theorem nestsOnce_ofPolicy (policy : Policy) (rank : Nat) : (ofPolicy policy rank).NestsOnce policy rank := by
  have hhost : ∀ p : Policy, p.isDevice = false → (nest p rank).NestsOnce p rank := by
    intro p hp
    obtain ⟨q, hcalls, hloops⟩ := calls_nestFrom rank p 0 []
    exact ⟨⟨q, hcalls, by rw [hloops, nestLoops_zero]; rfl⟩, by simp [nest, depth_nestFrom, hp]⟩
  cases policy with
  | sequential => exact hhost _ rfl
  | threaded minChunk => exact hhost _ rfl
  | device block mode =>
    let pieces : Statement := .segments 0 block [nest (.device block mode) rank]
    obtain ⟨q, hcalls, hloops⟩ := calls_nestFrom rank (.device block mode) 0
      [pieces, ofPolicy (.device block mode) rank]
    refine ⟨⟨q, ?_, ?_⟩, ?_⟩
    · simpa [positions, ofPolicy, positionsBelow, positionsOfAll, isCall, nest, pieces] using hcalls
    · rw [hloops, nestLoops_zero]
      rfl
    · simp only [ofPolicy, nest, depth, depthBelow, depth_nestFrom, Policy.isDevice, if_true]
      omega

/-! ## Building -/

section

variable {policy : Policy} {space : IterationSpace} {block : UInt64} {mode : Mode}

theorem build_host (h : policy.place = .host) : build space policy = .ok (ofPolicy policy space.rank) := by
  have hvalid : (ofPolicy policy space.rank).validate space.rank = .ok () := by
    cases policy with
    | sequential => exact validate_eq_ok.2 checkBelow_nest
    | threaded minChunk => exact validate_eq_ok.2 checkBelow_nest
    | device block mode => cases h
  rw [build, hvalid]

/-- Only the blocks of a device are looked at: the nest in them is always valid. -/
theorem build_device : build space (.device block mode) =
    match checkSegments space.rank 0 block with
    | .error fault => .error (.invalidStatementTree fault)
    | .ok () => .ok (ofPolicy (.device block mode) space.rank) := by
  cases hcheck : checkSegments space.rank 0 block with
  | error fault =>
    have hrefused : (ofPolicy (.device block mode) space.rank).validate space.rank =
        .error (.invalidStatementTree fault) := by
      simp [validate, check, ofPolicy, checkBelow, checkAllBelow, hcheck, Except.mapError]
    rw [build, hrefused]
  | ok _ =>
    obtain ⟨hrank, hblock⟩ := checkSegments_eq_ok.1 hcheck
    exact build_eq_ok hrank (by simpa [Policy.blockSize?] using hblock)

theorem build_device_eq_ok {tree : Statement} : build space (.device block mode) = .ok tree ↔
    (block ≠ 0 ∧ 0 < space.rank) ∧ tree = ofPolicy (.device block mode) space.rank := by
  rw [build_device, and_comm (a := block ≠ 0), ← checkSegments_eq_ok]
  split
  · next hcheck => simp [hcheck]
  · next hcheck => simp [hcheck, eq_comm]

theorem eq_ofPolicy_of_build {tree : Statement} (h : build space policy = .ok tree) :
    tree = ofPolicy policy space.rank := by
  unfold build at h
  split at h
  · cases h
  · cases h
    rfl

theorem build_eq_error {e : LoopError} (h : build space policy = .error e) :
    e = .invalidStatementTree (if space.rank = 0 then .segmentsOutside 0 0 else .emptySegments) := by
  cases policy with
  | sequential =>
    rw [build_host rfl] at h
    cases h
  | threaded minChunk =>
    rw [build_host rfl] at h
    cases h
  | device block mode =>
    rw [build_device, checkSegments] at h
    by_cases hrank : space.rank = 0
    · simp only [hrank, Nat.le_refl, if_true] at h
      cases h
      simp [hrank]
    · have hpos : ¬ space.rank ≤ 0 := by omega
      rw [if_neg hpos] at h
      rw [if_neg hrank]
      split at h
      · next hcheck =>
        split at hcheck <;> cases hcheck
        cases h
        rfl
      · cases h

end

/--
**Building is total up to what it is documented to refuse**, a device policy
with no dimension to cut or no block. A tree that is built passes its one
call through a loop over each dimension, and spaces of one rank get one tree.
-/
theorem build_nests (space : IterationSpace) (policy : Policy) :
    ((∃ tree, build space policy = .ok tree) ↔
      policy.place = .host ∨
        ∃ block mode, policy = .device block mode ∧ block ≠ 0 ∧ 0 < space.rank) ∧
    (∀ e, build space policy = .error e →
      e = .invalidStatementTree (if space.rank = 0 then .segmentsOutside 0 0 else .emptySegments)) ∧
    (∀ tree, build space policy = .ok tree → tree.NestsOnce policy space.rank) ∧
    ∀ space' : IterationSpace, space'.rank = space.rank → build space' policy = build space policy := by
  refine ⟨?_, fun e h => build_eq_error h, fun tree h => ?_, fun space' h => build_congr h policy⟩
  · cases policy with
    | sequential => exact iff_of_true ⟨_, build_host rfl⟩ (.inl rfl)
    | threaded minChunk => exact iff_of_true ⟨_, build_host rfl⟩ (.inl rfl)
    | device block mode => simp [build_device_eq_ok, Policy.place]
  · rw [eq_ofPolicy_of_build h]
    exact nestsOnce_ofPolicy policy space.rank

end AdaptiveLoops.Statement
