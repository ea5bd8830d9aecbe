/-
The trees that are built: they are valid, bind every call, and have the
tuples of the space they are built for (`tuples_ofPolicy`), whatever the
policy. Only a device policy cuts a dimension, the first one, into blocks
(`fits_ofPolicy`).
-/
import AdaptiveLoops.Proofs.Statement.Tuples
import AdaptiveLoops.Statement.Build

namespace AdaptiveLoops.Statement

/-! ## Nests -/

theorem checkBelow_nestFrom {policy : Policy} {enclosing : Option Nat} : ∀ {count dim : Nat},
    Inside enclosing dim → checkBelow (dim + count) enclosing (nestFrom policy dim count) = .ok ()
  | 0, dim, _ => rfl
  | count + 1, dim, h => by
    rw [nestFrom, checkBelow_loop, checkAllBelow_cons]
    refine ⟨⟨by omega, h⟩, ?_, rfl⟩
    have hrank : dim + (count + 1) = dim + 1 + count := by omega
    rw [hrank]
    exact checkBelow_nestFrom (inside_some.2 (Nat.lt_succ_self dim))

theorem callsBound_nestFrom {policy : Policy} : ∀ {count dim : Nat} {bound : List Nat},
    (∀ d < dim, d ∈ bound) → (nestFrom policy dim count).CallsBound (dim + count) bound
  | 0, dim, bound, h => h
  | count + 1, dim, bound, h => by
    have hrank : dim + (count + 1) = dim + 1 + count := by omega
    simp only [nestFrom, CallsBound, CallsBoundAll, hrank, and_true]
    refine callsBound_nestFrom fun d hd => ?_
    rcases Nat.lt_or_ge d dim with hlt | hge
    · exact List.mem_cons_of_mem _ (h d hlt)
    · rw [show d = dim by omega]
      exact List.mem_cons_self

theorem fits_nestFrom {policy : Policy} {ranges : List Segment} : ∀ {count dim : Nat},
    (nestFrom policy dim count).Fits ranges
  | 0, _ => trivial
  | _ + 1, _ => fun _ _ _ => ⟨fits_nestFrom, trivial⟩

theorem take_set_self {index : Tuple} {dim : Nat} (h : dim < index.length) (i : Int) :
    (index.set dim i).take (dim + 1) = index.take dim ++ [i] := by
  rw [List.take_add_one, List.take_set_of_le (Nat.le_refl dim)]
  simp [h]

theorem tuples_nestFrom {policy : Policy} {ranges : List Segment} : ∀ {count dim : Nat} {index : Tuple},
    ranges.length = dim + count → index.length = dim + count →
      (nestFrom policy dim count).tuples ranges index =
        (IterationSpace.product (ranges.drop dim)).map (index.take dim ++ ·)
  | 0, dim, index, hr, hi => by
    rw [List.drop_eq_nil_of_le (by omega)]
    simp only [nestFrom, tuples, IterationSpace.product, List.map_cons, List.map_nil, List.append_nil]
    rw [List.take_of_length_le (by omega)]
  | count + 1, dim, index, hr, hi => by
    have hdim : dim < ranges.length := by omega
    rw [List.drop_eq_getElem_cons hdim]
    simp only [nestFrom, tuples, tuplesOfAll, List.getElem?_eq_getElem hdim, List.append_nil,
      IterationSpace.product, List.map_flatMap, List.map_map]
    refine List.flatMap_congr fun i _ => ?_
    rw [tuples_nestFrom (by omega) (by simp; omega), take_set_self (by omega)]
    simp [Function.comp_def]

theorem unlabelled_nestFrom {policy : Policy} : ∀ {count dim : Nat},
    (nestFrom policy dim count).unlabelled = nestFrom .sequential dim count
  | 0, _ => rfl
  | count + 1, dim => by
    simp only [nestFrom, unlabelled, unlabelledAll, unlabelled_nestFrom]

/-- Only the outermost loop of a nest can go to several threads. -/
theorem not_threaded_nestFrom : ∀ {count dim : Nat} {policy : Policy}, Walker.grain? policy = none →
    ¬ (nestFrom policy dim count).Threaded
  | 0, _, _, _ => not_false
  | count + 1, dim, policy, h => by
    simp only [nestFrom, Threaded, ThreadedAny, h, or_false, Option.isSome_none, Bool.false_eq_true, false_or]
    exact not_threaded_nestFrom rfl

/-! ## Trees of policies -/

section

variable {policy : Policy} {rank : Nat}

theorem checkBelow_nest : checkBelow rank none (nest policy rank) = .ok () := by
  have h : checkBelow (0 + rank) none (nestFrom policy 0 rank) = .ok () :=
    checkBelow_nestFrom (by simp [Inside])
  rwa [Nat.zero_add] at h

/-- **What is built for a policy is valid**, where the space has a dimension and no block is empty. -/
theorem validate_ofPolicy (hrank : 0 < rank) (hblock : ∀ block ∈ policy.blockSize?, block ≠ 0) :
    (ofPolicy policy rank).validate rank = .ok () := by
  rw [validate_eq_ok]
  cases policy with
  | sequential => exact checkBelow_nest
  | threaded minChunk => exact checkBelow_nest
  | device block mode =>
    have hpieces : checkBelow rank none (.segments 0 block [nest (.device block mode) rank]) = .ok () :=
      checkBelow_segments.2 ⟨⟨hrank, hblock block rfl⟩, checkAllBelow_cons.2 ⟨checkBelow_nest, rfl⟩⟩
    exact checkAllBelow_cons.2 ⟨hpieces, rfl⟩

theorem build_congr {space space' : IterationSpace} (h : space.rank = space'.rank) (policy : Policy) :
    build space policy = build space' policy := by
  rw [build, build, h]

theorem build_eq_ok {space : IterationSpace} (hrank : 0 < space.rank)
    (hblock : ∀ block ∈ policy.blockSize?, block ≠ 0) :
    build space policy = .ok (ofPolicy policy space.rank) := by
  rw [build, validate_ofPolicy hrank hblock]

theorem eq_invalidStatementTree_of_validate {t : Statement} {e : LoopError} (h : t.validate rank = .error e) :
    ∃ fault, e = .invalidStatementTree fault := by
  unfold validate at h
  cases hcheck : t.check rank with
  | error fault =>
    rw [hcheck] at h
    cases h
    exact ⟨fault, rfl⟩
  | ok _ =>
    rw [hcheck] at h
    cases h

theorem eq_invalidStatementTree_of_build {space : IterationSpace} {e : LoopError}
    (h : build space policy = .error e) : ∃ fault, e = .invalidStatementTree fault := by
  unfold build at h
  split at h
  · next hvalid =>
    cases h
    exact eq_invalidStatementTree_of_validate hvalid
  · cases h

theorem callsBound_ofPolicy : (ofPolicy policy rank).CallsBound rank [] := by
  have hnest : ∀ p : Policy, (nest p rank).CallsBound rank [] := by
    intro p
    have h : (nestFrom p 0 rank).CallsBound (0 + rank) [] :=
      callsBound_nestFrom fun d hd => absurd hd (Nat.not_lt_zero d)
    rwa [Nat.zero_add] at h
  cases policy with
  | sequential => exact hnest _
  | threaded minChunk => exact hnest _
  | device block mode =>
    simp only [ofPolicy, CallsBound, CallsBoundAll]
    exact ⟨⟨hnest _, trivial⟩, trivial, trivial⟩

theorem tuples_nest {ranges : List Segment} {index : Tuple} (hr : ranges.length = rank)
    (hi : index.length = rank) : (nest policy rank).tuples ranges index = IterationSpace.product ranges := by
  rw [nest, tuples_nestFrom (by omega) (by omega)]
  simp

theorem tuples_device {s : Segment} {rest : List Segment} {index : Tuple} {block : UInt64} {mode : Mode}
    (hi : index.length = rest.length + 1) :
    (ofPolicy (.device block mode) (rest.length + 1)).tuples (s :: rest) index =
      ((s.chunks block).flatMap Segment.indices).flatMap fun i => (IterationSpace.product rest).map (i :: ·) := by
  have hpiece : ∀ piece ∈ s.chunks block,
      (nest (.device block mode) (rest.length + 1)).tuples (piece :: rest) index =
        piece.indices.flatMap fun i => (IterationSpace.product rest).map (i :: ·) := fun piece _ =>
    tuples_nest rfl hi
  simp only [ofPolicy, tuples, tuplesOfAll, List.getElem?_cons_zero, List.set_cons_zero, List.append_nil]
  rw [List.flatMap_congr hpiece, ← List.flatMap_assoc]

/-- **The tree of a policy has the tuples of the space**, the blocks of a device together as well. -/
theorem tuples_ofPolicy {space : IterationSpace} {index : Tuple}
    (hi : index.length = space.rank) (hrank : 0 < space.rank)
    (hblock : ∀ block ∈ policy.blockSize?, (block.toNat : Int) ≤ Int64.maxValue.toInt) :
    (ofPolicy policy space.rank).tuples space.segments index = space.tuples := by
  cases policy with
  | sequential => exact tuples_nest rfl hi
  | threaded minChunk => exact tuples_nest rfl hi
  | device block mode =>
    obtain ⟨segments⟩ := space
    cases segments with
    | nil => cases hrank
    | cons s rest =>
      refine (tuples_device hi).trans ?_
      rw [Segment.flatMap_chunks (hblock block rfl)]
      rfl

/-- A policy and its synchronous form have the same tree, labels apart. -/
theorem unlabelled_ofPolicy_synchronous :
    (ofPolicy policy.synchronous rank).unlabelled = (ofPolicy policy rank).unlabelled := by
  cases policy with
  | sequential => rfl
  | threaded minChunk => rfl
  | device block mode =>
    simp only [Policy.synchronous, ofPolicy, unlabelled, unlabelledAll, nest, unlabelled_nestFrom]

theorem not_threaded_ofPolicy (hdevice : policy.isDevice = true) : ¬ (ofPolicy policy rank).Threaded := by
  cases policy with
  | sequential => cases hdevice
  | threaded minChunk => cases hdevice
  | device block mode =>
    simp only [ofPolicy, Threaded, ThreadedAny, or_false]
    exact not_threaded_nestFrom rfl

/-- Only a device lists pieces, those of the first dimension. -/
theorem fits_ofPolicy {ranges : List Segment} : (ofPolicy policy rank).Fits ranges ↔
    ∀ block ∈ policy.blockSize?, ∀ s ∈ ranges[0]?, s.chunkCount block ≤ Memory.capacity 16 := by
  cases policy with
  | sequential => simp [ofPolicy, nest, fits_nestFrom, Policy.blockSize?]
  | threaded minChunk => simp [ofPolicy, nest, fits_nestFrom, Policy.blockSize?]
  | device block mode => simp [ofPolicy, nest, Fits, FitsAll, fits_nestFrom, Policy.blockSize?]

end

end AdaptiveLoops.Statement
