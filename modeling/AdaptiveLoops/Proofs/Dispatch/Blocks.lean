/-
The blocks of a device: how the first dimension is cut, and what a kernel
reaches of it.

A block is as long as the policy says, and a text can name any length that
is an unsigned 64-bit number but zero. Up to the largest signed one the
blocks cut the dimension and the kernel reaches every tuple. Behind it they
are empty: the kernel ends well and has reached none
(`Work.Blockwise.skipped`).
-/
import AdaptiveLoops.Proofs.Policy.Text
import AdaptiveLoops.Proofs.Segment.Partition
import AdaptiveLoops.Proofs.Variant.Fallback

namespace AdaptiveLoops

open Device (Stream)

/-! ## Blocks that a text can name -/

namespace Policy

/-- **A text names no grain and no block of zero.** -/
theorem parse_cases {text : String} {policy : Policy} (h : parse text = .ok policy) :
    policy = .sequential ∨ (∃ n, n ≠ 0 ∧ policy = .threaded n) ∨ ∃ mode n, n ≠ 0 ∧ policy = .device n mode := by
  have hpositive := positive_of_parse h
  cases policy with
  | sequential => exact .inl rfl
  | threaded n => exact .inr (.inl ⟨n, hpositive, rfl⟩)
  | device n mode => exact .inr (.inr ⟨mode, n, hpositive, rfl⟩)

end Policy

/-! ## What a kernel reaches -/

/-- What comes of a kernel of the given blocks whose body never panics. -/
structure Work.Blockwise (work : Work) (policy : Policy) (block : UInt64) (space : IterationSpace) : Prop where
  covered : (block.toNat : Int) ≤ Int64.maxValue.toInt → policy.HasRoom space →
    work.failure? = none ∧ work.visits.toList.Perm space.tuples
  failed : ¬ policy.HasRoom space → work.failure? = some "capacity overflow" ∧ work.visits = #[]
  skipped : Int64.maxValue.toInt < (block.toNat : Int) → work.failure? = none ∧ work.visits = #[]

namespace Statement

variable {block : UInt64} {mode : Mode} {space : IterationSpace}

/-- Blocks that are too long leave no tuple to attempt. -/
theorem attempted_eq_nil (hrank : 0 < space.rank) (hblock : Int64.maxValue.toInt < (block.toNat : Int)) :
    attempted (.device block mode) space = [] := by
  obtain ⟨segments⟩ := space
  cases segments with
  | nil => cases hrank
  | cons s rest =>
    refine (tuples_device (by simp [Frame.ofSpace])).trans ?_
    rw [Segment.flatMap_chunks_eq_nil hblock]
    rfl

theorem attempted_eq_tuples (hrank : 0 < space.rank) (hblock : (block.toNat : Int) ≤ Int64.maxValue.toInt) :
    attempted (.device block mode) space = space.tuples := by
  refine tuples_ofPolicy (by simp [Frame.ofSpace, IterationSpace.rank]) hrank ?_
  rintro _ ⟨⟩
  exact hblock

/-- There is always room for blocks that are too long, as there are two of them at most. -/
theorem hasRoom_of_lt (hblock : Int64.maxValue.toInt < (block.toNat : Int)) :
    (Policy.device block mode).HasRoom space := by
  rintro _ ⟨⟩ s -
  exact (Segment.chunkCount_le_two hblock).trans (by decide)

theorem kernelWork_blockwise (hblock : block ≠ 0) (hrank : 0 < space.rank) {body : Body}
    (hbody : ∀ x, body x = none) (now : Moment) :
    (kernelWork (ofPolicy (.device block mode) space.rank).children space body now).Blockwise
      (.device block mode) block space := by
  have hvalid : (ofPolicy (.device block mode) space.rank).validate space.rank = .ok () :=
    validate_ofPolicy hrank (by rintro _ ⟨⟩; exact hblock)
  obtain rfl : body = fun _ => none := funext hbody
  have hwork := kernelWork_attempts rfl hvalid (fun _ => none) now
  have hends : ∀ {ts}, attempted (.device block mode) space = ts → (Policy.device block mode).HasRoom space →
      (kernelWork (ofPolicy (.device block mode) space.rank).children space (fun _ => none) now).failure? = none ∧
      (kernelWork (ofPolicy (.device block mode) space.rank).children space (fun _ => none) now).visits.toList.Perm
        ts := by
    rintro _ rfl hroom
    have hnone := hwork.failure?_eq_none_iff.2 ⟨hroom, fun _ _ => rfl⟩
    exact ⟨hnone, hwork.perm hnone⟩
  refine ⟨fun hshort hroom => hends (attempted_eq_tuples hrank hshort) hroom, fun hroom => ?_, fun hlong => ?_⟩
  · exact (kernelWork_noRoom hroom now).symm
  · obtain ⟨hnone, hperm⟩ := hends (attempted_eq_nil hrank hlong) (hasRoom_of_lt hlong)
    exact ⟨hnone, Array.toList_eq_nil_iff.1 hperm.eq_nil⟩

/--
**Pieces partition their segment up to the largest signed length.** They begin
where exact arithmetic says, for every length, and no step is zero. Behind
the largest signed length they are all empty. So a device policy that is read
from a text reaches every tuple, each once, or says that it had no room for
its blocks, unless its block is longer than that: then its kernel ends well
and has reached none.
-/
theorem blocks_partition (s : Segment) (len : UInt64) :
    0 < (Segment.step len).toNat ∧
    (∀ k < s.chunkCount len, (s.chunkBegin len k).toInt = s.begin.toInt + (k * max len.toNat 1 : Nat)) ∧
    ((len.toNat : Int) ≤ Int64.maxValue.toInt → s.Cuts (max len.toNat 1) (s.chunks len)) ∧
    (Int64.maxValue.toInt < (len.toNat : Int) →
      (s.chunks len = [] ↔ s.stop ≤ s.begin) ∧ ∀ p ∈ s.chunks len, p.isEmpty = true) ∧
    ∀ (text : String) (block : UInt64) (mode : Mode), Policy.parse text = .ok (.device block mode) →
      ∀ (space : IterationSpace) (body : Body) (stream : Stream) (now : Moment), 0 < space.rank →
        (∀ x, body x = none) → stream.closed = false →
          ∃ work, (dispatch stream (.device block mode) space body now).work = some work ∧
            work.Blockwise (.device block mode) block space := by
  refine ⟨Segment.step_pos len, fun k hk => ?_, Segment.cuts_chunks,
    fun hlong => ⟨Segment.chunks_eq_nil_iff, fun p => Segment.isEmpty_of_mem_chunks hlong⟩, ?_⟩
  · rw [Segment.toInt_chunkBegin (Segment.lt_chunkCount_iff.1 hk), Segment.toNat_step]
  · intro text block mode hparse space body stream now hrank hbody hopen
    have hblock : block ≠ 0 := by
      rcases Policy.parse_cases hparse with heq | ⟨n, -, heq⟩ | ⟨mode', n, hn, heq⟩
      · cases heq
      · cases heq
      · cases heq
        exact hn
    refine ⟨_, ?_, kernelWork_blockwise hblock hrank hbody now⟩
    rw [dispatch_device, validate_ofPolicy hrank (by rintro _ ⟨⟩; exact hblock)]
    exact work_launchKernel hopen mode _

/-- Eleven indices in three blocks, and a kernel over them. -/
theorem blocks_partition_short :
    (⟨-5, 6⟩ : Segment).Cuts 4 [⟨-5, -1⟩, ⟨-1, 3⟩, ⟨3, 6⟩] ∧
    ∃ work, (dispatch .empty (.device 4 .sync) ⟨[⟨-5, 6⟩]⟩ (fun _ => none) ⟨.halving 2, ⟨0⟩⟩).work = some work ∧
      work.failure? = none ∧ work.visits.toList.Perm (IterationSpace.mk [⟨-5, 6⟩]).tuples := by
  obtain ⟨-, -, hcuts, -, hkernel⟩ := blocks_partition ⟨-5, 6⟩ 4
  have hparse : Policy.parse "device:4" = .ok (.device 4 .sync) := by decide +kernel
  obtain ⟨work, hwork, hblocks⟩ := hkernel _ _ _ hparse ⟨[⟨-5, 6⟩]⟩ (fun _ => none) .empty ⟨.halving 2, ⟨0⟩⟩
    (by decide) (fun _ => rfl) rfl
  refine ⟨hcuts (by decide), work, hwork, hblocks.covered (by decide) ?_⟩
  simp [Policy.HasRoom, Policy.blockSize?]
  decide

/-- The longest block that a text can name does not cut eight indices, and its kernel reaches none of them. -/
theorem long_block_reaches_nothing :
    (⟨0, 8⟩ : Segment).chunks 18446744073709551615 = [⟨0, -1⟩] ∧
    ¬ (⟨0, 8⟩ : Segment).Cuts 18446744073709551615 [⟨0, -1⟩] ∧
    Policy.parse "device:18446744073709551615" = .ok (.device 18446744073709551615 .sync) ∧
    ∃ e, dispatch .empty (.device 18446744073709551615 .sync) ⟨[⟨0, 8⟩]⟩ (fun _ => none) ⟨.serial, ⟨0⟩⟩ = e ∧
      e.result = .ok (.complete ⟨0⟩) ∧ e.work.map (·.visits) = some #[] ∧
      (IterationSpace.mk [⟨0, 8⟩]).tuples.length = 8 := by
  refine ⟨by decide, fun hcuts => ?_, by decide +kernel, _, rfl, by decide, by decide +kernel, by decide⟩
  exact absurd (hcuts.nonempty ⟨0, -1⟩ (List.mem_singleton_self _)) (by decide)

end Statement

end AdaptiveLoops
