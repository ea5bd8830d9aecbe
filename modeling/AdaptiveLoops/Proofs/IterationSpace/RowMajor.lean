/-
The row-major order of tuples: the first index that differs decides, the
outermost dimension coming first. The tuples of a space are listed in this
order, each before all that are larger (`pairwise_tuples`).
-/
import AdaptiveLoops.Proofs.IterationSpace.Tuples

namespace AdaptiveLoops

/-- `t` comes before `u` where the outermost dimension changes slowest. -/
def Tuple.Before (t u : Tuple) : Prop := List.Lex (· < ·) t u

theorem Tuple.not_before_self (t : Tuple) : ¬ t.Before t :=
  List.lex_irrefl (fun i => Int.lt_irrefl i) t

theorem Tuple.Before.trans {t u v : Tuple} (htu : t.Before u) (huv : u.Before v) : t.Before v :=
  List.lex_trans Int.lt_trans htu huv

theorem Segment.pairwise_indices (s : Segment) : s.indices.Pairwise (· < ·) := by
  refine List.pairwise_map.2 (List.pairwise_lt_range.imp fun h => ?_)
  simp only [index]
  omega

namespace IterationSpace

theorem pairwise_product : ∀ segments : List Segment, (product segments).Pairwise Tuple.Before
  | [] => List.pairwise_singleton _ _
  | s :: rest => by
    refine List.pairwise_flatMap.2 ⟨fun i _ => ?_, s.pairwise_indices.imp fun hlt t ht u hu => ?_⟩
    · exact List.pairwise_map.2 ((pairwise_product rest).imp .cons)
    · obtain ⟨_, -, rfl⟩ := List.mem_map.1 ht
      obtain ⟨_, -, rfl⟩ := List.mem_map.1 hu
      exact .rel hlt

/-- **The tuples of a space stand in row-major order.** -/
theorem pairwise_tuples (space : IterationSpace) : space.tuples.Pairwise Tuple.Before :=
  pairwise_product space.segments

end IterationSpace

end AdaptiveLoops
