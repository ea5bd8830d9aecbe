/-
The tuples of an iteration space: the product of its ranges, row by row.

`mem_tuples` says which tuples these are, `nodup_tuples` that none is listed
twice, and `length_tuples` how many there are, with no bound on the number.
-/
import AdaptiveLoops.Body
import AdaptiveLoops.IterationSpace
import AdaptiveLoops.Proofs.Segment.Pieces
import Mathlib.Algebra.Group.Nat.Defs
import Mathlib.Data.List.Forall2

namespace AdaptiveLoops.IterationSpace

/-- The tuples with one index of each segment, the last index changing fastest. -/
def product : List Segment → List Tuple
  | [] => [[]]
  | s :: rest => s.indices.flatMap fun i => (product rest).map (i :: ·)

def tuples (space : IterationSpace) : List Tuple := product space.segments

/-- The tuple has one index for each dimension, inside its half-open range. -/
def Contains (space : IterationSpace) (t : Tuple) : Prop :=
  List.Forall₂ (fun i s => s.begin.toInt ≤ i ∧ i < s.stop.toInt) t space.segments

/-- Every segment is addressable, inverted ones being empty. -/
def Addressable (space : IterationSpace) : Prop := ∀ s ∈ space.segments, s.Addressable

theorem mem_product : ∀ {segments : List Segment} {t : Tuple}, t ∈ product segments ↔
    List.Forall₂ (fun i s => s.begin.toInt ≤ i ∧ i < s.stop.toInt) t segments
  | [], t => by simp [product]
  | s :: rest, t => by
    have ih := @mem_product rest
    simp only [product, List.mem_flatMap, List.mem_map, List.forall₂_cons_right_iff,
      Segment.mem_indices, ih]
    constructor
    · rintro ⟨i, hi, u, hu, rfl⟩
      exact ⟨i, u, hi, hu, rfl⟩
    · rintro ⟨i, u, hi, hu, rfl⟩
      exact ⟨i, hi, u, hu, rfl⟩

theorem nodup_product : ∀ segments : List Segment, (product segments).Nodup
  | [] => by simp [product]
  | s :: rest => by
    refine List.nodup_flatMap.2 ⟨fun i _ => ?_, ?_⟩
    · exact (nodup_product rest).map (List.cons_injective (a := i))
    · refine s.nodup_indices.imp fun hne t ht hu => ?_
      obtain ⟨_, _, rfl⟩ := List.mem_map.1 ht
      obtain ⟨_, _, heq⟩ := List.mem_map.1 hu
      exact hne (List.cons.inj heq).1.symm

theorem length_product : ∀ segments : List Segment,
    (product segments).length = (segments.map (·.length)).prod
  | [] => by simp [product]
  | s :: rest => by
    simp [product, List.length_flatMap, length_product rest]

theorem mem_tuples {space : IterationSpace} {t : Tuple} : t ∈ space.tuples ↔ space.Contains t :=
  mem_product

theorem nodup_tuples (space : IterationSpace) : space.tuples.Nodup := nodup_product space.segments

theorem length_tuples (space : IterationSpace) :
    space.tuples.length = (space.segments.map (·.length)).prod := length_product space.segments

/-! ## A long dimension -/

/-- One dimension that is as long as an addressable one can be. -/
def longest : IterationSpace := ⟨[⟨0, Int64.maxValue⟩]⟩

theorem longest_addressable : longest.Addressable := by
  simp only [Addressable, longest, List.mem_singleton, forall_eq, Segment.Addressable]
  decide

theorem zero_mem_tuples_longest : [0] ∈ longest.tuples := by
  rw [mem_tuples]
  simp only [Contains, longest, List.forall₂_cons, List.forall₂_nil_left_iff]
  decide

end AdaptiveLoops.IterationSpace
