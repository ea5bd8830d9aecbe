/-
Schedules: how parallel loops are split.

The items of a parallel loop are cut into runs of neighbouring items. Each
run works on its own copy of the state and handles its items in ascending
order. A schedule chooses the runs for every parallel loop that is reached,
told apart by the path to it, and may choose differently each time;
`covers` says that it leaves no item out and takes none twice. The order of
the runs is the schedule's as well.

`halving` is one such schedule: it halves the items while both halves hold
a grain of items and there are threads left to feed.
-/
namespace AdaptiveLoops

/-- Neighbouring items, by their offsets. -/
structure Run where
  first : Nat
  size : Nat
  deriving DecidableEq, Repr

def Run.offsets (r : Run) : List Nat :=
  List.range' r.first r.size

/-- The way down to a statement: positions among siblings and loop steps, innermost first. -/
abbrev Path := List Nat

structure Schedule where
  runs : (path : Path) → (grain count : Nat) → List Run
  covers : ∀ path grain count, ((runs path grain count).flatMap Run.offsets).Perm (List.range count)

namespace Schedule

/-- Everything in one run. -/
def serial : Schedule where
  runs _ _ count := [⟨0, count⟩]
  covers _ _ count := by simp [Run.offsets, List.range_eq_range']

def halve (grain : Nat) : (levels : Nat) → (first size : Nat) → List Run
  | 0, first, size => [⟨first, size⟩]
  | levels + 1, first, size =>
    if grain ≤ size / 2 ∧ 2 ≤ size then
      halve grain levels first (size / 2) ++ halve grain levels (first + size / 2) (size - size / 2)
    else [⟨first, size⟩]

theorem halve_offsets (grain levels first size : Nat) :
    (halve grain levels first size).flatMap Run.offsets = List.range' first size := by
  induction levels generalizing first size with
  | zero => simp [halve, Run.offsets]
  | succ levels ih =>
    unfold halve
    split
    · have h : size / 2 + (size - size / 2) = size := by omega
      rw [List.flatMap_append, ih, ih, List.range'_append_1, h]
    · simp [Run.offsets]

/-- Halves as often as `threads` can be halved down to nothing. -/
def halving (threads : Nat) : Schedule where
  runs _ grain count := halve (max grain 1) (Nat.log2 threads + 1) 0 count
  covers _ _ count := by rw [halve_offsets, List.range_eq_range']

end Schedule

end AdaptiveLoops
