/-
The tuples of a statement tree, read off the tree.

`Statement.tuples` runs every loop on indices of its own, so nothing that a
loop leaves behind is seen by what comes after it. `Statement.Fits` says
that wherever a dimension is cut, the list of its pieces fits into memory.
Neither looks at policies (`tuples_unlabelled`, `fits_unlabelled`).
-/
import AdaptiveLoops.Proofs.IterationSpace.Tuples
import AdaptiveLoops.Proofs.Statement.Nesting

namespace AdaptiveLoops.Statement

mutual

/-- The tuples for the body, every loop setting its index for its own body alone. -/
def tuples (ranges : List Segment) (index : Tuple) : Statement → List Tuple
  | .loop dim _ body =>
    match ranges[dim]? with
    | none => []
    | some s => s.indices.flatMap fun i => tuplesOfAll ranges (index.set dim i) body
  | .kernel _ body => tuplesOfAll ranges index body
  | .segments dim length body =>
    match ranges[dim]? with
    | none => []
    | some s => (s.chunks length).flatMap fun piece => tuplesOfAll (ranges.set dim piece) index body
  | .barrier => []
  | .call => [index]

def tuplesOfAll (ranges : List Segment) (index : Tuple) : List Statement → List Tuple
  | [] => []
  | s :: rest => tuples ranges index s ++ tuplesOfAll ranges index rest

end

mutual

/-- Wherever a dimension is cut on the way through the tree, the list of its pieces fits into memory. -/
def Fits (ranges : List Segment) : Statement → Prop
  | .loop dim _ body => ∀ s ∈ ranges[dim]?, 0 < s.length → FitsAll ranges body
  | .kernel _ body => FitsAll ranges body
  | .segments dim length body => ∀ s ∈ ranges[dim]?, s.chunkCount length ≤ Memory.capacity 16 ∧
      ∀ piece ∈ s.chunks length, FitsAll (ranges.set dim piece) body
  | .barrier => True
  | .call => True

def FitsAll (ranges : List Segment) : List Statement → Prop
  | [] => True
  | s :: rest => Fits ranges s ∧ FitsAll ranges rest

end

/-! ## Labels -/

mutual

theorem tuples_unlabelled : ∀ (t : Statement) (ranges : List Segment) (index : Tuple),
    t.unlabelled.tuples ranges index = t.tuples ranges index
  | .loop dim _ body, ranges, index => by
    simp only [unlabelled, tuples, tuplesOfAll_unlabelled body]
  | .kernel _ body, ranges, index => by
    simp only [unlabelled, tuples, tuplesOfAll_unlabelled body]
  | .segments dim length body, ranges, index => by
    simp only [unlabelled, tuples, tuplesOfAll_unlabelled body]
  | .barrier, _, _ => rfl
  | .call, _, _ => rfl

theorem tuplesOfAll_unlabelled : ∀ (ss : List Statement) (ranges : List Segment) (index : Tuple),
    tuplesOfAll ranges index (unlabelledAll ss) = tuplesOfAll ranges index ss
  | [], _, _ => rfl
  | s :: rest, ranges, index => by
    simp only [unlabelledAll, tuplesOfAll, tuples_unlabelled s, tuplesOfAll_unlabelled rest]

end

mutual

theorem fits_unlabelled : ∀ (t : Statement) (ranges : List Segment),
    t.unlabelled.Fits ranges ↔ t.Fits ranges
  | .loop dim _ body, ranges => by
    simp only [unlabelled, Fits, fitsAll_unlabelled body]
  | .kernel _ body, ranges => by
    simp only [unlabelled, Fits, fitsAll_unlabelled body]
  | .segments dim length body, ranges => by
    simp only [unlabelled, Fits, fitsAll_unlabelled body]
  | .barrier, _ => Iff.rfl
  | .call, _ => Iff.rfl

theorem fitsAll_unlabelled : ∀ (ss : List Statement) (ranges : List Segment),
    FitsAll ranges (unlabelledAll ss) ↔ FitsAll ranges ss
  | [], _ => Iff.rfl
  | s :: rest, ranges => by
    simp only [unlabelledAll, FitsAll, fits_unlabelled s, fitsAll_unlabelled rest]

end

end AdaptiveLoops.Statement
