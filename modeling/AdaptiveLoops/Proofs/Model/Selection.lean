/-
What the mean-time model picks after the times it was told of.

The rules of a pick look at the entries of a bucket, and these are the means
of the times told. So a pick is settled by the times of every candidate in
the bucket of the features and by what is outstanding (`select_learned`), not
by how the entries came to be stored.
-/
import AdaptiveLoops.Proofs.Model.Picks
import AdaptiveLoops.Proofs.Model.Times

namespace AdaptiveLoops.MeanTime

/-- The model was told of a time of the candidate in the bucket. -/
def Observed (os : List Observation) (bucket : List Nat) (c : Nat) : Prop :=
  ∃ o ∈ os, o.IsOf bucket c

/-- The mean of the times of a candidate in a bucket. -/
def mean (os : List Observation) (bucket : List Nat) (c : Nat) : Binary64 :=
  (RunningMean.ofTimes (times os bucket c)).mean

/--
**What is picked after any times.** The first candidate comes first that has
no time in the bucket and nothing outstanding; where there is none, the first
of smallest mean does, and candidate 0 where no candidate has a time. Every
entry that a pick compares is there, and so is the one that the next time
moves.
-/
theorem select_learned (os : List Observation) (features : Features) {pending : List Nat} (h : pending ≠ []) :
    let m := learned os
    Selects (Observed os features.bucket) (fun c => (mean os features.bucket c).order) pending
      (m.select features pending) ∧
    m.checkedSelect features pending = some (m.select features pending) ∧
    ∀ o : Observation, checkedRecord (m.entries o.features.bucket) o.candidate o.elapsed =
      some (record (m.entries o.features.bucket) o.candidate o.elapsed) := by
  intro m
  have hselects := pick_selects (m.entries features.bucket) (List.length_pos_iff.2 h)
  have hobserved : (fun c => seen (m.entries features.bucket) c = true) = Observed os features.bucket := by
    funext c
    exact propext (seen_learned os features.bucket c)
  simp only [hobserved, m, entry_learned] at hselects
  exact ⟨hselects, checkedPick_eq _ _, fun o => checkedRecord_eq _ _ _⟩

/-- Two candidates with a time and one whose first launch is outstanding, in a bucket that was told of others. -/
theorem select_learned_outstanding :
    let os : List Observation := [⟨[4096.0], 0, ⟨8000000⟩⟩, ⟨[10.0], 2, ⟨1000000⟩⟩, ⟨[4096.0], 1, ⟨3000000⟩⟩]
    [0, 0, 1] ≠ [] ∧
    Selects (Observed os (Features.bucket [4096.0])) (fun c => (mean os (Features.bucket [4096.0]) c).order)
      [0, 0, 1] ((learned os).select [4096.0] [0, 0, 1]) := by
  intro os
  have hsome : [0, 0, 1] ≠ [] := by decide
  exact ⟨hsome, (select_learned os [4096.0] hsome).1⟩

end AdaptiveLoops.MeanTime
