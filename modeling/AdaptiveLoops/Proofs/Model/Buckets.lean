/-
What of the past a pick of the mean-time model depends on.

Two models are alike in a bucket if every candidate has the same entry there,
stored or not. They pick the same for all features of the bucket
(`Alike.select`), and they are alike if every candidate was told of the same
times there, in the same order (`alike_learned`). So the times of other
buckets do not count, and neither does the order between candidates.
-/
import AdaptiveLoops.Proofs.Model.Picks
import AdaptiveLoops.Proofs.Model.Times

namespace AdaptiveLoops.MeanTime

/-- Every candidate has the same entry in the bucket, or the empty one. -/
def Alike (bucket : List Nat) (m m' : MeanTime) : Prop :=
  ∀ c, entry (m.entries bucket) c = entry (m'.entries bucket) c

/-! ## Picks -/

section
variable {es es' : List RunningMean} (h : ∀ c, entry es c = entry es' c)
include h

theorem seen_congr (c : Nat) : seen es c = seen es' c := by
  simp only [seen, h]

theorem better_congr : better es = better es' := by
  funext best candidate
  simp only [better, seen_congr h, h]

/-- A pick looks at entries alone, not at how many of them are stored. -/
theorem pick_congr (pending : List Nat) : pick es pending = pick es' pending := by
  simp only [pick, best?, seen_congr h, better_congr h]

end

theorem Alike.select {features : Features} {m m' : MeanTime} (h : Alike features.bucket m m') (pending : List Nat) :
    m.select features pending = m'.select features pending :=
  pick_congr h pending

/-! ## Times -/

/-- The times of a candidate in a bucket that the model was told of, also those it refused. -/
def told (os : List Observation) (bucket : List Nat) (c : Nat) : List Duration :=
  (os.filter fun o => o.candidate = c ∧ o.features.bucket = bucket).map (·.elapsed)

theorem times_eq_told (os : List Observation) (bucket : List Nat) (c : Nat) :
    times os bucket c = if c < Memory.capacity 16 then told os bucket c else [] := by
  unfold times told
  split
  · next hroom =>
    refine congrArg _ (List.filter_congr fun o _ => ?_)
    refine decide_eq_decide.2 (and_iff_right_of_imp ?_)
    rintro ⟨rfl, -⟩
    exact hroom
  · next hfull =>
    rw [List.map_eq_nil_iff, List.filter_eq_nil_iff]
    intro o _ hof
    obtain ⟨hroom, rfl, -⟩ := of_decide_eq_true hof
    exact hfull hroom

/-- **Models that were told the same of a bucket are alike in it.** -/
theorem alike_learned {os os' : List Observation} {bucket : List Nat}
    (h : ∀ c, told os bucket c = told os' bucket c) : Alike bucket (learned os) (learned os') := by
  intro c
  rw [entry_learned, entry_learned, times_eq_told, times_eq_told, h]

theorem told_filter (os : List Observation) (bucket : List Nat) (c : Nat) :
    told (os.filter (·.features.bucket = bucket)) bucket c = told os bucket c := by
  unfold told
  rw [List.filter_filter]
  refine congrArg _ (List.filter_congr fun o _ => ?_)
  simp

theorem told_swap (before after : List Observation) {o o' : Observation} (h : o.candidate ≠ o'.candidate)
    (bucket : List Nat) (c : Nat) :
    told (before ++ o :: o' :: after) bucket c = told (before ++ o' :: o :: after) bucket c := by
  unfold told
  simp only [List.filter_append, List.filter_cons, decide_eq_true_eq]
  by_cases hc : o.candidate = c
  · have hother : ¬ (o'.candidate = c ∧ o'.features.bucket = bucket) := fun hof => h (hc.trans hof.1.symm)
    simp only [if_neg hother]
  · have hother : ¬ (o.candidate = c ∧ o.features.bucket = bucket) := fun hof => hc hof.1
    simp only [if_neg hother]

/--
**Buckets do not interfere.** If every candidate was told of the same times in
the bucket of the features, one model picks as the other does, whatever is
outstanding. So the pick stays the same without the times of all other
buckets, and with the times of two candidates in either order.
-/
theorem select_of_told (features : Features) (pending : List Nat) :
    (∀ os os' : List Observation, (∀ c, told os features.bucket c = told os' features.bucket c) →
      (learned os).select features pending = (learned os').select features pending) ∧
    (∀ os : List Observation, (learned (os.filter (·.features.bucket = features.bucket))).select features pending =
      (learned os).select features pending) ∧
    ∀ (before after : List Observation) (o o' : Observation), o.candidate ≠ o'.candidate →
      (learned (before ++ o :: o' :: after)).select features pending =
        (learned (before ++ o' :: o :: after)).select features pending := by
  have hsame : ∀ {os os' : List Observation}, (∀ c, told os features.bucket c = told os' features.bucket c) →
      (learned os).select features pending = (learned os').select features pending := fun h =>
    (alike_learned h).select pending
  refine ⟨fun os os' h => hsame h, fun os => hsame fun c => told_filter os _ c, ?_⟩
  exact fun before after o o' h => hsame fun c => told_swap before after h _ c

/-- Candidate 1 comes last and candidate 0 before it, or first, where its entry makes room for both. -/
theorem select_of_told_reordered :
    let os : List Observation := [⟨[4096.0], 0, ⟨8000000⟩⟩, ⟨[10.0], 2, ⟨1000000⟩⟩, ⟨[4096.0], 1, ⟨3000000⟩⟩]
    let os' : List Observation := [⟨[4096.0], 1, ⟨3000000⟩⟩, ⟨[4096.0], 0, ⟨8000000⟩⟩, ⟨[10.0], 2, ⟨1000000⟩⟩]
    (∀ c, told os (Features.bucket [4096.0]) c = told os' (Features.bucket [4096.0]) c) ∧
    (learned os).select [4096.0] [0, 0, 1] = (learned os').select [4096.0] [0, 0, 1] := by
  intro os os'
  have hfirst : ∀ c, told os (Features.bucket [4096.0]) c =
      told [⟨[4096.0], 0, ⟨8000000⟩⟩, ⟨[4096.0], 1, ⟨3000000⟩⟩, ⟨[10.0], 2, ⟨1000000⟩⟩] (Features.bucket [4096.0]) c :=
    told_swap [⟨[4096.0], 0, ⟨8000000⟩⟩] [] (by decide) _
  have hsame : ∀ c, told os (Features.bucket [4096.0]) c = told os' (Features.bucket [4096.0]) c := fun c =>
    (hfirst c).trans (told_swap [] [⟨[10.0], 2, ⟨1000000⟩⟩] (by decide) _ c)
  exact ⟨hsame, (select_of_told [4096.0] [0, 0, 1]).1 os os' hsame⟩

end AdaptiveLoops.MeanTime
