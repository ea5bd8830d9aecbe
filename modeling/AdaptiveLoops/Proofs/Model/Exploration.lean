/-
What the mean-time model picks in one bucket of sizes while nothing is
outstanding.

While the candidates with a time are the first ones, the next one is picked
(`pick_of_few`). Once all have a time the pick is the fastest, and of several
the first (`pick_of_all`).
-/
import AdaptiveLoops.Proofs.Model.Picks
import AdaptiveLoops.Proofs.Model.Times

namespace AdaptiveLoops.MeanTime

variable {entries : List RunningMean}

/-- The first candidate of smallest mean. -/
structure Fastest (entries : List RunningMean) (count best : Nat) : Prop where
  lt : best < count
  least : ∀ c < count, (entry entries best).mean.order ≤ (entry entries c).mean.order
  first : ∀ c < best, (entry entries best).mean.order < (entry entries c).mean.order

section
variable {count tried : Nat} (hseen : ∀ c < count, seen entries c = true ↔ c < tried)
include hseen

/-- **The next candidate is tried**, while there is one that has no time. -/
theorem pick_of_few (htried : tried < count) : pick entries (List.replicate count 0) = tried := by
  have hlength : (List.replicate count 0).length = count := List.length_replicate
  have hselects : Selects (fun c => seen entries c = true) (fun c => (entry entries c).mean.order)
      (List.replicate count 0) (pick entries (List.replicate count 0)) := pick_selects entries (by omega)
  have huntried : Untried (fun c => seen entries c = true) (List.replicate count 0) tried := by
    simp [Untried, hseen tried htried, htried]
  obtain ⟨⟨hpick, -⟩, hfirst⟩ := hselects.untried ⟨tried, by omega, huntried⟩
  have hlt := hselects.lt
  have hge : ¬ pick entries (List.replicate count 0) < tried := fun hbefore =>
    hpick ((hseen _ (by omega)).2 hbefore)
  have hle : ¬ tried < pick entries (List.replicate count 0) := fun hafter => hfirst tried hafter huntried
  omega

/-- **The fastest is picked** once all have a time. -/
theorem pick_of_all (hcount : 0 < count) (htried : count ≤ tried) :
    Fastest entries count (pick entries (List.replicate count 0)) := by
  have hlength : (List.replicate count 0).length = count := List.length_replicate
  have hselects : Selects (fun c => seen entries c = true) (fun c => (entry entries c).mean.order)
      (List.replicate count 0) (pick entries (List.replicate count 0)) := pick_selects entries (by omega)
  have hall : ∀ c < count, seen entries c = true := fun c hc => (hseen c hc).2 (Nat.lt_of_lt_of_le hc htried)
  have hlt := hselects.lt
  have hnone : ¬ ∃ c < (List.replicate count 0).length,
      Untried (fun c => seen entries c = true) (List.replicate count 0) c := by
    rintro ⟨c, hc, huntried⟩
    exact huntried.1 (hall c (hlength ▸ hc))
  obtain ⟨-, hleast, hfirst⟩ := hselects.fastest hnone ⟨0, by omega, hall 0 hcount⟩
  exact ⟨by omega, fun c hc => hleast c (by omega) (hall c hc), fun c hc => hfirst c hc (hall c (by omega))⟩

end

end AdaptiveLoops.MeanTime
