/-
What the statistics of a region and its mean-time model learn from the same
samples.

A sample is counted twice, in the entry of its candidate in the statistics
and in that of its candidate and its bucket in the model. The two keep in
step: over all buckets the model has as many times of a candidate as the
statistics have samples (`Counted.reportAll`), and while all samples fall
into one bucket the entries there are those of the statistics
(`Matches.reportAll`). Both look for the smallest mean from the first
candidate on, so they find the same one (`fastest?_eq`).
-/
import AdaptiveLoops.Proofs.Model.Picks
import AdaptiveLoops.Proofs.Model.Times
import AdaptiveLoops.Proofs.Region.Conservation
import Mathlib.Algebra.GroupWithZero.Nat

namespace AdaptiveLoops

/-- A sample as a region reports it. -/
structure Sample where
  context : Context
  elapsed : Duration

namespace Region

variable {α : Type} [Model α]

/-- The region after it reported samples. -/
def reportAll (r : Region α) (samples : List Sample) : Region α :=
  samples.foldl (fun r s => r.report s.context s.elapsed) r

end Region

namespace MeanTime

/-! ## All buckets together -/

/-- The number of times of a candidate, in any bucket. -/
def countIn (buckets : List (List Nat × List RunningMean)) (c : Nat) : Nat :=
  (buckets.map fun b => (entry b.2 c).count).sum

theorem count_entry_record (es : List RunningMean) (candidate : Nat) (elapsed : Duration) (c : Nat) :
    (entry (record es candidate elapsed) c).count = (entry es c).count + if candidate = c then 1 else 0 := by
  rw [entry_record]
  by_cases hc : c = candidate
  · simp [hc]
  · simp [hc, Ne.symm hc]

theorem countIn_put (bucket : List Nat) (candidate : Nat) (elapsed : Duration) (c : Nat) :
    ∀ buckets : List (List Nat × List RunningMean),
      countIn (put bucket (record ((buckets.lookup bucket).getD []) candidate elapsed) buckets) c =
        countIn buckets c + if candidate = c then 1 else 0
  | [] => by
    have hempty : (entry [] c).count = 0 := rfl
    simp [countIn, put, count_entry_record, hempty]
  | (b, es) :: rest => by
    unfold put
    split
    · next hsame =>
      simp only [hsame, List.lookup_cons_self, Option.getD_some, countIn, List.map_cons, List.sum_cons,
        count_entry_record]
      omega
    · next hother =>
      have hnot : (bucket == b) = false := by simpa using Ne.symm hother
      have hrest := countIn_put bucket candidate elapsed c rest
      rw [List.lookup_cons, hnot]
      simp only [countIn, List.map_cons, List.sum_cons] at hrest ⊢
      omega

theorem countIn_observe (m : MeanTime) (features : Features) (candidate : Nat) (elapsed : Duration) (c : Nat) :
    countIn (m.observe features candidate elapsed).buckets c =
      countIn m.buckets c + if candidate = c then 1 else 0 :=
  countIn_put features.bucket candidate elapsed c m.buckets

end MeanTime

/-! ## The smallest mean -/

open MeanTime (entry seen best?)

/-- What `RegionStats.better` keeps of the best candidate: its number and its mean. -/
def withMean (entries : List RunningMean) (best : Option Nat) : Option (Nat × Binary64) :=
  best.map fun b => (b, (entry entries b).mean)

/-- The two searches take one step alike. -/
theorem better_withMean {entries : List RunningMean} {index : Nat} {s : PolicyStats}
    (h : entry entries index = s.timing) (best : Option Nat) :
    RegionStats.better (withMean entries best) index s = withMean entries (MeanTime.better entries best index) := by
  have hseen : seen entries index = true ↔ ¬ s.samples = 0 := by
    simp [seen, h, PolicyStats.samples, Nat.pos_iff_ne_zero]
  unfold RegionStats.better MeanTime.better
  by_cases hzero : s.samples = 0
  · rw [if_pos hzero, if_neg fun hs => hseen.1 hs hzero]
  · rw [if_neg hzero, if_pos (hseen.2 hzero)]
    cases best with
    | none => simp [withMean, h]
    | some b =>
      simp only [withMean, Option.map_some, h]
      split
      · simp [h]
      · rfl

theorem fastestFrom_eq {entries : List RunningMean} : ∀ {stats : List PolicyStats} {index : Nat} (best : Option Nat),
    (∀ (i : Nat) s, stats[i]? = some s → entry entries (index + i) = s.timing) →
      RegionStats.fastestFrom (withMean entries best) index stats =
        (List.range' index stats.length).foldl (MeanTime.better entries) best
  | [], index, best, _ => by
    cases best <;> rfl
  | s :: stats, index, best, h => by
    have hrest : ∀ (i : Nat) s', stats[i]? = some s' → entry entries (index + 1 + i) = s'.timing := by
      intro i s' hs'
      rw [Nat.add_assoc, Nat.add_comm 1 i]
      exact h (i + 1) s' hs'
    have hfirst : entry entries index = s.timing := h 0 s rfl
    rw [RegionStats.fastestFrom, better_withMean hfirst, fastestFrom_eq _ hrest]
    rfl

/-- **Statistics and model find the same fastest candidate**, from the same entries. -/
theorem fastest?_eq {stats : RegionStats} {entries : List RunningMean}
    (h : ∀ (c : Nat) s, stats.policies[c]? = some s → entry entries c = s.timing) :
    stats.fastest? = best? entries stats.policies.length := by
  have hscan := @fastestFrom_eq entries stats.policies 0 none (by simpa using h)
  rw [← List.range_eq_range'] at hscan
  exact hscan

/-! ## Samples reported to a region -/

namespace Region

/-- Over all buckets the model has as many times of a candidate as the statistics have samples. -/
def Counted (r : Region MeanTime) : Prop :=
  ∀ (c : Nat) s, r.stats[c]? = some s → MeanTime.countIn r.model.buckets c = s.samples

/-- In the bucket the model has the entries of the statistics. -/
def Matches (bucket : List Nat) (r : Region MeanTime) : Prop :=
  ∀ (c : Nat) s, r.stats[c]? = some s → entry (r.model.entries bucket) c = s.timing

theorem getElem?_report {r : Region MeanTime} {context : Context} {elapsed : Duration} {c : Nat} {s : PolicyStats}
    (h : (r.report context elapsed).stats[c]? = some s) : ∃ before, r.stats[c]? = some before ∧
      s = if c = context.candidate then before.record elapsed else before := by
  simp only [report, List.getElem?_modify, Option.map_eq_map, Option.map_eq_some_iff] at h
  obtain ⟨before, hbefore, hs⟩ := h
  refine ⟨before, hbefore, ?_⟩
  by_cases hc : c = context.candidate
  · simp [hc, ← hs]
  · simp [hc, Ne.symm hc, ← hs]

theorem Counted.report {r : Region MeanTime} (h : r.Counted) (context : Context) (elapsed : Duration) :
    (r.report context elapsed).Counted := by
  intro c s hs
  obtain ⟨before, hbefore, rfl⟩ := getElem?_report hs
  refine (MeanTime.countIn_observe r.model context.features context.candidate elapsed c).trans ?_
  rw [h c before hbefore]
  by_cases hc : c = context.candidate
  · simp [hc, PolicyStats.record, PolicyStats.samples]
  · simp [hc, Ne.symm hc]

theorem Matches.report {r : Region MeanTime} {context : Context} (h : r.Matches context.features.bucket)
    (elapsed : Duration) : (r.report context elapsed).Matches context.features.bucket := by
  intro c s hs
  obtain ⟨before, hbefore, rfl⟩ := getElem?_report hs
  have hentries : (r.report context elapsed).model.entries context.features.bucket =
      MeanTime.record (r.model.entries context.features.bucket) context.candidate elapsed :=
    MeanTime.entries_observe r.model context.features context.candidate elapsed
  rw [hentries, MeanTime.entry_record, h c before hbefore]
  by_cases hc : c = context.candidate
  · subst hc
    simp [PolicyStats.record, h _ before hbefore]
  · simp [hc]

theorem Counted.reportAll {r : Region MeanTime} (h : r.Counted) (samples : List Sample) :
    (r.reportAll samples).Counted := by
  induction samples generalizing r with
  | nil => exact h
  | cons s samples ih => exact ih (h.report s.context s.elapsed)

theorem Matches.reportAll {r : Region MeanTime} {bucket : List Nat} (h : r.Matches bucket) {samples : List Sample}
    (hbucket : ∀ s ∈ samples, s.context.features.bucket = bucket) : (r.reportAll samples).Matches bucket := by
  induction samples generalizing r with
  | nil => exact h
  | cons s samples ih =>
    rw [List.forall_mem_cons] at hbucket
    obtain ⟨rfl, hrest⟩ := hbucket
    exact ih (h.report s.elapsed) hrest

theorem length_reportAll (r : Region MeanTime) (samples : List Sample) :
    (r.reportAll samples).stats.length = r.stats.length := by
  induction samples generalizing r with
  | nil => rfl
  | cons s samples ih => exact (ih _).trans (List.length_modify ..)

section
variable {site : CallSite} {policies : List Policy} {config : Config} {r : Region MeanTime}
  (hcreate : create site policies MeanTime.empty config = .ok r)
include hcreate

theorem ne_nil_of_create : policies ≠ [] := by
  rintro rfl
  cases hcreate

theorem timing_of_create {c : Nat} {s : PolicyStats} (hs : r.stats[c]? = some s) : s.timing = .zero := by
  obtain ⟨-, -, hstats, -⟩ := create_eq_ok hcreate
  rw [hstats, List.getElem?_map, Option.map_eq_some_iff] at hs
  obtain ⟨policy, -, rfl⟩ := hs
  rfl

theorem create_counted : r.Counted := by
  intro c s hs
  obtain ⟨-, -, -, -, hmodel, -⟩ := create_eq_ok hcreate
  rw [hmodel, PolicyStats.samples, timing_of_create hcreate hs]
  rfl

theorem create_matches (bucket : List Nat) : r.Matches bucket := by
  intro c s hs
  obtain ⟨-, -, -, -, hmodel, -⟩ := create_eq_ok hcreate
  rw [hmodel, timing_of_create hcreate hs]
  rfl

/--
**The model and the statistics learn the same.** Whatever samples a new region
reports, in any order of candidates, the model has as many times of each
candidate in all its buckets as the statistics have samples. If all samples
fall into one bucket, the entry of a candidate there is that of the
statistics, count and mean; and once every candidate has a sample, the pick
for the bucket is the one that the statistics show as the fastest, whatever
is outstanding.
-/
theorem reportAll_learns (samples : List Sample) :
    let after := r.reportAll samples
    (∀ c < policies.length, ∃ s, after.statistics.get? c = some s ∧
      MeanTime.countIn after.model.buckets c = s.samples) ∧
    ∀ features : Features, (∀ s ∈ samples, s.context.features.bucket = features.bucket) →
      (∀ c < policies.length, ∃ s, after.statistics.get? c = some s ∧
        entry (after.model.entries features.bucket) c = s.timing) ∧
      ((∀ s ∈ after.statistics.policies, 0 < s.samples) → ∀ pending : List Nat,
        pending.length = policies.length →
          after.statistics.fastest? = some (Model.select after.model features pending).1) := by
  intro after
  obtain ⟨-, -, hstats, -⟩ := create_eq_ok hcreate
  have hlength : after.stats.length = policies.length := by
    rw [length_reportAll, hstats, List.length_map]
  have hsome : ∀ c < policies.length, ∃ s, after.stats[c]? = some s := fun c hc =>
    ⟨_, List.getElem?_eq_getElem (hlength ▸ hc)⟩
  refine ⟨fun c hc => ?_, fun features hbucket => ?_⟩
  · obtain ⟨s, hs⟩ := hsome c hc
    exact ⟨s, hs, (create_counted hcreate).reportAll samples c s hs⟩
  · have hmatches : after.Matches features.bucket := (create_matches hcreate _).reportAll hbucket
    refine ⟨fun c hc => ?_, fun hall pending hpending => ?_⟩
    · obtain ⟨s, hs⟩ := hsome c hc
      exact ⟨s, hs, hmatches c s hs⟩
    · have hseen : ∀ c < pending.length, seen (after.model.entries features.bucket) c = true := by
        intro c hc
        obtain ⟨s, hs⟩ := hsome c (hpending ▸ hc)
        rw [seen, hmatches c s hs]
        exact decide_eq_true (hall s (List.mem_of_getElem? hs))
      have hcount : 0 < pending.length := hpending ▸ List.length_pos_iff.2 (ne_nil_of_create hcreate)
      have hfastest : after.statistics.fastest? = best? (after.model.entries features.bucket) after.stats.length :=
        fastest?_eq hmatches
      rw [hfastest, hlength, ← hpending]
      exact MeanTime.best?_of_seen hcount hseen

end

/-- Candidate 1 is reported before candidate 0, which has a launch outstanding at the end. -/
theorem reportAll_learns_pair :
    let sample (candidate : Nat) (elapsed : Duration) : Sample := ⟨⟨0, [4096.0], candidate, .sequential⟩, elapsed⟩
    let samples := [sample 1 ⟨3000000⟩, sample 0 ⟨8000000⟩, sample 1 ⟨5000000⟩]
    ∃ r, create (.named "saxpy") [.sequential, .threaded 4] MeanTime.empty .default = .ok r ∧
      let after := r.reportAll samples
      (∀ s ∈ samples, s.context.features.bucket = Features.bucket [4096.0]) ∧
      (∀ s ∈ after.statistics.policies, 0 < s.samples) ∧ [1, 0].length = 2 ∧
      (∃ s, after.statistics.get? 1 = some s ∧ MeanTime.countIn after.model.buckets 1 = s.samples) ∧
      (∃ s, after.statistics.get? 1 = some s ∧ entry (after.model.entries (Features.bucket [4096.0])) 1 = s.timing) ∧
      after.statistics.fastest? = some (Model.select after.model [4096.0] [1, 0]).1 := by
  intro sample samples
  obtain ⟨r, hr⟩ : ∃ r, create (.named "saxpy") [.sequential, .threaded 4] MeanTime.empty .default = .ok r := ⟨_, rfl⟩
  have hbucket : ∀ s ∈ samples, s.context.features.bucket = Features.bucket [4096.0] := by
    simp [samples, sample]
  have hall : ∀ s ∈ (r.reportAll samples).statistics.policies, 0 < s.samples := by
    cases hr
    decide +kernel
  obtain ⟨hcounts, hlearned⟩ := reportAll_learns hr samples
  obtain ⟨hentries, hfastest⟩ := hlearned [4096.0] hbucket
  exact ⟨r, hr, hbucket, hall, rfl, hcounts 1 (by decide), hentries 1 (by decide), hfastest hall [1, 0] rfl⟩

end Region

end AdaptiveLoops
