/-
The times that the mean-time model is told of.

A time goes to its own bucket and to its own candidate (`entries_observe`,
`entry_record`), so after any number of them the entry of a candidate in a
bucket is the running mean of its own times there, in the order they came
(`entry_learned`). A time of a candidate that no list of entries reaches is
refused, and leaves the model as it was.
-/
import AdaptiveLoops.Model

namespace AdaptiveLoops

/-- The mean of times, in their order. -/
def RunningMean.ofTimes (times : List Duration) : RunningMean :=
  times.foldl push zero

theorem RunningMean.count_foldl_push (times : List Duration) (m : RunningMean) :
    (times.foldl push m).count = m.count + times.length := by
  induction times generalizing m with
  | nil => rfl
  | cons elapsed times ih =>
    rw [List.foldl_cons, ih, count_push, List.length_cons]
    omega

namespace MeanTime

/-! ## One time -/

theorem lookup_put (bucket : List Nat) (entries : List RunningMean) :
    ∀ buckets : List (List Nat × List RunningMean), (put bucket entries buckets).lookup bucket = some entries
  | [] => by simp [put]
  | (b, es) :: rest => by
    unfold put
    split
    · next hsame => simp [hsame]
    · next hother =>
      have hnot : (bucket == b) = false := by simpa using Ne.symm hother
      rw [List.lookup_cons, hnot]
      exact lookup_put bucket entries rest

theorem entries_observe (m : MeanTime) (features : Features) (candidate : Nat) (elapsed : Duration) :
    (m.observe features candidate elapsed).entries features.bucket =
      record (m.entries features.bucket) candidate elapsed := by
  simp only [MeanTime.entries, observe, lookup_put, Option.getD_some]

theorem lookup_put_of_ne {bucket other : List Nat} (hne : other ≠ bucket) (entries : List RunningMean) :
    ∀ buckets : List (List Nat × List RunningMean),
      (put bucket entries buckets).lookup other = buckets.lookup other
  | [] => by simp [put, hne]
  | (b, es) :: rest => by
    unfold put
    split
    · next hsame =>
      have hnot : (other == b) = false := by simpa [hsame] using hne
      rw [List.lookup_cons, List.lookup_cons, hnot]
    · next hother => rw [List.lookup_cons, List.lookup_cons, lookup_put_of_ne hne entries rest]

theorem entries_observe_of_ne (m : MeanTime) {features : Features} {bucket : List Nat} (candidate : Nat)
    (elapsed : Duration) (hne : bucket ≠ features.bucket) :
    (m.observe features candidate elapsed).entries bucket = m.entries bucket := by
  simp only [MeanTime.entries, observe, lookup_put_of_ne hne]

theorem entry_padded (entries : List RunningMean) (count c : Nat) :
    entry (entries ++ List.replicate count .zero) c = entry entries c := by
  unfold entry
  rw [List.getElem?_append]
  split
  · rfl
  · next hge =>
    rw [List.getElem?_eq_none (Nat.not_lt.1 hge), List.getElem?_replicate]
    split <;> rfl

theorem lt_length_padded (entries : List RunningMean) (candidate : Nat) :
    candidate < (entries ++ List.replicate (candidate + 1 - entries.length) RunningMean.zero).length := by
  rw [List.length_append, List.length_replicate]
  omega

/-- `record`, stopping where there is no entry for the candidate. -/
def checkedRecord (entries : List RunningMean) (candidate : Nat) (elapsed : Duration) :
    Option (List RunningMean) :=
  let padded := entries ++ List.replicate (candidate + 1 - entries.length) .zero
  match padded[candidate]? with
  | some e => some (padded.set candidate (e.push elapsed))
  | none => none

/-- Empty entries are added up to the candidate, so there is one for it. -/
theorem checkedRecord_eq (entries : List RunningMean) (candidate : Nat) (elapsed : Duration) :
    checkedRecord entries candidate elapsed = some (record entries candidate elapsed) := by
  have hlength := lt_length_padded entries candidate
  simp only [checkedRecord, record, List.getElem?_eq_getElem hlength]
  rw [List.modify_eq_set, List.getElem?_eq_getElem hlength, Option.getD_some]

/-- **A time is recorded for its own candidate.** -/
theorem entry_record (entries : List RunningMean) (candidate : Nat) (elapsed : Duration) (c : Nat) :
    entry (record entries candidate elapsed) c =
      if c = candidate then (entry entries candidate).push elapsed else entry entries c := by
  have hlength := lt_length_padded entries candidate
  have hpadded := entry_padded entries (candidate + 1 - entries.length) c
  simp only [record]
  split
  · next heq =>
    subst heq
    rw [← hpadded]
    simp only [entry, List.getElem?_modify_eq, List.getElem?_eq_getElem hlength]
    rfl
  · next hne =>
    rw [← hpadded]
    simp only [entry, List.getElem?_modify_ne _ _ (Ne.symm hne)]

theorem seen_record (entries : List RunningMean) (candidate : Nat) (elapsed : Duration) (c : Nat) :
    seen (record entries candidate elapsed) c = (c == candidate || seen entries c) := by
  unfold seen
  rw [entry_record]
  split
  · next heq => simp [heq]
  · next hne => simp [hne]

/-! ## Any number of times -/

/-- A time that the model is told of. -/
structure Observation where
  features : Features
  candidate : Nat
  elapsed : Duration

/-- The entries up to the candidate fit into memory. -/
def Observation.HasRoom (o : Observation) : Prop :=
  o.candidate < Memory.capacity 16

instance (o : Observation) : Decidable o.HasRoom :=
  inferInstanceAs (Decidable (_ < _))

/-- The time is one of a candidate in a bucket, and was not refused. -/
def Observation.IsOf (bucket : List Nat) (candidate : Nat) (o : Observation) : Prop :=
  o.HasRoom ∧ o.candidate = candidate ∧ o.features.bucket = bucket

instance (bucket : List Nat) (candidate : Nat) : DecidablePred (Observation.IsOf bucket candidate) :=
  fun _ => inferInstanceAs (Decidable (_ ∧ _))

/-- The model after it was told of a time. What is refused stops the call, and changes nothing. -/
def learn (m : MeanTime) (o : Observation) : MeanTime :=
  match m.observed? o.features o.candidate o.elapsed with
  | .ok m' => m'
  | .error _ => m

def learned (os : List Observation) : MeanTime :=
  os.foldl learn .empty

/-- The times of a candidate in a bucket. -/
def times (os : List Observation) (bucket : List Nat) (candidate : Nat) : List Duration :=
  (os.filter (Observation.IsOf bucket candidate)).map (·.elapsed)

theorem learn_eq (m : MeanTime) (o : Observation) :
    m.learn o = if o.HasRoom then m.observe o.features o.candidate o.elapsed else m := by
  have hcapacity : Memory.capacity 16 < UInt64.size := by decide
  unfold learn observed?
  by_cases hroom : o.HasRoom
  · have hlt : o.candidate < Memory.capacity 16 := hroom
    have hsize : ¬ UInt64.size ≤ o.candidate + 1 := by omega
    have hfits : ¬ Memory.capacity 16 < o.candidate + 1 := by omega
    rw [if_neg hsize, if_neg hfits, if_pos hroom]
  · have hge : Memory.capacity 16 ≤ o.candidate := Nat.not_lt.1 hroom
    rw [if_pos (Nat.lt_succ_of_le hge), if_neg hroom]
    by_cases hsize : UInt64.size ≤ o.candidate + 1
    · rw [if_pos hsize]
    · rw [if_neg hsize]

theorem entry_learn (m : MeanTime) (o : Observation) (bucket : List Nat) (c : Nat) :
    entry ((m.learn o).entries bucket) c =
      if o.IsOf bucket c then (entry (m.entries bucket) c).push o.elapsed else entry (m.entries bucket) c := by
  rw [learn_eq]
  unfold Observation.IsOf
  by_cases hroom : o.HasRoom
  · simp only [if_pos hroom]
    by_cases hbucket : o.features.bucket = bucket
    · subst hbucket
      rw [entries_observe, entry_record]
      by_cases hc : c = o.candidate
      · simp [hc, hroom]
      · simp [hc, Ne.symm hc]
    · rw [entries_observe_of_ne _ _ _ (Ne.symm hbucket)]
      simp [hbucket]
  · simp [hroom]

/-- **An entry is the mean of the times of its candidate in its bucket.** -/
theorem entry_foldl_learn (os : List Observation) (m : MeanTime) (bucket : List Nat) (c : Nat) :
    entry ((os.foldl learn m).entries bucket) c =
      (times os bucket c).foldl RunningMean.push (entry (m.entries bucket) c) := by
  induction os generalizing m with
  | nil => rfl
  | cons o os ih =>
    rw [List.foldl_cons, ih, entry_learn]
    unfold times
    by_cases hof : o.IsOf bucket c
    · simp [hof]
    · simp [hof]

theorem entry_learned (os : List Observation) (bucket : List Nat) (c : Nat) :
    entry ((learned os).entries bucket) c = .ofTimes (times os bucket c) :=
  entry_foldl_learn os .empty bucket c

theorem seen_learned (os : List Observation) (bucket : List Nat) (c : Nat) :
    seen ((learned os).entries bucket) c = true ↔ ∃ o ∈ os, o.IsOf bucket c := by
  unfold seen
  rw [entry_learned, RunningMean.ofTimes, RunningMean.count_foldl_push]
  simp [RunningMean.zero, times, List.length_pos_iff, List.filter_eq_nil_iff]

end MeanTime

end AdaptiveLoops
