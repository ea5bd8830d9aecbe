/-
What the mean-time model picks from the entries of a bucket.

A pick goes by three rules, one after the other: the first candidate with
neither a time nor an outstanding launch, the first of smallest mean among
those with a time, and candidate 0 (`pick_selects`). It is always one of the
candidates (`pick_lt`), and every entry that it looks at is there
(`checkedPick_eq`).
-/
import AdaptiveLoops.Model

namespace AdaptiveLoops.MeanTime

variable {entries : List RunningMean}

/-! ## The fastest candidate -/

/-- The first candidate of smallest mean, among those with a time. -/
structure FastestSeen (entries : List RunningMean) (count best : Nat) : Prop where
  lt : best < count
  timed : seen entries best = true
  least : ∀ c < count, seen entries c = true →
    (entry entries best).mean.order ≤ (entry entries c).mean.order
  first : ∀ c < best, seen entries c = true →
    (entry entries best).mean.order < (entry entries c).mean.order

/-- What is the best of the first candidates: the fastest, or none where none has a time. -/
def IsBest (entries : List RunningMean) (count : Nat) : Option Nat → Prop
  | none => ∀ c < count, seen entries c = false
  | some best => FastestSeen entries count best

theorem FastestSeen.next {count best : Nat} (h : FastestSeen entries count best)
    (hnext : seen entries count = true → (entry entries best).mean.order ≤ (entry entries count).mean.order) :
    FastestSeen entries (count + 1) best := by
  refine ⟨Nat.lt_succ_of_lt h.lt, h.timed, fun c hc hseen => ?_, h.first⟩
  rcases Nat.lt_succ_iff_lt_or_eq.1 hc with hlt | rfl
  · exact h.least c hlt hseen
  · exact hnext hseen

theorem FastestSeen.last {count : Nat} (hseen : seen entries count = true)
    (hless : ∀ c < count, seen entries c = true →
      (entry entries count).mean.order < (entry entries c).mean.order) :
    FastestSeen entries (count + 1) count := by
  refine ⟨Nat.lt_succ_self count, hseen, fun c hc hc' => ?_, hless⟩
  rcases Nat.lt_succ_iff_lt_or_eq.1 hc with hlt | rfl
  · exact Int.le_of_lt (hless c hlt hc')
  · exact Int.le_refl _

theorem IsBest.better {count : Nat} {best : Option Nat} (h : IsBest entries count best) :
    IsBest entries (count + 1) (better entries best count) := by
  unfold MeanTime.better
  by_cases hseen : seen entries count = true
  · rw [if_pos hseen]
    cases best with
    | none => exact FastestSeen.last hseen fun c hc hc' => absurd (h c hc) (by simp [hc'])
    | some best =>
      by_cases hless : (entry entries count).mean.order < (entry entries best).mean.order
      · simp only [if_pos hless]
        exact FastestSeen.last hseen fun c hc hc' => Int.lt_of_lt_of_le hless (h.least c hc hc')
      · simp only [if_neg hless]
        exact FastestSeen.next h fun _ => Int.not_lt.1 hless
  · rw [if_neg hseen]
    cases best with
    | none =>
      intro c hc
      rcases Nat.lt_succ_iff_lt_or_eq.1 hc with hlt | rfl
      · exact h c hlt
      · simpa using hseen
    | some best => exact FastestSeen.next h fun hseen' => absurd hseen' hseen

theorem best?_succ (entries : List RunningMean) (count : Nat) :
    best? entries (count + 1) = better entries (best? entries count) count := by
  rw [best?, List.range_succ, List.foldl_append]
  rfl

/-- **The best is the fastest**, and there is none only where no candidate has a time. -/
theorem best?_isBest (entries : List RunningMean) (count : Nat) :
    IsBest entries count (best? entries count) := by
  induction count with
  | zero =>
    intro c hc
    exact absurd hc (Nat.not_lt_zero c)
  | succ count ih =>
    rw [best?_succ]
    exact ih.better

/-! ## Picks -/

/-- A candidate with neither a time nor an outstanding launch. -/
def Untried (observed : Nat → Prop) (pending : List Nat) (c : Nat) : Prop :=
  ¬ observed c ∧ pending[c]? = some 0

/-- What is picked where `observed` says which candidates have a time, and `mean` how long they take. -/
structure Selects (observed : Nat → Prop) (mean : Nat → Int) (pending : List Nat) (pick : Nat) : Prop where
  lt : pick < pending.length
  /-- The first candidate that is untried comes first. -/
  untried : (∃ c < pending.length, Untried observed pending c) →
    Untried observed pending pick ∧ ∀ c < pick, ¬ Untried observed pending c
  /-- Where there is none, the first of smallest mean does. -/
  fastest : (¬ ∃ c < pending.length, Untried observed pending c) → (∃ c < pending.length, observed c) →
    observed pick ∧ (∀ c < pending.length, observed c → mean pick ≤ mean c) ∧
      ∀ c < pick, observed c → mean pick < mean c
  fallback : (¬ ∃ c < pending.length, Untried observed pending c) → (¬ ∃ c < pending.length, observed c) →
    pick = 0

namespace Selects

variable {observed : Nat → Prop} {mean : Nat → Int} {pending : List Nat} {pick : Nat}

theorem of_untried (hlt : pick < pending.length) (huntried : Untried observed pending pick)
    (hfirst : ∀ c < pick, ¬ Untried observed pending c) : Selects observed mean pending pick where
  lt := hlt
  untried _ := ⟨huntried, hfirst⟩
  fastest hnone := absurd ⟨pick, hlt, huntried⟩ hnone
  fallback hnone := absurd ⟨pick, hlt, huntried⟩ hnone

theorem of_fastest (hnone : ¬ ∃ c < pending.length, Untried observed pending c) (hlt : pick < pending.length)
    (hobserved : observed pick) (hleast : ∀ c < pending.length, observed c → mean pick ≤ mean c)
    (hfirst : ∀ c < pick, observed c → mean pick < mean c) : Selects observed mean pending pick where
  lt := hlt
  untried hexists := absurd hexists hnone
  fastest _ _ := ⟨hobserved, hleast, hfirst⟩
  fallback _ hunobserved := absurd ⟨pick, hlt, hobserved⟩ hunobserved

theorem of_unobserved (hnone : ¬ ∃ c < pending.length, Untried observed pending c) (hlt : 0 < pending.length)
    (hunobserved : ¬ ∃ c < pending.length, observed c) : Selects observed mean pending 0 where
  lt := hlt
  untried hexists := absurd hexists hnone
  fastest _ hexists := absurd hexists hunobserved
  fallback _ _ := rfl

end Selects

/-- **A pick goes by the three rules.** -/
theorem pick_selects (entries : List RunningMean) {pending : List Nat} (hpending : 0 < pending.length) :
    Selects (fun c => seen entries c = true) (fun c => (entry entries c).mean.order) pending
      (pick entries pending) := by
  have htest : ∀ c, (!seen entries c && pending[c]? == some 0) = true ↔
      Untried (fun c => seen entries c = true) pending c := by
    intro c
    simp [Untried]
  unfold pick
  split
  · next untried hfind =>
    rw [List.find?_range_eq_some] at hfind
    obtain ⟨huntried, hlt, hfirst⟩ := hfind
    refine .of_untried (List.mem_range.1 hlt) ((htest untried).1 huntried) fun c hc => ?_
    rw [← htest, Bool.not_eq_true, ← Bool.not_eq_true']
    exact hfirst c hc
  · next hfind =>
    have hnone : ¬ ∃ c < pending.length, Untried (fun c => seen entries c = true) pending c := by
      rintro ⟨c, hc, huntried⟩
      exact List.find?_eq_none.1 hfind c (List.mem_range.2 hc) ((htest c).2 huntried)
    have hbest := best?_isBest entries pending.length
    cases hbest? : best? entries pending.length with
    | some best =>
      rw [hbest?] at hbest
      exact .of_fastest hnone hbest.lt hbest.timed hbest.least hbest.first
    | none =>
      rw [hbest?] at hbest
      -- candidate 0 has no time either, so it is the first that has none
      have hzero : (List.range pending.length).find? (fun c => !seen entries c) = some 0 := by
        rw [List.find?_range_eq_some]
        simp [hbest 0 hpending, hpending]
      rw [hzero]
      refine .of_unobserved hnone hpending ?_
      rintro ⟨c, hc, hseen⟩
      rw [hbest c hc] at hseen
      cases hseen

/-- **A pick is one of the candidates**, if there is any. -/
theorem pick_lt (entries : List RunningMean) {pending : List Nat} (h : 0 < pending.length) :
    pick entries pending < pending.length :=
  (pick_selects entries h).lt

theorem best?_of_seen {pending : List Nat} (hpending : 0 < pending.length)
    (hseen : ∀ c < pending.length, seen entries c = true) :
    best? entries pending.length = some (pick entries pending) := by
  have huntried : (List.range pending.length).find? (fun c => !seen entries c && pending[c]? == some 0) = none := by
    rw [List.find?_eq_none]
    intro c hc
    simp [hseen c (List.mem_range.1 hc)]
  have hbest := best?_isBest entries pending.length
  rw [pick, huntried]
  cases hbest? : best? entries pending.length with
  | some best => rfl
  | none =>
    rw [hbest?] at hbest
    have hnone := hbest 0 hpending
    rw [hseen 0 hpending] at hnone
    cases hnone

/-! ## Picks with every entry looked up -/

/-- `better`, stopping where an entry that it compares is not there. -/
def checkedBetter (entries : List RunningMean) (best : Option Nat) (candidate : Nat) : Option (Option Nat) :=
  if seen entries candidate then
    match best with
    | none => some (some candidate)
    | some b =>
      match entries[candidate]?, entries[b]? with
      | some mine, some its => some (if mine.mean.order < its.mean.order then some candidate else some b)
      | _, _ => none
  else some best

def checkedBest (entries : List RunningMean) (count : Nat) : Option (Option Nat) :=
  (List.range count).foldlM (checkedBetter entries) none

/-- `pick`, stopping where an entry that it compares is not there. -/
def checkedPick (entries : List RunningMean) (pending : List Nat) : Option Nat :=
  match (List.range pending.length).find? fun c => !seen entries c && pending[c]? == some 0 with
  | some untried => some untried
  | none =>
    (checkedBest entries pending.length).map fun best =>
      match best with
      | some best => best
      | none => ((List.range pending.length).find? fun c => !seen entries c).getD 0

def checkedSelect (m : MeanTime) (features : Features) (pending : List Nat) : Option Nat :=
  checkedPick (m.entries features.bucket) pending

theorem getElem?_of_seen {c : Nat} (h : seen entries c = true) : entries[c]? = some (entry entries c) := by
  unfold seen entry at h
  unfold entry
  cases hget : entries[c]? with
  | none =>
    rw [hget] at h
    cases h
  | some e => rfl

theorem checkedBetter_eq {best : Option Nat} (hbest : ∀ b ∈ best, seen entries b = true) (candidate : Nat) :
    checkedBetter entries best candidate = some (better entries best candidate) := by
  unfold checkedBetter better
  by_cases hseen : seen entries candidate = true
  · rw [if_pos hseen, if_pos hseen]
    cases best with
    | none => rfl
    | some b => simp only [getElem?_of_seen hseen, getElem?_of_seen (hbest b rfl)]
  · rw [if_neg hseen, if_neg hseen]

theorem checkedBest_eq (entries : List RunningMean) (count : Nat) :
    checkedBest entries count = some (best? entries count) := by
  induction count with
  | zero => rfl
  | succ count ih =>
    have hbest : ∀ b ∈ best? entries count, seen entries b = true := by
      intro b hb
      have h := best?_isBest entries count
      rw [Option.mem_def.1 hb] at h
      exact h.timed
    rw [checkedBest] at ih
    rw [checkedBest, List.range_succ, List.foldlM_append, ih, best?_succ]
    simpa using checkedBetter_eq hbest count

/-- **No pick looks at an entry that is not there.** -/
theorem checkedPick_eq (entries : List RunningMean) (pending : List Nat) :
    checkedPick entries pending = some (pick entries pending) := by
  unfold checkedPick pick
  rw [checkedBest_eq]
  cases (List.range pending.length).find? fun c => !seen entries c && pending[c]? == some 0 with
  | some untried => rfl
  | none => rfl

end AdaptiveLoops.MeanTime
