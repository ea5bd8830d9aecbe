/-
The counters of a candidate, kept in three places of a region: its launches
with its variant, its samples and failures with the statistics, and what it
has in flight with the pool.

Each operation of a region touches some of them; the lemmas here say by how
much.
-/
import AdaptiveLoops.Proofs.Pool.Valid
import AdaptiveLoops.Region

namespace AdaptiveLoops.Region

open Device (Stream LaunchId)

variable {α : Type}

/-! ## Counters -/

/-- The launches of a candidate's variant, none where it is not in use. -/
def launchesOf (r : Region α) (candidate : Nat) : Nat :=
  ((r.variant? candidate).map (·.launches)).getD 0

def samplesOf (r : Region α) (candidate : Nat) : Nat :=
  ((r.stats[candidate]?).map (·.samples)).getD 0

def failuresOf (r : Region α) (candidate : Nat) : Nat :=
  ((r.stats[candidate]?).map (·.failures)).getD 0

/-- The launches of a candidate that were reported, well ended or failed. -/
def settledOf (r : Region α) (candidate : Nat) : Nat :=
  r.samplesOf candidate + r.failuresOf candidate

/-- The slots that are armed with a launch of a candidate. -/
def armedOf (r : Region α) (candidate : Nat) : Nat :=
  r.pool.slots.countP (Pool.holds candidate)

variable {r : Region α} {candidate i : Nat}

/-! ## Variants -/

theorem variant?_setVariant (h : candidate < r.variants.length) (v : Variant) :
    (r.setVariant candidate v).variant? i = if candidate = i then some v else r.variant? i := by
  simp only [variant?, setVariant, List.getElem?_set]
  split
  · simp
  · rfl

theorem launchesOf_setVariant (h : candidate < r.variants.length) (v : Variant) :
    (r.setVariant candidate v).launchesOf i = if candidate = i then v.launches else r.launchesOf i := by
  rw [launchesOf, variant?_setVariant h]
  split
  · rfl
  · rfl

theorem lt_of_variant? {v : Variant} (h : r.variant? candidate = some v) :
    candidate < r.variants.length := by
  unfold variant? at h
  by_contra hge
  rw [List.getElem?_eq_none (by omega)] at h
  cases h

/-! ## Statistics -/

theorem settledOf_fail (h : candidate < r.stats.length) :
    (r.fail candidate).settledOf i = r.settledOf i + if candidate = i then 1 else 0 := by
  simp only [settledOf, samplesOf, failuresOf, fail, List.getElem?_modify]
  by_cases hi : candidate = i
  · subst hi
    simp [List.getElem?_eq_getElem h, PolicyStats.fail, PolicyStats.samples]
    omega
  · simp [hi]

section
variable [Model α] {context : Context}

theorem settledOf_report (h : context.candidate < r.stats.length) (elapsed : Duration) :
    (r.report context elapsed).settledOf i = r.settledOf i + if context.candidate = i then 1 else 0 := by
  simp only [settledOf, samplesOf, failuresOf, report, List.getElem?_modify]
  by_cases hi : context.candidate = i
  · subst hi
    simp [List.getElem?_eq_getElem h, PolicyStats.record, PolicyStats.samples]
    omega
  · simp [hi]

theorem account_eq (r : Region α) (c : Collected) :
    ∃ stats model, r.account c = { r with stats, model } ∧ stats.length = r.stats.length := by
  unfold account
  split
  · exact ⟨_, _, rfl, List.length_modify ..⟩
  · exact ⟨_, _, rfl, List.length_modify ..⟩

theorem settledOf_account {c : Collected} (h : c.context.candidate < r.stats.length) :
    (r.account c).settledOf i = r.settledOf i + if c.context.candidate = i then 1 else 0 := by
  unfold account
  split
  · exact settledOf_report h _
  · exact settledOf_fail h

theorem foldl_account_eq : ∀ (done : List Collected) (r : Region α),
    ∃ stats model, done.foldl account r = { r with stats, model } ∧ stats.length = r.stats.length
  | [], r => ⟨_, _, rfl, rfl⟩
  | c :: rest, r => by
    obtain ⟨stats, model, hc, hlength⟩ := r.account_eq c
    obtain ⟨stats', model', hrest, hlength'⟩ := foldl_account_eq rest (r.account c)
    rw [hc] at hrest hlength'
    refine ⟨stats', model', ?_, hlength'.trans hlength⟩
    rw [List.foldl_cons, hc, hrest]

/-- **Every launch that was collected is reported once**, for the candidate it ran under. -/
theorem settledOf_foldl_account : ∀ {done : List Collected} {r : Region α},
    (∀ c ∈ done, c.context.candidate < r.stats.length) →
      (done.foldl account r).settledOf i = r.settledOf i + done.countP (·.context.candidate == i)
  | [], r, _ => rfl
  | c :: rest, r, h => by
    obtain ⟨stats, model, hc, hlength⟩ := r.account_eq c
    have hc' := settledOf_account (i := i) (h c List.mem_cons_self)
    have hrest : ∀ c' ∈ rest, c'.context.candidate < (r.account c).stats.length := by
      rw [hc]
      exact fun c' hmem => hlength ▸ h c' (List.mem_cons_of_mem _ hmem)
    rw [List.foldl_cons, settledOf_foldl_account hrest, hc', List.countP_cons]
    simp only [beq_iff_eq]
    omega

end

/-! ## Slots -/

theorem countP_holds_set {slots : List Slot} {slot : Nat} {s : Slot} (h : slots[slot]? = some s)
    (s' : Slot) :
    (slots.set slot s').countP (Pool.holds i) + (if Pool.holds i s = true then 1 else 0) =
      slots.countP (Pool.holds i) + if Pool.holds i s' = true then 1 else 0 := by
  obtain ⟨hlt, rfl⟩ := List.getElem?_eq_some_iff.1 h
  rw [List.countP_set hlt]
  split
  · next hs =>
    have hpos : 0 < slots.countP (Pool.holds i) :=
      List.countP_pos_iff.2 ⟨_, List.getElem_mem hlt, hs⟩
    omega
  · omega

end AdaptiveLoops.Region
