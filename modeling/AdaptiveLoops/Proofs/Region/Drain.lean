/-
What draining a region does.

Whatever it answers, a drain collects the launches that it sees complete,
in the order of their slots, frees those slots, and counts each launch for
its candidate (`Region.drainSeeing_drained`). It answers their number if none
of them failed, and else the failure in the lowest slot (`drainSeeing_answers`).
-/
import AdaptiveLoops.Proofs.Region.Calls

namespace AdaptiveLoops

open Device (LaunchId Outcome)

/--
What is answered where these launches are collected, region by region: their number if none of them failed,
and else the failure in the lowest slot of some region.
-/
inductive AnswersFor (lists : List (List Collected)) : Except LoopError Nat → Prop where
  | all (hnone : ∀ done ∈ lists, ∀ c ∈ done, c.outcome.isFailed = false) :
    AnswersFor lists (.ok (lists.map List.length).sum)
  | failed {done : List Collected} (hdone : done ∈ lists) {c : Collected} (hc : c ∈ done) {message : String}
      (hfailed : c.outcome = .failed message)
      (hlowest : ∀ c' ∈ done, c'.outcome.isFailed = true → c.slot ≤ c'.slot) :
    AnswersFor lists (.error (.backendFailure .device message))

namespace Region

/-! ## What is answered -/

section
variable {done : List Collected} {message : String}

theorem firstFailure?_eq_none : firstFailure? done = none ↔ ∀ c ∈ done, c.outcome.isFailed = false := by
  induction done with
  | nil => simp [firstFailure?]
  | cons c rest ih =>
    obtain ⟨slot, context, outcome⟩ := c
    cases outcome with
    | completed elapsed => simpa [firstFailure?, Outcome.isFailed] using ih
    | failed message => simp [firstFailure?, Outcome.isFailed]

theorem firstFailure?_eq_some (hordered : (done.map (·.slot)).Pairwise (· < ·))
    (h : firstFailure? done = some message) :
    ∃ c ∈ done, c.outcome = .failed message ∧ ∀ c' ∈ done, c'.outcome.isFailed = true → c.slot ≤ c'.slot := by
  induction done with
  | nil => cases h
  | cons c rest ih =>
    rw [List.map_cons, List.pairwise_cons] at hordered
    obtain ⟨slot, context, outcome⟩ := c
    cases outcome with
    | completed elapsed =>
      obtain ⟨c, hc, hfailed, hleast⟩ := ih hordered.2 h
      refine ⟨c, List.mem_cons_of_mem _ hc, hfailed, ?_⟩
      intro c' hc' hfailed'
      rcases List.mem_cons.1 hc' with rfl | hc'
      · cases hfailed'
      · exact hleast c' hc' hfailed'
    | failed message' =>
      cases h
      refine ⟨_, List.mem_cons_self, rfl, ?_⟩
      intro c' hc' _
      rcases List.mem_cons.1 hc' with rfl | hc'
      · exact Nat.le_refl _
      · exact Nat.le_of_lt (hordered.1 c'.slot (List.mem_map_of_mem hc'))

/-- **What a drain answers** of the launches it collected. -/
theorem collectedResult_answers (hordered : (done.map (·.slot)).Pairwise (· < ·)) :
    AnswersFor [done] (collectedResult done) := by
  unfold collectedResult
  split
  · next hnone =>
    rw [firstFailure?_eq_none] at hnone
    have hall : AnswersFor [done] (.ok ([done].map List.length).sum) := .all (by simpa using hnone)
    simpa using hall
  · next message hsome =>
    obtain ⟨c, hc, hfailed, hlowest⟩ := firstFailure?_eq_some hordered hsome
    exact .failed List.mem_cons_self hc hfailed hlowest

end

/-! ## What is collected -/

variable {α : Type}

/-- What a drain collects. -/
def collected (r : Region α) (seen : LaunchId → Option Outcome) : List Collected :=
  (r.pool.poll seen).1

variable [Model α]

/-- Between `r` and `r'` these launches were collected, as `seen` has them, and nothing else happened. -/
structure Drained (r : Region α) (seen : LaunchId → Option Outcome) (done : List Collected) (r' : Region α) :
    Prop where
  collected : ∀ c, c ∈ done ↔
    ∃ launch, r.pool.slots[c.slot]? = some (.inFlight c.context launch) ∧ seen launch = some c.outcome
  ordered : (done.map (·.slot)).Pairwise (· < ·)
  slots : ∀ slot, r'.pool.slots[slot]? =
    if slot ∈ done.map (·.slot) then some .free else r.pool.slots[slot]?
  free : r'.pool.free = (done.map (·.slot)).reverse ++ r.pool.free
  samples : ∀ i, (r'.stats[i]?).map (·.samples) =
    (r.stats[i]?).map fun s => s.samples + done.countP fun c => c.report.isSampleOf i
  failures : ∀ i, (r'.stats[i]?).map (·.failures) =
    (r.stats[i]?).map fun s => s.failures + done.countP fun c => c.report.isFailureOf i
  model : r'.model = (done.map (·.report)).foldl Model.tell r.model
  variants : r'.variants = r.variants
  invocations : r'.invocations = r.invocations

/-- **What a drain does, whatever it answers.** -/
theorem drainSeeing_drained (r : Region α) (seen : LaunchId → Option Outcome) :
    r.Drained seen (r.collected seen) (r.drainSeeing seen).1 := by
  have hlisted : ∀ c, c ∈ r.collected seen ↔ ∃ launch,
      r.pool.slots[c.slot]? = some (.inFlight c.context launch) ∧ seen launch = some c.outcome := by
    intro c
    rw [collected, Pool.poll, Pool.sweep, Pool.mem_listed]
    simp
  simp only [drainSeeing, foldl_account_eq_tell]
  refine {
    collected := hlisted
    ordered := Pool.pairwise_listed (fun _ => seen) r.pool.slots 0
    slots := Pool.slots_sweep_eq (fun _ => seen) r.pool
    free := rfl
    samples := fun i => ?_
    failures := fun i => ?_
    model := rfl
    variants := rfl
    invocations := rfl }
  · rw [getElem?_foldl_tally samples_tell, List.countP_map]
    rfl
  · rw [getElem?_foldl_tally failures_tell, List.countP_map]
    rfl

theorem drainSeeing_answers (r : Region α) (seen : LaunchId → Option Outcome) :
    AnswersFor [r.collected seen] (r.drainSeeing seen).2 :=
  collectedResult_answers (drainSeeing_drained r seen).ordered

/-- **Where every launch in flight is seen complete, nothing is in flight behind the drain.** -/
theorem armed_drainSeeing_eq_nil {r : Region α} (h : r.pool.Valid) (hun : .reserved ∉ r.pool.slots)
    {seen : LaunchId → Option Outcome} (hall : ∀ a ∈ r.pool.armed, (seen a.launch).isSome = true) :
    (r.drainSeeing seen).1.pool.armed = [] := by
  have hperm := (drainSeeing_moves h hun seen).armed
  have hnone : r.pool.armed.filter (Armed.isUnseen seen) = [] := by
    rw [List.filter_eq_nil_iff]
    intro a ha hunseen
    have hseen := hall a ha
    simp [Armed.isUnseen] at hunseen
    simp [hunseen] at hseen
  rw [hnone] at hperm
  exact List.perm_nil.1 hperm

theorem drainSeeing_of_armed_eq_nil {r : Region α} (h : r.pool.armed = []) (seen : LaunchId → Option Outcome) :
    (r.drainSeeing seen).2 = .ok 0 := by
  have hnone : (r.pool.poll seen).1 = [] := by
    refine List.eq_nil_iff_forall_not_mem.2 fun c hc => ?_
    obtain ⟨launch, hslot, -⟩ := ((drainSeeing_drained r seen).collected c).1 hc
    have hmem : (⟨c.context, launch⟩ : Armed) ∈ r.pool.armed := Pool.mem_armed.2 (List.mem_of_getElem? hslot)
    rw [h] at hmem
    cases hmem
  simp [drainSeeing, hnone, collectedResult, firstFailure?]

end Region

end AdaptiveLoops
