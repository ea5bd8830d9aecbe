/-
Picks, counted beside a region by its caller.

As long as no launch fails, what a candidate was picked for is a sample of
it or in flight (`Region.Tallied`). A turn whose loop does not fail adds one
to the candidate it dispatched, and a turn that dispatched nothing, or
found no slot, adds none (`Turn.tallied_after`).
-/
import AdaptiveLoops.Proofs.Region.Drain
import AdaptiveLoops.Proofs.Region.Turns

namespace AdaptiveLoops

open Device (LaunchId Outcome)

variable {α : Type}

/-- Of each candidate there are as many samples and launches in flight as picks, and no failure. -/
structure Region.Tallied (r : Region α) (picks : List Nat) : Prop where
  picks : ∀ i, picks[i]? =
    (r.stats[i]?).map fun s => s.samples + r.pool.armed.countP (·.context.candidate == i)
  failures : ∀ (i : Nat) (s : PolicyStats), r.stats[i]? = some s → s.failures = 0

namespace Region

variable {r : Region α} {picks : List Nat}

theorem Tallied.length (h : r.Tallied picks) : picks.length = r.stats.length := by
  have hnone : ∀ i, picks.length ≤ i ↔ r.stats.length ≤ i := by
    intro i
    rw [← List.getElem?_eq_none_iff, h.picks, Option.map_eq_none_iff, List.getElem?_eq_none_iff]
  exact Nat.le_antisymm ((hnone _).2 (Nat.le_refl _)) ((hnone _).1 (Nat.le_refl _))

theorem Tallied.picks_eq (h : r.Tallied picks) (hnone : r.pool.armed = []) :
    picks = r.stats.map (·.samples) ∧ ∀ s ∈ r.stats, s.failures = 0 := by
  constructor
  · refine List.ext_getElem? fun i => ?_
    rw [h.picks, hnone, List.getElem?_map]
    rfl
  · intro s hs
    obtain ⟨i, hi⟩ := List.mem_iff_getElem?.1 hs
    exact h.failures i s hi

theorem create_tallied {site : CallSite} {policies : List Policy} {model : α} {config : Config}
    (h : create site policies model config = .ok r) : r.Tallied (policies.map fun _ => 0) := by
  have harmed := armed_of_create h
  obtain ⟨-, -, hstats, -, -, -⟩ := create_eq_ok h
  refine ⟨fun i => ?_, fun i s hs => ?_⟩
  · rw [hstats, harmed, List.getElem?_map, List.getElem?_map]
    cases policies[i]? <;> rfl
  · rw [hstats, List.getElem?_map] at hs
    obtain ⟨policy, -, rfl⟩ := Option.map_eq_some_iff.1 hs
    rfl

variable [Model α]

theorem isFailed_of_drainSeeing {seen : LaunchId → Option Outcome} {n : Nat} (h : (r.drainSeeing seen).2 = .ok n) :
    ∀ a ∈ r.pool.armed, ∀ o, seen a.launch = some o → o.isFailed = false := by
  have hanswers := r.drainSeeing_answers seen
  rw [h] at hanswers
  cases hanswers with
  | all hnone =>
    intro a ha o ho
    obtain ⟨slot, hslot⟩ := List.mem_iff_getElem?.1 (Pool.mem_armed.1 ha)
    have hmem : (⟨slot, a.context, o⟩ : Collected) ∈ r.collected seen :=
      ((r.drainSeeing_drained seen).collected _).2 ⟨a.launch, hslot, ho⟩
    exact hnone _ List.mem_cons_self _ hmem

end Region

/-! ## What is collected -/

section
variable {seen : LaunchId → Option Outcome} {armed : List Armed}
  (hnone : ∀ a ∈ armed, ∀ o, seen a.launch = some o → o.isFailed = false)
include hnone

theorem elapsed?_of_collected {report : Report} (h : report ∈ armed.filterMap (Armed.report? seen)) :
    report.elapsed?.isSome = true := by
  obtain ⟨a, ha, hreport⟩ := List.mem_filterMap.1 h
  obtain ⟨o, ho, rfl⟩ := Option.map_eq_some_iff.1 hreport
  cases o with
  | completed elapsed => rfl
  | failed message => cases hnone a ha _ ho

/-- The launches of a candidate are collected, as samples, or stay in flight. -/
theorem countP_collected (i : Nat) :
    (armed.filterMap (Armed.report? seen)).countP (Report.isSampleOf i) +
      (armed.filter (Armed.isUnseen seen)).countP (·.context.candidate == i) =
        armed.countP (·.context.candidate == i) := by
  induction armed with
  | nil => rfl
  | cons a armed ih =>
    rw [List.forall_mem_cons] at hnone
    have hrest := ih hnone.2
    rw [List.filterMap_cons, List.filter_cons, List.countP_cons]
    cases hseen : seen a.launch with
    | none =>
      simp only [Armed.report?, Armed.isUnseen, hseen, Option.map_none, Option.isNone_none, if_true,
        List.countP_cons]
      omega
    | some o =>
      have hsample : Report.isSampleOf i ⟨a.context, o.elapsed?⟩ = (a.context.candidate == i) := by
        cases o with
        | completed elapsed => simp [Report.isSampleOf, Outcome.elapsed?]
        | failed message => cases hnone.1 _ hseen
      simp only [Armed.report?, Armed.isUnseen, hseen, Option.map_some, Option.isNone_some,
        Bool.false_eq_true, if_false, List.countP_cons, hsample]
      omega

end

/-! ## What a turn adds -/

namespace Session.Turn

variable [Model α] {t : Turn α} {left : List Armed} {counted : Nat} {picks picks' : List Nat}

theorem failures_after (htallied : t.before.region.Tallied picks) {armed : List Armed}
    (hmoves : Region.Moves t.before.region t.after.region t.reports armed counted)
    (hsome : ∀ report ∈ t.reports, report.elapsed?.isSome = true) {i : Nat} {s' : PolicyStats}
    (hs' : t.after.region.stats[i]? = some s') : s'.failures = 0 := by
  have hfailures := getElem?_foldl_tally failures_tell i t.reports t.before.region.stats
  have hnone : (t.reports.countP fun report => report.context.candidate == i && report.elapsed?.isNone) = 0 := by
    rw [List.countP_eq_zero]
    intro report hreport hfailure
    have hsample := hsome report hreport
    simp only [Bool.and_eq_true, Option.isNone_iff_eq_none] at hfailure
    rw [hfailure.2] at hsample
    cases hsample
  rw [← hmoves.stats, hs', hnone, Option.map_some, eq_comm, Option.map_eq_some_iff] at hfailures
  obtain ⟨s, hs, heq⟩ := hfailures
  rw [← heq, htallied.failures i s hs]

/-- **What a turn adds to the picks** is what it has run itself, and what it has left in flight. -/
theorem tallied_after (htallied : t.before.region.Tallied picks)
    (hmoves : Region.Moves t.before.region t.after.region t.reports
      (left ++ t.before.region.pool.armed.filter (Armed.isUnseen t.seen)) counted)
    {n : Nat} (hdrain : (t.before.region.drainSeeing t.seen).2 = .ok n)
    (hown : ∀ report ∈ t.own, report.elapsed?.isSome = true)
    (hpicks : ∀ i, picks'[i]? = (picks[i]?).map
      (· + (t.own.countP (Report.isSampleOf i) + left.countP (·.context.candidate == i)))) :
    t.after.region.Tallied picks' := by
  have hseen := Region.isFailed_of_drainSeeing hdrain
  have hsome : ∀ report ∈ t.reports, report.elapsed?.isSome = true := by
    rw [reports_eq]
    intro report hreport
    rcases List.mem_append.1 hreport with hcollected | hmem
    · exact elapsed?_of_collected hseen hcollected
    · exact hown report hmem
  refine ⟨fun i => ?_, fun i s' hs' => failures_after htallied hmoves hsome hs'⟩
  have harmed := hmoves.armed.countP_eq (·.context.candidate == i)
  have hcollected := countP_collected hseen i
  have hreports : t.reports.countP (Report.isSampleOf i) =
      (t.before.region.pool.armed.filterMap (Armed.report? t.seen)).countP (Report.isSampleOf i) +
        t.own.countP (Report.isSampleOf i) := by
    rw [reports_eq, List.countP_append]
  have hsamples : (t.after.region.stats[i]?).map (·.samples) =
      (t.before.region.stats[i]?).map fun s => s.samples + t.reports.countP (Report.isSampleOf i) := by
    rw [hmoves.stats]
    exact getElem?_foldl_tally samples_tell i t.reports t.before.region.stats
  rw [List.countP_append] at harmed
  rw [hpicks, htallied.picks]
  cases hs : t.before.region.stats[i]? with
  | none =>
    rw [hs, Option.map_none, Option.map_eq_none_iff] at hsamples
    rw [hsamples]
    rfl
  | some s =>
    rw [hs, Option.map_some, Option.map_eq_some_iff] at hsamples
    obtain ⟨s', hs', heq⟩ := hsamples
    simp only [hs', Option.map_some, Option.some.injEq]
    omega

/-- **A loop that is dispatched** is one more pick of its candidate. -/
theorem tallied_of_ok (h : t.before.region.Sound) (htallied : t.before.region.Tallied picks) {d : Dispatch}
    (hanswer : t.answer? = some (.ok d)) :
    t.after.region.Tallied (picks.modify d.candidate (· + 1)) ∧ d.candidate < picks.length ∧
      t.after.region.invocations = t.before.region.invocations + 1 := by
  obtain ⟨left, counted, hanswers, hmoves, -, -⟩ := does h
  have hlt := (hanswers.numbers h).1
  cases hanswers with
  | aside _ hnone _ _ => exact absurd hanswer (hnone d)
  | @numbered hpicked result hresult _ hends =>
    rw [hanswer, Option.some.injEq] at hresult
    subst hresult
    obtain ⟨n, hdrain⟩ := drainSeeing_of_picked? hpicked
    have hmodify : ∀ i, (picks.modify d.candidate (· + 1))[i]? =
        (picks[i]?).map (· + if d.candidate = i then 1 else 0) := by
      intro i
      rw [List.getElem?_modify]
      by_cases hi : d.candidate = i <;> simp [hi]
    rw [htallied.length, h.stats]
    generalize hown : t.own = own at hends
    cases hends with
    | @finished context hfresh _ elapsed =>
      refine ⟨tallied_after htallied hmoves hdrain (by simp [hown]) fun i => ?_, ?_, hmoves.invocations⟩
      · rw [hmodify, hown]
        simp [Report.isSampleOf, List.countP_cons]
      · exact (hlt context (.inl (by simp [hown]))).2
    | @left context hfresh _ launch hlaunch =>
      refine ⟨tallied_after htallied hmoves hdrain (by simp [hown]) fun i => ?_, ?_, hmoves.invocations⟩
      · rw [hmodify, hown]
        simp [List.countP_cons]
      · exact (hlt context (.inr (by simp))).2

theorem tallied_of_exhausted (h : t.before.region.Sound) (htallied : t.before.region.Tallied picks) {e : LoopError}
    (hanswer : t.answer? = some (.error e)) (he : e.isPoolExhausted = true) :
    t.after.region.Tallied picks ∧ t.after.region.invocations = t.before.region.invocations + 1 := by
  obtain ⟨left, counted, hanswers, hmoves, -, -⟩ := does h
  cases hanswers with
  | aside _ _ herror _ =>
    have hnot := LoopError.isPoolExhausted_of_isOfPool (herror e (error?_of_answer? hanswer))
    rw [he] at hnot
    cases hnot
  | @numbered hpicked result hresult _ hends =>
    rw [hanswer, Option.some.injEq] at hresult
    subst hresult
    obtain ⟨n, hdrain⟩ := drainSeeing_of_picked? hpicked
    generalize hown : t.own = own at hends
    cases hends with
    | exhausted hfresh _ site capacity =>
      exact ⟨tallied_after htallied hmoves hdrain (by simp [hown]) (by simp [hown]), hmoves.invocations⟩
    | failed _ _ hof =>
      rw [LoopError.isPoolExhausted_of_isOfPool hof] at he
      cases he
    | unavailable _ _ => cases he
    | outOfRange _ _ => cases he

theorem tallied_of_drain (h : t.before.region.Sound) (htallied : t.before.region.Tallied picks) {polling : Polling}
    (hact : t.act = .drain polling) {n : Nat} (hdrain : (t.before.region.drainSeeing t.seen).2 = .ok n) :
    t.after.region.Tallied picks ∧ t.after.region.invocations = t.before.region.invocations := by
  obtain ⟨left, counted, hanswers, hmoves, -, -⟩ := does h
  cases hanswers with
  | aside _ _ _ hown =>
    exact ⟨tallied_after htallied hmoves hdrain (by simp [hown]) (by simp [hown]), hmoves.invocations⟩
  | numbered hpicked _ _ => simp [picked?, hact] at hpicked

end Session.Turn

end AdaptiveLoops
