/-
Reports: what the statistics and the model are told of a launch.

Samples and failures are counted in one place, by `tally`, so the totals of
the statistics grow with the reports (`samples_foldl_tally`,
`settled_foldl_tally`). A model is told of samples alone. `Model.Told` says
which reports it was told of, whatever picks it was asked for in between,
and a model that counts its samples has counted those (`Told.samples`).
-/
import AdaptiveLoops.Model.Kind
import AdaptiveLoops.Proofs.Pool.Armed
import AdaptiveLoops.Proofs.Region.Counters
import Mathlib.Algebra.GroupWithZero.Nat

namespace AdaptiveLoops

open Device (LaunchId Outcome)

/-- The time of an outcome, none for a failure. -/
def Device.Outcome.elapsed? : Outcome → Option Duration
  | .completed elapsed => some elapsed
  | .failed _ => none

/-- What became of a launch: its time, or that it failed. -/
structure Report where
  context : Context
  elapsed? : Option Duration

namespace Report

/-- A sample of a candidate. -/
def isSampleOf (candidate : Nat) (report : Report) : Bool :=
  report.context.candidate == candidate && report.elapsed?.isSome

/-- A failure of a candidate. -/
def isFailureOf (candidate : Nat) (report : Report) : Bool :=
  report.context.candidate == candidate && report.elapsed?.isNone

end Report

def Collected.report (c : Collected) : Report := ⟨c.context, c.outcome.elapsed?⟩

/-- The report of a launch in flight, if it is seen complete. -/
def Armed.report? (seen : LaunchId → Option Outcome) (a : Armed) : Option Report :=
  (seen a.launch).map fun o => ⟨a.context, o.elapsed?⟩

/-! ## Statistics -/

def PolicyStats.tell (s : PolicyStats) (report : Report) : PolicyStats :=
  match report.elapsed? with
  | some elapsed => s.record elapsed
  | none => s.fail

theorem samples_tell (s : PolicyStats) (report : Report) :
    (s.tell report).samples = s.samples + if report.elapsed?.isSome = true then 1 else 0 := by
  unfold PolicyStats.tell
  cases report.elapsed? <;> rfl

theorem failures_tell (s : PolicyStats) (report : Report) :
    (s.tell report).failures = s.failures + if report.elapsed?.isNone = true then 1 else 0 := by
  unfold PolicyStats.tell
  cases report.elapsed? <;> rfl

/-- The statistics after a report. -/
def tally (stats : List PolicyStats) (report : Report) : List PolicyStats :=
  stats.modify report.context.candidate (·.tell report)

theorem length_foldl_tally : ∀ (reports : List Report) (stats : List PolicyStats),
    (reports.foldl tally stats).length = stats.length
  | [], _ => rfl
  | report :: reports, stats =>
    (length_foldl_tally reports (tally stats report)).trans (List.length_modify ..)

theorem sum_map_modify {β : Type} {f : β → Nat} {g : β → β} {k : Nat} (h : ∀ x, f (g x) = f x + k) :
    ∀ {l : List β} {i : Nat}, i < l.length → ((l.modify i g).map f).sum = (l.map f).sum + k
  | x :: l, 0, _ => by simp [h, Nat.add_right_comm]
  | x :: l, i + 1, hi => by
    have ih := sum_map_modify h (Nat.lt_of_succ_lt_succ hi)
    simp only [List.modify_succ_cons, List.map_cons, List.sum_cons, ih, Nat.add_assoc]

theorem sum_foldl_tally {f : PolicyStats → Nat} {p : Report → Bool}
    (h : ∀ s report, f (s.tell report) = f s + if p report = true then 1 else 0) :
    ∀ {reports : List Report} {stats : List PolicyStats},
      (∀ report ∈ reports, report.context.candidate < stats.length) →
        ((reports.foldl tally stats).map f).sum = (stats.map f).sum + reports.countP p
  | [], _, _ => rfl
  | report :: reports, stats, hlt => by
    have hone : ((tally stats report).map f).sum = (stats.map f).sum + if p report = true then 1 else 0 :=
      sum_map_modify (fun s => h s report) (hlt report List.mem_cons_self)
    have hrest : ∀ report' ∈ reports, report'.context.candidate < (tally stats report).length := by
      intro report' hmem
      rw [tally, List.length_modify]
      exact hlt report' (List.mem_cons_of_mem _ hmem)
    rw [List.foldl_cons, sum_foldl_tally h hrest, hone, List.countP_cons]
    omega

theorem getElem?_foldl_tally {f : PolicyStats → Nat} {p : Report → Bool}
    (h : ∀ s report, f (s.tell report) = f s + if p report = true then 1 else 0) (i : Nat) :
    ∀ (reports : List Report) (stats : List PolicyStats),
      ((reports.foldl tally stats)[i]?).map f = (stats[i]?).map fun s =>
        f s + reports.countP fun report => report.context.candidate == i && p report
  | [], stats => by simp
  | report :: reports, stats => by
    rw [List.foldl_cons, getElem?_foldl_tally h i reports, tally, List.getElem?_modify]
    cases stats[i]? with
    | none => rfl
    | some s =>
      by_cases hi : report.context.candidate = i
      · simp [hi, h, List.countP_cons, Nat.add_assoc, Nat.add_comm]
      · simp [hi]

/-- From `r` to `r'` the counters of each candidate have grown by its reports among these. -/
structure Region.Counts {α : Type} (r r' : Region α) (reports : List Report) : Prop where
  samples : ∀ candidate < r.policies.length,
    r'.samplesOf candidate = r.samplesOf candidate + reports.countP (Report.isSampleOf candidate)
  failures : ∀ candidate < r.policies.length,
    r'.failuresOf candidate = r.failuresOf candidate + reports.countP (Report.isFailureOf candidate)

theorem Region.counts_of_tally {α : Type} {r r' : Region α} (hlength : r.stats.length = r.policies.length)
    {reports : List Report} (h : r'.stats = reports.foldl tally r.stats) : r.Counts r' reports := by
  refine ⟨fun candidate hlt => ?_, fun candidate hlt => ?_⟩
  · rw [samplesOf, samplesOf, h, getElem?_foldl_tally samples_tell, List.getElem?_eq_getElem (hlength ▸ hlt)]
    rfl
  · rw [failuresOf, failuresOf, h, getElem?_foldl_tally failures_tell, List.getElem?_eq_getElem (hlength ▸ hlt)]
    rfl

section
variable {reports : List Report} {stats : List PolicyStats}

theorem samples_foldl_tally (h : ∀ report ∈ reports, report.context.candidate < stats.length) :
    ((reports.foldl tally stats).map (·.samples)).sum =
      (stats.map (·.samples)).sum + reports.countP (·.elapsed?.isSome) :=
  sum_foldl_tally samples_tell h

theorem settled_foldl_tally (h : ∀ report ∈ reports, report.context.candidate < stats.length) :
    ((reports.foldl tally stats).map fun s => s.samples + s.failures).sum =
      (stats.map fun s => s.samples + s.failures).sum + reports.length := by
  have hone : ∀ (s : PolicyStats) (report : Report), (s.tell report).samples + (s.tell report).failures =
      s.samples + s.failures + if true = true then 1 else 0 := by
    intro s report
    unfold PolicyStats.tell
    cases report.elapsed? with
    | none => rfl
    | some elapsed => exact Nat.add_right_comm ..
  rw [sum_foldl_tally (p := fun _ => true) hone h, List.countP_true]

end

/-! ## Models -/

/-- A model counts the samples it is told of, and nothing else. -/
class Model.Counting (α : Type) [Model α] : Prop where
  samples_select : ∀ (m : α) features pending,
    Model.samples (Model.select m features pending).2 = Model.samples m
  samples_observe : ∀ (m : α) features candidate elapsed,
    Model.samples (Model.observe m features candidate elapsed) = Model.samples m + 1

instance : Model.Counting MeanTime where
  samples_select _ _ _ := rfl
  samples_observe _ _ _ _ := rfl

instance : Model.Counting Fixed where
  samples_select _ _ _ := rfl
  samples_observe _ _ _ _ := rfl

instance : Model.Counting AnyModel where
  samples_select m _ _ := by cases m <;> rfl
  samples_observe m _ _ _ := by cases m <;> rfl

namespace Model

variable {α : Type} [Model α]

/-- A model is told of samples, with the features and the candidate of their launch. -/
def tell (m : α) (report : Report) : α :=
  match report.elapsed? with
  | some elapsed => observe m report.context.features report.context.candidate elapsed
  | none => m

/-- Between `m` and `m'` the model was told of these reports in this order, and was asked for picks. -/
inductive Told (m : α) : List Report → α → Prop where
  | refl : Told m [] m
  | asked {reports : List Report} {m' : α} (h : Told m reports m') (features : Features)
      (pending : List Nat) : Told m reports (select m' features pending).2
  | told {reports : List Report} {m' : α} (h : Told m reports m') (report : Report) :
    Told m (reports ++ [report]) (tell m' report)

theorem Told.trans {m m' m'' : α} {reports reports' : List Report} (h : Told m reports m')
    (h' : Told m' reports' m'') : Told m (reports ++ reports') m'' := by
  induction h' with
  | refl => rwa [List.append_nil]
  | asked _ features pending ih => exact ih.asked features pending
  | told _ report ih =>
    rw [← List.append_assoc]
    exact ih.told report

theorem Told.foldl {m m' : α} {reports : List Report} (h : Told m reports m') :
    ∀ more : List Report, Told m (reports ++ more) (more.foldl tell m') := by
  intro more
  induction more generalizing reports m' with
  | nil => rwa [List.append_nil]
  | cons report more ih =>
    have hmore := ih (h.told report)
    rwa [List.append_assoc] at hmore

theorem told_foldl (m : α) (reports : List Report) : Told m reports (reports.foldl tell m) :=
  Told.refl.foldl reports

theorem Told.samples [Counting α] {m m' : α} {reports : List Report} (h : Told m reports m') :
    Model.samples m' = Model.samples m + reports.countP (·.elapsed?.isSome) := by
  induction h with
  | refl => rfl
  | asked _ features pending ih => rw [Counting.samples_select, ih]
  | told _ report ih =>
    rw [List.countP_append, List.countP_singleton, tell]
    cases report.elapsed? with
    | none => rw [ih]; rfl
    | some elapsed =>
      simp only [Counting.samples_observe, ih, Option.isSome_some, if_true]
      omega

end Model

/-! ## Regions -/

namespace Region

variable {α : Type}

/-- The failures of all candidates. -/
def totalFailures (r : Region α) : Nat :=
  (r.stats.map (·.failures)).sum

theorem totalSamples_eq (r : Region α) : r.totalSamples = (r.stats.map (·.samples)).sum := by
  rw [totalSamples, List.sum_eq_foldr, List.foldr_map]

theorem totals_eq (r : Region α) :
    r.totalSamples + r.totalFailures = (r.stats.map fun s => s.samples + s.failures).sum := by
  rw [totalSamples_eq, totalFailures]
  induction r.stats with
  | nil => rfl
  | cons s stats ih =>
    simp only [List.map_cons, List.sum_cons, ← ih]
    omega

variable [Model α]

/-- Reports to the statistics and to the model. -/
def tell (r : Region α) (report : Report) : Region α :=
  { r with stats := tally r.stats report, model := Model.tell r.model report }

theorem account_eq_tell (r : Region α) (c : Collected) : r.account c = r.tell c.report := by
  obtain ⟨slot, context, outcome⟩ := c
  cases outcome with
  | completed elapsed => rfl
  | failed message => rfl

/-- What was collected is reported to the statistics and to the model, in the order it was collected. -/
theorem foldl_account_eq_tell : ∀ (done : List Collected) (r : Region α),
    done.foldl account r =
      { r with
        stats := (done.map (·.report)).foldl tally r.stats
        model := (done.map (·.report)).foldl Model.tell r.model }
  | [], _ => rfl
  | c :: done, r => by
    rw [List.foldl_cons, foldl_account_eq_tell done, account_eq_tell]
    rfl

end Region

end AdaptiveLoops
