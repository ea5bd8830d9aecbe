/-
Feedback is reported once.

A loop that is finished when its invocation answers is reported in that
turn. One that is left in flight is reported in the first later turn that
sees it complete, with the context it was left with, and in no other turn
(`Session.ReportedOnce`). The number of an invocation tells its reports from
all others: a number that is taken and not in flight is never reported again
(`quiet_of_taken`).
-/
import AdaptiveLoops.Proofs.Region.Turns

namespace AdaptiveLoops

open Device (Stream LaunchId Outcome)

variable {α : Type}

/-- The launches in flight of one invocation. -/
def Region.inFlightAs (r : Region α) (invocation : Nat) : List Armed :=
  r.pool.armed.filter (·.context.invocation == invocation)

theorem Region.Sound.inFlightAs_next {r : Region α} (h : r.Sound) {invocation : Nat}
    (hnext : invocation = r.invocations) : r.inFlightAs invocation = [] := by
  rw [inFlightAs, List.filter_eq_nil_iff]
  intro a ha heq
  have hlt := h.invocation a ha
  rw [beq_iff_eq] at heq
  omega

namespace Session

namespace Turn

/-- What the loop of a dispatch has to be reported under. -/
def context (t : Turn α) (d : Dispatch) : Context :=
  ⟨d.invocation, t.features, d.candidate, d.policy⟩

variable [Model α]

theorem context_eq_of_fresh {t : Turn α} {context : Context} (h : t.polled.Fresh t.features context)
    (pending : Bool) : t.context ⟨context.invocation, context.candidate, context.policy, pending⟩ = context := by
  obtain ⟨invocation, features, candidate, policy⟩ := context
  simp only [Turn.context, ← h.features]

/-- What a turn reports of one invocation. -/
def reportsOf (t : Turn α) (invocation : Nat) : List Report :=
  t.reports.filter (·.context.invocation == invocation)

theorem reportsOf_eq_nil {t : Turn α} {invocation : Nat} :
    t.reportsOf invocation = [] ↔ ∀ report ∈ t.reports, report.context.invocation ≠ invocation := by
  simp [reportsOf, List.filter_eq_nil_iff]

end Turn

variable [Model α]

/-- A launch in flight is reported by the first turn that sees it complete, with what that sees, and by no
other. -/
def ReportedOnce (a : Armed) : List (Turn α) → Prop
  | [] => True
  | t :: later =>
    match t.seen a.launch with
    | none => t.reportsOf a.context.invocation = [] ∧ ReportedOnce a later
    | some o =>
      t.reportsOf a.context.invocation = [⟨a.context, o.elapsed?⟩] ∧
        ∀ u ∈ later, u.reportsOf a.context.invocation = []

/-! ## One turn -/

theorem filter_invocation_eq {a : Armed} : ∀ {armed : List Armed},
    (armed.map (·.context.invocation)).Nodup → a ∈ armed →
      armed.filter (·.context.invocation == a.context.invocation) = [a]
  | b :: armed, hnodup, ha => by
    rw [List.map_cons, List.nodup_cons] at hnodup
    rcases List.mem_cons.1 ha with rfl | ha
    · have hnone : armed.filter (·.context.invocation == a.context.invocation) = [] := by
        rw [List.filter_eq_nil_iff]
        intro b hb heq
        rw [beq_iff_eq] at heq
        exact hnodup.1 (heq ▸ List.mem_map_of_mem hb)
      simp [hnone]
    · have hne : b.context.invocation ≠ a.context.invocation := fun heq =>
        hnodup.1 (heq ▸ List.mem_map_of_mem ha)
      simp [hne, filter_invocation_eq hnodup.2 ha]

namespace Turn

variable {t : Turn α}

omit [Model α] in
theorem seen_of_outcome? (hpolls : t.polls = true) {id : LaunchId} {o : Outcome}
    (h : t.before.stream.outcome? id = some o) : t.seen id = some o := by
  obtain ⟨s, act⟩ := t
  cases act with
  | invoke plugins space body now meanwhile => exact Polling.seen_of_outcome? h
  | drain polling => exact Polling.seen_of_outcome? h
  | stream e => cases hpolls

/-- What a turn reports of one invocation: what it sees complete of it, and its own loop. -/
theorem reportsOf_eq (t : Turn α) (invocation : Nat) :
    t.reportsOf invocation = (t.before.region.inFlightAs invocation).filterMap (Armed.report? t.seen) ++
      t.own.filter (·.context.invocation == invocation) := by
  rw [reportsOf, reports_eq, Region.inFlightAs, List.filter_append, List.filter_filterMap,
    List.filterMap_filter]
  congr 1
  refine List.filterMap_congr fun a _ => ?_
  simp only [Armed.report?]
  cases t.seen a.launch with
  | none => simp
  | some o => simp [Option.filter]

theorem filter_own_of_taken (h : t.before.region.Sound) {invocation : Nat}
    (hlt : invocation < t.before.region.invocations) :
    t.own.filter (·.context.invocation == invocation) = [] := by
  rw [List.filter_eq_nil_iff]
  intro report hreport heq
  have hnumber := (own_numbers h hreport).1
  rw [beq_iff_eq] at heq
  omega

theorem inFlightAs_after (h : t.before.region.Sound) {invocation : Nat}
    (hlt : invocation < t.before.region.invocations) :
    (t.after.region.inFlightAs invocation).Perm
      ((t.before.region.inFlightAs invocation).filter (Armed.isUnseen t.seen)) := by
  obtain ⟨left, counted, hanswers, hmoves, -, -⟩ := does h
  have hleft : left.filter (·.context.invocation == invocation) = [] := by
    rw [List.filter_eq_nil_iff]
    intro a ha heq
    have hnumber := ((hanswers.numbers h).1 a.context (.inr (List.mem_map_of_mem ha))).1
    rw [beq_iff_eq] at heq
    omega
  have hperm := hmoves.armed.filter (·.context.invocation == invocation)
  rwa [List.filter_append, hleft, List.nil_append, List.filter_comm] at hperm

theorem invocations_le_after (h : t.before.region.Sound) :
    t.before.region.invocations ≤ t.after.region.invocations := by
  obtain ⟨left, counted, -, hmoves, -, -⟩ := does h
  have hinvocations := hmoves.invocations
  omega

end Turn

/-! ## Runs -/

/-- **A number that is taken and not in flight is never reported again.** -/
theorem quiet_of_taken {invocation : Nat} : ∀ {acts : List Act} {s : Session α}, s.region.Sound →
    invocation < s.region.invocations → s.region.inFlightAs invocation = [] →
      ∀ t ∈ s.turns acts, t.reportsOf invocation = []
  | [], _, _, _, _ => by simp [turns]
  | act :: acts, s, h, hlt, hnone => by
    have hafter := Turn.inFlightAs_after (t := ⟨s, act⟩) h hlt
    have hle := Turn.invocations_le_after (t := ⟨s, act⟩) h
    rw [hnone, List.filter_nil, List.perm_nil] at hafter
    rw [turns, List.forall_mem_cons]
    refine ⟨?_, quiet_of_taken (Turn.sound_after (t := ⟨s, act⟩) h) (Nat.lt_of_lt_of_le hlt hle) hafter⟩
    rw [Turn.reportsOf_eq, hnone, Turn.filter_own_of_taken (t := ⟨s, act⟩) h hlt]
    rfl

/-- **What is in flight is reported once.** -/
theorem reported_once {a : Armed} : ∀ {acts : List Act} {s : Session α}, s.region.Sound →
    a ∈ s.region.pool.armed → ReportedOnce a (s.turns acts)
  | [], _, _, _ => trivial
  | act :: acts, s, h, ha => by
    have hlt := h.invocation a ha
    have hone : s.region.inFlightAs a.context.invocation = [a] := filter_invocation_eq h.distinct ha
    have hreports := Turn.reportsOf_eq (⟨s, act⟩ : Turn α) a.context.invocation
    have hafter := Turn.inFlightAs_after (t := ⟨s, act⟩) h hlt
    have hsound : (Turn.after ⟨s, act⟩).region.Sound := Turn.sound_after (t := ⟨s, act⟩) h
    have hle := Turn.invocations_le_after (t := ⟨s, act⟩) h
    simp only [hone, Turn.filter_own_of_taken (t := ⟨s, act⟩) h hlt, List.append_nil, List.filterMap_cons,
      List.filterMap_nil, Armed.report?, List.filter_cons, List.filter_nil, Armed.isUnseen] at hreports hafter
    rw [turns, ReportedOnce]
    split
    · next hseen =>
      simp only [hseen, Option.map_none, Option.isNone_none, if_true] at hreports hafter
      refine ⟨hreports, reported_once hsound ?_⟩
      have hmem : a ∈ (Turn.after ⟨s, act⟩).region.inFlightAs a.context.invocation :=
        hafter.symm.subset List.mem_cons_self
      exact List.mem_of_mem_filter hmem
    · next o hseen =>
      simp only [hseen, Option.map_some, Option.isNone_some, Bool.false_eq_true, if_false,
        List.perm_nil] at hreports hafter
      exact ⟨hreports, quiet_of_taken hsound (Nat.lt_of_lt_of_le hlt hle) hafter⟩

/-! ## Samples -/

theorem Turn.samples_after [Model.Counting α] {t : Turn α} (h : t.before.region.Sound)
    (heq : Model.samples t.before.region.model = t.before.region.totalSamples) :
    Model.samples t.after.region.model = t.after.region.totalSamples := by
  obtain ⟨left, counted, -, hmoves, -, -⟩ := does h
  calc Model.samples t.after.region.model
    _ = Model.samples t.before.region.model + t.reports.countP (·.elapsed?.isSome) := hmoves.model.samples
    _ = (t.before.region.stats.map (·.samples)).sum + t.reports.countP (·.elapsed?.isSome) := by
      rw [heq, Region.totalSamples_eq]
    _ = ((t.reports.foldl tally t.before.region.stats).map (·.samples)).sum :=
      (samples_foldl_tally fun _ => candidate_of_mem_reports h).symm
    _ = t.after.region.totalSamples := by rw [Region.totalSamples_eq, hmoves.stats]

theorem samples_run [Model.Counting α] : ∀ {acts : List Act} {s : Session α}, s.region.Sound →
    Model.samples s.region.model = s.region.totalSamples →
      ∀ t ∈ s.turns acts, Model.samples t.after.region.model = t.after.region.totalSamples
  | [], _, _, _ => by simp [turns]
  | act :: acts, s, h, heq => by
    have hafter := Turn.samples_after (t := ⟨s, act⟩) h heq
    rw [turns, List.forall_mem_cons]
    exact ⟨hafter, samples_run (Turn.sound_after (t := ⟨s, act⟩) h) hafter⟩

/-! ## Dispatches -/

theorem Turn.dispatched {t : Turn α} (h : t.before.region.Sound) {d : Dispatch}
    (hanswer : t.answer? = some (.ok d)) :
    d.invocation = t.before.region.invocations ∧ t.after.region.invocations = d.invocation + 1 ∧
      t.before.region.policies[d.candidate]? = some d.policy ∧
      ((d.pending = false ∧ (∃ elapsed, t.own = [⟨t.context d, some elapsed⟩]) ∧
          t.after.region.inFlightAs d.invocation = []) ∨
        (d.pending = true ∧ t.own = [] ∧ ∃ launch,
          (∃ work, t.atLaunch.launch work = .ok (launch, t.after.stream)) ∧
            ⟨t.context d, launch⟩ ∈ t.after.region.pool.armed)) := by
  obtain ⟨left, counted, hanswers, hmoves, -, -⟩ := does h
  cases hanswers with
  | aside _ hnone _ _ => exact absurd hanswer (hnone d)
  | @numbered hpicked result hresult _ hends =>
    rw [hanswer, Option.some.injEq] at hresult
    subst hresult
    have hpoll := Region.drainSeeing_moves h.pool h.unreserved t.seen
    have hnumber : t.polled.invocations = t.before.region.invocations := hpoll.invocations
    have hpolicies : t.polled.policies = t.before.region.policies := hpoll.policies
    have hinvocations := hmoves.invocations
    generalize hown : t.own = own at hends
    cases hends with
    | @finished context hfresh _ elapsed =>
      have htaken := hfresh.invocation.trans hnumber
      have hnext : t.after.region.invocations = context.invocation + 1 := by omega
      refine ⟨htaken, hnext, hpolicies ▸ hfresh.policy, .inl ⟨rfl, ⟨elapsed, ?_⟩, ?_⟩⟩
      · rw [context_eq_of_fresh hfresh]
      · rw [Region.inFlightAs, List.filter_eq_nil_iff]
        intro a ha heq
        rw [hmoves.armed.mem_iff, List.nil_append, List.mem_filter] at ha
        have hlt := h.invocation a ha.1
        have heq : a.context.invocation = context.invocation := beq_iff_eq.1 heq
        omega
    | @left context hfresh _ launch hlaunch =>
      have htaken := hfresh.invocation.trans hnumber
      have hnext : t.after.region.invocations = context.invocation + 1 := by omega
      refine ⟨htaken, hnext, hpolicies ▸ hfresh.policy, .inr ⟨rfl, rfl, launch, hlaunch, ?_⟩⟩
      · rw [context_eq_of_fresh hfresh, hmoves.armed.mem_iff]
        exact List.mem_cons_self

/--
**Feedback is reported exactly once**, in every session with a new region and a model that counts its
samples, whatever the stream does between the calls and during them.

After every turn no slot is reserved, no call has been told that a slot is busy or not in flight, the
statistics and the model have been told what the turn reports and nothing else, so that each candidate has as
many samples and failures more as there are reports of them, and the model has counted the samples of the
statistics. A launch is seen complete only if it is, and always if it was before the turn.

A loop that is finished when its invocation answers is reported in that turn, with its time. A loop that is
pending then is reported in the first later turn that sees it complete. No other turn reports it, and every
report is under the context of its own invocation.
-/
theorem run_reports_once [Model.Counting α] {site : CallSite} {policies : List Policy} {model : α}
    {config : Config} {r : Region α} (hr : Region.create site policies model config = .ok r)
    (hmodel : Model.samples model = 0) (stream : Stream) (acts : List Act) :
    (∀ t ∈ turns ⟨r, stream⟩ acts,
      .reserved ∉ t.after.region.pool.slots ∧
      (∀ slot, t.error? ≠ some (.slotNotInFlight slot) ∧ t.error? ≠ some (.slotBusy slot)) ∧
      t.after.region.stats = t.reports.foldl tally t.before.region.stats ∧
      (∀ candidate < policies.length,
        t.after.region.samplesOf candidate =
          t.before.region.samplesOf candidate + t.reports.countP (Report.isSampleOf candidate) ∧
        t.after.region.failuresOf candidate =
          t.before.region.failuresOf candidate + t.reports.countP (Report.isFailureOf candidate)) ∧
      Model.Told t.before.region.model t.reports t.after.region.model ∧
      Model.samples t.after.region.model = t.after.region.totalSamples ∧
      (∀ id o, t.seen id = some o → t.after.stream.outcome? id = some o) ∧
      (t.polls = true → ∀ id o, t.before.stream.outcome? id = some o → t.seen id = some o)) ∧
    ∀ earlier t later, turns ⟨r, stream⟩ acts = earlier ++ t :: later →
      ∀ d, t.answer? = some (.ok d) →
        policies[d.candidate]? = some d.policy ∧
        (d.pending = false →
          (∃ elapsed, t.reportsOf d.invocation = [⟨t.context d, some elapsed⟩]) ∧
            ∀ u ∈ earlier ++ later, u.reportsOf d.invocation = []) ∧
        (d.pending = true → ∃ launch,
          (∃ work, t.atLaunch.launch work = .ok (launch, t.after.stream)) ∧
            (∀ u ∈ earlier ++ [t], u.reportsOf d.invocation = []) ∧
              ReportedOnce ⟨t.context d, launch⟩ later) := by
  have hsound := Region.create_sound hr
  obtain ⟨hpolicies, -, -, -, hnew, -⟩ := Region.create_eq_ok hr
  have hzero : Model.samples r.model = r.totalSamples := by
    rw [hnew, hmodel, (Region.create_totals hr).1]
  refine ⟨fun t ht => ?_, fun earlier t later heq d hanswer => ?_⟩
  · obtain ⟨earlier, later, heq⟩ := List.append_of_mem ht
    obtain ⟨h, hsame, -⟩ := turns_eq_append (s := ⟨r, stream⟩) hsound heq
    obtain ⟨left, counted, hanswers, hmoves, -, hseen⟩ := Turn.does h
    obtain ⟨hsamples, hfailures⟩ := Region.counts_of_tally h.stats hmoves.stats
    rw [hsame, hpolicies] at hsamples hfailures
    refine ⟨hmoves.unreserved, fun slot => ⟨fun he => ?_, fun he => ?_⟩, hmoves.stats,
      fun candidate hlt => ⟨hsamples candidate hlt, hfailures candidate hlt⟩, hmoves.model,
      samples_run (s := ⟨r, stream⟩) hsound hzero t ht, hseen, fun hpolls id o => Turn.seen_of_outcome? hpolls⟩
    · exact (Turn.isOfPool_of_error? h he).elim nofun nofun
    · exact (Turn.isOfPool_of_error? h he).elim nofun nofun
  · obtain ⟨h, hsame, -, -, hearlier, acts', rfl⟩ := turns_eq_append (s := ⟨r, stream⟩) hsound heq
    obtain ⟨htaken, hnext, hpolicy, hends⟩ := Turn.dispatched h hanswer
    have hbefore : ∀ u ∈ earlier, u.reportsOf d.invocation = [] := by
      intro u hu
      refine Turn.reportsOf_eq_nil.2 fun report hreport heq => ?_
      have hlt := hearlier u hu report hreport
      omega
    have hown : t.reportsOf d.invocation = t.own.filter (·.context.invocation == d.invocation) := by
      rw [Turn.reportsOf_eq, h.inFlightAs_next htaken]
      rfl
    refine ⟨hpolicies ▸ hsame ▸ hpolicy, fun hdone => ?_, fun hpending => ?_⟩
    · rcases hends with ⟨-, ⟨elapsed, hreport⟩, hnone⟩ | ⟨hpending, -⟩
      · refine ⟨⟨elapsed, ?_⟩, fun u hu => ?_⟩
        · rw [hown, hreport]
          simp [Turn.context]
        · rcases List.mem_append.1 hu with hu | hu
          · exact hbefore u hu
          · exact quiet_of_taken (Turn.sound_after h) (by omega) hnone u hu
      · rw [hpending] at hdone
        cases hdone
    · rcases hends with ⟨hdone, -⟩ | ⟨-, hnone, launch, hlaunch, hmem⟩
      · rw [hpending] at hdone
        cases hdone
      · refine ⟨launch, hlaunch, fun u hu => ?_, reported_once (Turn.sound_after h) hmem⟩
        rcases List.mem_append.1 hu with hu | hu
        · exact hbefore u hu
        · rw [List.mem_singleton.1 hu, hown, hnone]
          rfl

/-- A loop in order, one that is queued, and one that is queued and fails; then both are collected. -/
theorem run_reports_once_queued :
    let loop (body : Body) : Act := .invoke [] ⟨[⟨0, 8⟩]⟩ body ⟨.serial, ⟨10⟩⟩ .still
    let well : Act := loop fun _ => none
    let fails : Act := loop fun _ => some (.literal "boom")
    let steps : List Device.WorkerStep := [.steal 0, .start, .count, .count, .count, .complete]
    let acts := [well, well, fails] ++ (steps ++ steps).map (fun w => .stream (.worker w)) ++ [.drain .still]
    let dispatch (invocation : Nat) : Dispatch := ⟨invocation, 1, .device 4 .async, true⟩
    ∃ r, Region.create (.named "saxpy") [.sequential, .device 4 .async] (Fixed.ofIndex 1) .default = .ok r ∧
      Model.samples (Fixed.ofIndex 1) = 0 ∧
      ∃ first second third later, turns ⟨r, .empty⟩ acts = first :: second :: third :: later ∧
        second.answer? = some (.ok (dispatch 1)) ∧ third.answer? = some (.ok (dispatch 2)) ∧
        (later.map fun u => (u.reportsOf 1 ++ u.reportsOf 2).map (·.elapsed?)) =
          List.replicate 12 [] ++ [[some ⟨10⟩, none]] ∧
        (∃ launch, ReportedOnce ⟨second.context (dispatch 1), launch⟩ (third :: later)) ∧
        (∃ launch, ReportedOnce ⟨third.context (dispatch 2), launch⟩ later) ∧
        (later.map fun u => (u.after.region.samplesOf 1, u.after.region.failuresOf 1)) =
          List.replicate 12 (0, 0) ++ [(1, 1)] := by
  intro loop well fails steps acts dispatch
  obtain ⟨r, hr⟩ : ∃ r, Region.create (.named "saxpy") [.sequential, .device 4 .async]
    (Fixed.ofIndex 1) .default = .ok r := ⟨_, rfl⟩
  let first : Turn Fixed := ⟨⟨r, .empty⟩, well⟩
  let second : Turn Fixed := ⟨first.after, well⟩
  let third : Turn Fixed := ⟨second.after, fails⟩
  have hsecond : second.answer? = some (.ok (dispatch 1)) := by
    cases hr
    decide +kernel
  have hthird : third.answer? = some (.ok (dispatch 2)) := by
    cases hr
    decide +kernel
  obtain ⟨-, hloops⟩ := run_reports_once hr rfl .empty acts
  obtain ⟨-, -, hwell⟩ := hloops [first] second _ rfl (dispatch 1) hsecond
  obtain ⟨-, -, hfails⟩ := hloops [first, second] third _ rfl (dispatch 2) hthird
  obtain ⟨launch, -, -, hwell⟩ := hwell rfl
  obtain ⟨launch', -, -, hfails⟩ := hfails rfl
  refine ⟨r, hr, rfl, first, second, third, _, rfl, hsecond, hthird, ?_, ⟨launch, hwell⟩, ⟨launch', hfails⟩, ?_⟩
  · cases hr
    decide +kernel
  · cases hr
    decide +kernel

end Session

end AdaptiveLoops
