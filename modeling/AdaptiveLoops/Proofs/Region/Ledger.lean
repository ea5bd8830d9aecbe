/-
The ledger of a region: what became of the invocations that were counted.

An invocation is counted before its candidate is picked. From there it ends
as a sample, as a failure, in flight, for want of a slot, or because its
candidate could not be put into use on a closed stream
(`Turn.Answers.counted`). The last of these is reported to nobody, so it has
an entry of its own.
-/
import AdaptiveLoops.Proofs.Model.Picks
import AdaptiveLoops.Proofs.Region.Turns

namespace AdaptiveLoops

open Device (Stream)

variable {α : Type} [Model α]

/-- Whatever it is told, the model picks one of `count` candidates. -/
def Model.InRange (m : α) (count : Nat) : Prop :=
  ∀ reports m', Model.Told m reports m' → ∀ features pending, pending.length = count →
    (Model.select m' features pending).1 < count

theorem Model.InRange.told {m m' : α} {count : Nat} (h : Model.InRange m count) {reports : List Report}
    (htold : Model.Told m reports m') : Model.InRange m' count :=
  fun _ m'' htold' => h _ m'' (htold.trans htold')

theorem MeanTime.inRange (m : MeanTime) {count : Nat} (h : 0 < count) : Model.InRange m count := by
  rintro reports m' - features pending rfl
  exact pick_lt _ h

theorem Fixed.inRange {m : Fixed} {count : Nat} (h : m.index.toNat < count) : Model.InRange m count := by
  intro reports m' htold features pending _
  have hindex : m'.index = m.index := by
    induction htold with
    | refl => rfl
    | asked _ _ _ ih => exact ih
    | told _ report ih =>
      unfold Model.tell
      split <;> exact ih
  have hpick : (Model.select m' features pending).1 = m'.index.toNat := rfl
  rw [hpick, hindex]
  exact h

theorem Region.select_lt {r : Region α} (hmodel : Model.InRange r.model r.policies.length)
    (hsome : 0 < r.policies.length) (features : Features) (invocation : Nat) :
    (r.select features invocation).1 < r.policies.length := by
  unfold Region.select
  split
  · unfold Region.warmupPick
    split
    · exact hsome
    · exact Nat.mod_lt _ hsome
  · exact hmodel [] r.model .refl features _ (by simp [Pool.pendingByCandidate])

/-- The invocations that are settled, as a sample or as a failure, or in flight. -/
def Region.accounted (r : Region α) : Nat :=
  r.totalSamples + r.totalFailures + r.pool.armed.length

namespace Session

/-- The session after these acts. -/
def go (s : Session α) (acts : List Act) : Session α :=
  acts.foldl (fun s act => Turn.after ⟨s, act⟩) s

namespace Turn

/-- An invocation that found no slot. -/
def isExhausted (t : Turn α) : Bool :=
  match t.answer? with
  | some (.error e) => e.isPoolExhausted
  | _ => false

/-- An invocation whose candidate is for the device, not in use, and too late for the stream. -/
def isTurnedAway (t : Turn α) : Bool :=
  match t.picked? with
  | none => false
  | some candidate =>
    t.atChoice.closed && (t.polled.policies[candidate]?).any (·.isDevice) &&
      (t.polled.variant? candidate).isNone

variable {t : Turn α}

theorem isExhausted_of_ok {d : Dispatch} (h : t.answer? = some (.ok d)) : t.isExhausted = false := by
  rw [isExhausted, h]

theorem isExhausted_of_error {e : LoopError} (h : t.answer? = some (.error e)) :
    t.isExhausted = e.isPoolExhausted := by
  rw [isExhausted, h]

section
variable {context : Context} (hpicked : t.picked? = some (t.polled.select t.features t.polled.invocations).1)
  (hfresh : t.polled.Fresh t.features context)
include hpicked hfresh

theorem isTurnedAway_iff :
    t.isTurnedAway = true ↔ ¬ t.polled.Available t.atChoice context.candidate context.policy := by
  rw [← hfresh.pick] at hpicked
  rw [isTurnedAway, hpicked]
  simp only [hfresh.policy, Option.any_some, Bool.and_eq_true, Option.isNone_iff_eq_none, Region.Available]
  constructor
  · rintro ⟨⟨hclosed, hdevice⟩, hunused⟩ havailable
    exact havailable hdevice hclosed hunused
  · intro h
    by_contra hnot
    exact h fun hdevice hclosed hunused => hnot ⟨⟨hclosed, hdevice⟩, hunused⟩

theorem isTurnedAway_of_available (h : t.polled.Available t.atChoice context.candidate context.policy) :
    t.isTurnedAway = false :=
  Bool.eq_false_iff.2 fun haway => (isTurnedAway_iff hpicked hfresh).1 haway h

end

/-- **Every number that is taken is accounted for once**, where the pick is one of the candidates. -/
theorem Answers.counted {left : List Armed} {counted : Nat} (hanswers : t.Answers left counted)
    (hpick : ∀ candidate ∈ t.picked?, candidate < t.polled.policies.length) :
    counted = t.own.length + left.length + (if t.isExhausted = true then 1 else 0) +
      if t.isTurnedAway = true then 1 else 0 := by
  cases hanswers with
  | aside hpicked hanswer herror hown =>
    have hexhausted : t.isExhausted = false := by
      rw [isExhausted]
      split
      · next e he => exact LoopError.isPoolExhausted_of_isOfPool (herror e (error?_of_answer? he))
      · rfl
    have haway : t.isTurnedAway = false := by rw [isTurnedAway, hpicked]
    simp [hown, hexhausted, haway]
  | @numbered hpicked result hanswer _ hends =>
    generalize t.own = own at hends ⊢
    cases hends with
    | finished hfresh havailable elapsed =>
      simp [isExhausted_of_ok hanswer, isTurnedAway_of_available hpicked hfresh havailable]
    | left hfresh havailable hlaunch =>
      simp [isExhausted_of_ok hanswer, isTurnedAway_of_available hpicked hfresh havailable]
    | failed hfresh havailable he =>
      simp [isExhausted_of_error hanswer, isTurnedAway_of_available hpicked hfresh havailable,
        LoopError.isPoolExhausted_of_isOfPool he]
    | exhausted hfresh havailable site capacity =>
      simp [isExhausted_of_error hanswer, isTurnedAway_of_available hpicked hfresh havailable,
        LoopError.isPoolExhausted]
    | unavailable hfresh hunavailable =>
      simp [isExhausted_of_error hanswer, (isTurnedAway_iff hpicked hfresh).2 hunavailable,
        LoopError.isPoolExhausted]
    | outOfRange hpick' hnone =>
      have hlt := hpick _ hpicked
      rw [← hpick'] at hlt
      rw [List.getElem?_eq_none_iff] at hnone
      exact absurd hlt (Nat.not_lt.2 hnone)

theorem length_collected (seen : Device.LaunchId → Option Device.Outcome) (armed : List Armed) :
    (armed.filterMap (Armed.report? seen)).length + (armed.filter (Armed.isUnseen seen)).length =
      armed.length := by
  induction armed with
  | nil => rfl
  | cons a armed ih =>
    rw [List.filterMap_cons, List.filter_cons]
    cases hseen : seen a.launch with
    | none =>
      simp only [Armed.report?, Armed.isUnseen, hseen, Option.map_none, Option.isNone_none, if_true,
        List.length_cons]
      omega
    | some o =>
      simp only [Armed.report?, Armed.isUnseen, hseen, Option.map_some, Option.isNone_some,
        Bool.false_eq_true, if_false, List.length_cons]
      omega

/-- A turn settles what it collects, and adds its own loop to what is settled or in flight. -/
theorem accounted_after (h : t.before.region.Sound) {left : List Armed} {counted : Nat}
    (hmoves : Region.Moves t.before.region t.after.region t.reports
      (left ++ t.before.region.pool.armed.filter (Armed.isUnseen t.seen)) counted) :
    t.after.region.accounted = t.before.region.accounted + t.own.length + left.length := by
  have hsettled := settled_foldl_tally fun _ hreport => candidate_of_mem_reports h hreport
  have hcollected := length_collected t.seen t.before.region.pool.armed
  have harmed := hmoves.armed.length_eq
  rw [← hmoves.stats, reports_eq, List.length_append] at hsettled
  rw [List.length_append] at harmed
  simp only [Region.accounted, Region.totals_eq, hsettled, harmed]
  omega

/-- An error after the pick is one failure of the candidate, but for want of a slot and for a closed stream. -/
theorem stats_of_error (h : t.before.region.Sound) {candidate : Nat} (hpicked : t.picked? = some candidate)
    (hlt : candidate < t.polled.policies.length) {e : LoopError} (herror : t.answer? = some (.error e)) :
    t.after.region.stats =
      if t.isExhausted = true ∨ t.isTurnedAway = true then t.polled.stats
      else t.polled.stats.modify candidate (·.fail) := by
  obtain ⟨left, counted, hanswers, hmoves, -, -⟩ := does h
  have hpoll := Region.drainSeeing_moves h.pool h.unreserved t.seen
  have hstats : t.after.region.stats = t.own.foldl tally t.polled.stats := by
    have hpolled : t.polled.stats =
        (t.before.region.pool.armed.filterMap (Armed.report? t.seen)).foldl tally t.before.region.stats :=
      hpoll.stats
    rw [hmoves.stats, reports_eq, List.foldl_append, hpolled]
  rw [hstats]
  cases hanswers with
  | aside hnone _ _ _ =>
    rw [hpicked] at hnone
    cases hnone
  | @numbered hpicked' result hanswer _ hends =>
    have hcandidate := hpicked.symm.trans hpicked'
    rw [herror, Option.some.injEq] at hanswer
    subst hanswer
    generalize t.own = own at hends ⊢
    cases hends with
    | @failed context hfresh havailable _ he =>
      rw [← hfresh.pick, Option.some.injEq] at hcandidate
      have haway := isTurnedAway_of_available hpicked' hfresh havailable
      have hnot : t.isExhausted = false := by
        rw [isExhausted_of_error herror, LoopError.isPoolExhausted_of_isOfPool he]
      rw [if_neg (by simp [haway, hnot]), hcandidate]
      rfl
    | exhausted hfresh havailable site capacity =>
      rw [if_pos (.inl (isExhausted_of_error herror))]
      rfl
    | unavailable hfresh hunavailable =>
      rw [if_pos (.inr ((isTurnedAway_iff hpicked' hfresh).2 hunavailable))]
      rfl
    | outOfRange hpick hnone =>
      rw [← hpick, Option.some.injEq] at hcandidate
      rw [← hcandidate, List.getElem?_eq_none_iff] at hnone
      exact absurd hlt (Nat.not_lt.2 hnone)

theorem answer?_of_isTurnedAway (h : t.before.region.Sound) (haway : t.isTurnedAway = true) :
    t.answer? = some (.error .streamClosed) := by
  obtain ⟨left, counted, hanswers, -⟩ := does h
  cases hanswers with
  | aside hnone _ _ _ => simp [isTurnedAway, hnone] at haway
  | @numbered hpicked result hanswer _ hends =>
    have hnot : ∀ {context : Context}, t.polled.Fresh t.features context →
        ¬ t.polled.Available t.atChoice context.candidate context.policy := fun hfresh =>
      (isTurnedAway_iff hpicked hfresh).1 haway
    rw [hanswer]
    generalize t.own = own at hends
    cases hends with
    | finished hfresh havailable elapsed => exact absurd havailable (hnot hfresh)
    | left hfresh havailable hlaunch => exact absurd havailable (hnot hfresh)
    | failed hfresh havailable he => exact absurd havailable (hnot hfresh)
    | exhausted hfresh havailable site capacity => exact absurd havailable (hnot hfresh)
    | unavailable hfresh hunavailable => rfl
    | outOfRange hpick hnone => simp [isTurnedAway, hpicked, ← hpick, hnone] at haway

theorem picked?_lt (h : t.before.region.Sound)
    (hmodel : Model.InRange t.before.region.model t.before.region.policies.length)
    (hsome : 0 < t.before.region.policies.length) :
    ∀ candidate ∈ t.picked?, candidate < t.polled.policies.length := by
  have hpoll := Region.drainSeeing_moves h.pool h.unreserved t.seen
  have hpolicies : t.polled.policies = t.before.region.policies := hpoll.policies
  have hpolled : Model.InRange t.polled.model t.polled.policies.length := hpolicies ▸ hmodel.told hpoll.model
  obtain ⟨left, counted, hanswers, -⟩ := does h
  intro candidate hcandidate
  cases hanswers with
  | aside hpicked _ _ _ => simp [hpicked] at hcandidate
  | numbered hpicked _ _ =>
    rw [hpicked, Option.mem_some_iff] at hcandidate
    rw [← hcandidate]
    exact Region.select_lt hpolled (hpolicies ▸ hsome) _ _

end Turn

/-! ## Runs -/

/-- **Each turn of a run keeps the ledger.** -/
theorem go_accounted : ∀ (acts : List Act) {s : Session α}, s.region.Sound →
    Model.InRange s.region.model s.region.policies.length → 0 < s.region.policies.length →
      (s.go acts).region.Sound ∧
      (s.go acts).region.invocations + s.region.accounted =
        s.region.invocations + (s.go acts).region.accounted + (s.turns acts).countP Turn.isExhausted +
          (s.turns acts).countP Turn.isTurnedAway
  | [], s, h, _, _ => ⟨h, rfl⟩
  | act :: acts, s, h, hmodel, hsome => by
    obtain ⟨left, counted, hanswers, hmoves, -, -⟩ := Turn.does (t := ⟨s, act⟩) h
    have hcounted := hanswers.counted (Turn.picked?_lt (t := ⟨s, act⟩) h hmodel hsome)
    have haccounted := Turn.accounted_after (t := ⟨s, act⟩) h hmoves
    have hinvocations : (Turn.after ⟨s, act⟩).region.invocations = s.region.invocations + counted :=
      hmoves.invocations
    have hpolicies : (Turn.after ⟨s, act⟩).region.policies = s.region.policies := hmoves.policies
    obtain ⟨hsound, hrest⟩ := go_accounted acts (s := Turn.after ⟨s, act⟩)
      (Turn.sound_after (t := ⟨s, act⟩) h) (hpolicies ▸ hmodel.told hmoves.model) (hpolicies ▸ hsome)
    refine ⟨hsound, ?_⟩
    rw [turns, List.countP_cons, List.countP_cons]
    simp only at haccounted
    have hgo : s.go (act :: acts) = (Turn.after ⟨s, act⟩).go acts := rfl
    rw [hgo]
    omega

/--
**The ledger of a region adds up**, in every session with a new region whose model picks from its candidates:
each invocation that was counted is a sample, a failure, in flight, one that found no slot, or one that was
turned away, because its candidate was for the device and not in use when the stream had been closed.

Who is turned away is told that the stream is closed, and no failure is counted; nor is one for want of a
slot. Any other error behind a pick is one failure of the candidate that was picked.
-/
theorem run_ledger {site : CallSite} {policies : List Policy} {model : α} {config : Config} {r : Region α}
    (hr : Region.create site policies model config = .ok r) (hmodel : Model.InRange model policies.length)
    (stream : Stream) (acts : List Act) :
    let r' := (go ⟨r, stream⟩ acts).region
    r'.invocations = r'.totalSamples + r'.totalFailures + r'.pool.armed.length +
        (turns ⟨r, stream⟩ acts).countP Turn.isExhausted + (turns ⟨r, stream⟩ acts).countP Turn.isTurnedAway ∧
      r'.inFlight = r'.pool.armed.length ∧
      ∀ t ∈ turns ⟨r, stream⟩ acts,
        (t.isTurnedAway = true → t.answer? = some (.error .streamClosed)) ∧
        ∀ candidate ∈ t.picked?, candidate < policies.length ∧ ∀ e, t.answer? = some (.error e) →
          t.after.region.stats =
            if t.isExhausted = true ∨ t.isTurnedAway = true then t.polled.stats
            else t.polled.stats.modify candidate (·.fail) := by
  have hsound := Region.create_sound hr
  have hsome := Region.create_policies hr
  obtain ⟨hpolicies, -, -, hpool, hnew, hzero⟩ := Region.create_eq_ok hr
  obtain ⟨hsamples, hfailures⟩ := Region.create_totals hr
  have hin : Model.InRange r.model r.policies.length := hnew ▸ hpolicies ▸ hmodel
  obtain ⟨hend, hledger⟩ := go_accounted acts (s := ⟨r, stream⟩) hsound hin (hpolicies ▸ hsome)
  refine ⟨?_, (hend.pool.length_armed hend.unreserved).symm, fun t ht => ?_⟩
  · have harmed : r.pool.armed = [] := Region.armed_of_create hr
    simp only [Region.accounted, hsamples, hfailures, harmed, hzero, List.length_nil] at hledger
    omega
  · obtain ⟨earlier, later, heq⟩ := List.append_of_mem ht
    obtain ⟨h, hsame, htold, -⟩ := turns_eq_append (s := ⟨r, stream⟩) hsound heq
    have hlt := Turn.picked?_lt h (hsame ▸ hin.told htold) (hsame ▸ hpolicies ▸ hsome)
    have hpoll := Region.drainSeeing_moves h.pool h.unreserved t.seen
    have hpolled : t.polled.policies = policies := hpoll.policies.trans (hsame.trans hpolicies)
    refine ⟨Turn.answer?_of_isTurnedAway h, fun candidate hpicked => ?_⟩
    exact ⟨hpolled ▸ hlt candidate hpicked, fun e => Turn.stats_of_error h hpicked (hlt candidate hpicked)⟩

/-- A loop that is queued, one that finds no slot, and one that is queued once the first is collected. -/
theorem run_ledger_queued :
    let loop : Act := .invoke [] ⟨[⟨0, 8⟩]⟩ (fun _ => none) ⟨.serial, ⟨10⟩⟩ .still
    let steps : List Device.WorkerStep := [.steal 0, .start, .count, .count, .count, .complete]
    let acts := [loop, loop] ++ steps.map (fun w => .stream (.worker w)) ++ [loop]
    let config : Config := { Config.default with poolCapacity := 1 }
    ∃ r, Region.create (.named "saxpy") [.device 4 .async] (Fixed.ofIndex 0) config = .ok r ∧
      Model.InRange (Fixed.ofIndex 0) 1 ∧
      let r' := (go ⟨r, .empty⟩ acts).region
      (r'.invocations = 3 ∧ r'.totalSamples = 1 ∧ r'.pool.armed.length = 1) ∧
        r'.invocations = r'.totalSamples + r'.totalFailures + r'.pool.armed.length +
          (turns ⟨r, .empty⟩ acts).countP Turn.isExhausted +
            (turns ⟨r, .empty⟩ acts).countP Turn.isTurnedAway := by
  intro loop steps acts config
  obtain ⟨r, hr⟩ : ∃ r, Region.create (.named "saxpy") [.device 4 .async] (Fixed.ofIndex 0) config = .ok r :=
    ⟨_, rfl⟩
  have hin : Model.InRange (Fixed.ofIndex 0) 1 := Fixed.inRange (by decide)
  have hledger := (run_ledger hr hin .empty acts).1
  refine ⟨r, hr, hin, ?_, hledger⟩
  cases hr
  decide +kernel

/-- Without those who are turned away the ledger does not add up: the invocation is counted, and it is neither a
sample nor a failure, nor in flight, nor one that found no slot. -/
theorem run_ledger_turned_away :
    let loop : Act := .invoke [] ⟨[⟨0, 8⟩]⟩ (fun _ => none) ⟨.serial, ⟨10⟩⟩ .still
    ∃ r, Region.create (.named "saxpy") [.device 4 .async] (Fixed.ofIndex 0) .default = .ok r ∧
      Model.InRange (Fixed.ofIndex 0) 1 ∧
      let r' := (go ⟨r, .empty⟩ [.stream .shutdown, loop]).region
      r'.invocations ≠ r'.totalSamples + r'.totalFailures + r'.pool.armed.length +
        (turns ⟨r, .empty⟩ [.stream .shutdown, loop]).countP Turn.isExhausted := by
  intro loop
  refine ⟨_, rfl, Fixed.inRange (by decide), ?_⟩
  decide +kernel

end Session

end AdaptiveLoops
