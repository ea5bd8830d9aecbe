/-
What the bench loop counts.

Between two iterations every pick is a sample or in flight, and the region
has counted one invocation for each iteration and for each retry
(`Bench.Steady`). An iteration keeps this as long as it goes well, and it is
never stopped by a full pool, since whatever was in flight at the first call
is complete at the second (`Steady.retry`). At the end nothing is in flight,
so the picks are the samples (`Steady.collected`).
-/
import AdaptiveLoops.Proofs.Bench.Run
import AdaptiveLoops.Proofs.Region.Exhaustion
import AdaptiveLoops.Proofs.Region.Tally

namespace AdaptiveLoops

open Device (Stream)

variable {α : Type}

namespace Bench

variable {b : Bench α} {count : Nat}

/-! ## Between two iterations -/

/-- `count` iterations have gone well so far. -/
structure Steady (b : Bench α) (count : Nat) : Prop where
  sound : b.registry.Sound
  sum : b.picks.sum = count
  untouched : b.registry.region? b.site = none → b.retries = 0 ∧ b.picks = b.policies.map fun _ => 0
  tallied : ∀ r, b.registry.region? b.site = some r → r.Tallied b.picks ∧ r.invocations = count + b.retries

theorem start_steady {g : Registry α} (hg : g.Sound) {site : CallSite} (hfresh : g.region? site = none)
    (policies : List Policy) (space : IterationSpace) : (start g site policies space).Steady 0 where
  sound := hg
  sum := by simp [start]
  untouched _ := ⟨rfl, rfl⟩
  tallied r hr := by
    rw [show g.region? site = some r from hr] at hfresh
    cases hfresh

theorem Steady.count_eq_zero (h : b.Steady count) (hnone : b.registry.region? b.site = none) : count = 0 := by
  rw [← h.sum, (h.untouched hnone).2]
  simp

theorem Steady.region (h : b.Steady count) {g : Registry α} {r : Region α}
    (hregion : b.registry.region b.site b.policies = .ok (g, r)) :
    r.Tallied b.picks ∧ r.invocations = count + b.retries := by
  obtain ⟨-, hfound, -, rfl | ⟨hnone, -, hcreate⟩⟩ := Registry.region_eq_ok hregion
  · exact h.tallied r hfound
  · obtain ⟨hretries, hpicks⟩ := h.untouched hnone
    have hinvocations : r.invocations = 0 := (Region.create_eq_ok hcreate).2.2.2.2.2
    rw [hpicks, hinvocations, h.count_eq_zero hnone, hretries]
    exact ⟨Region.create_tallied hcreate, rfl⟩

theorem Steady.goOn (h : b.Steady count) (events : List Device.Event) : (b.goOn events).Steady count where
  sound := h.sound.reaches (Stream.reaches_run _ events)
  sum := h.sum
  untouched := h.untouched
  tallied := h.tallied

/-! ## Calls -/

variable [Model α] {body : LoopBody}

/-- **One call**: a loop that is dispatched is one more pick, and one that finds no slot costs a retry. -/
theorem Steady.invoke (h : b.Steady count) (body : LoopBody) (meanwhile : Meanwhile) (now : Moment) :
    (∀ d, (b.invokeDuring body meanwhile now).2 = .ok d →
      ((b.invokeDuring body meanwhile now).1.picked d.candidate).Steady (count + 1)) ∧
    ∀ e, (b.invokeDuring body meanwhile now).2 = .error e → e.isPoolExhausted = true →
      ∀ waiting, ((b.invokeDuring body meanwhile now).1.waitOut waiting).Steady count := by
  have hsound := h.sound.after (.invoke b.site b.policies b.space body now meanwhile)
  cases hregion : b.registry.region b.site b.policies with
  | error e =>
    have hresult : (b.invokeDuring body meanwhile now).2 = .error e := by
      simp only [invokeDuring, Registry.invokeDuring_eq, hregion]
    rw [hresult]
    constructor
    · intro d hd
      cases hd
    · intro e' he hexhausted
      cases he
      rw [Registry.isPoolExhausted_of_region hregion] at hexhausted
      cases hexhausted
  | ok made =>
    obtain ⟨g, r⟩ := made
    obtain ⟨htallied, hinvocations⟩ := h.region hregion
    obtain ⟨hwell, hanswer, hafter⟩ := h.sound.invokeDuring_turn hregion meanwhile b.space body now
    constructor
    · intro d hd
      obtain ⟨hpicks, hlt, htaken⟩ :=
        Session.Turn.tallied_of_ok hwell.sound htallied (hanswer.trans (congrArg some hd))
      refine ⟨hsound, ?_, fun hnone => ?_, fun r' hr' => ?_⟩
      · have hsum := sum_map_modify (f := id) (g := (· + 1)) (k := 1) (fun _ => rfl) hlt
        simp only [List.map_id] at hsum
        exact hsum.trans (congrArg (· + 1) h.sum)
      · cases hafter.symm.trans hnone
      · cases hafter.symm.trans hr'
        refine ⟨hpicks, htaken.trans ?_⟩
        show r.invocations + 1 = count + 1 + b.retries
        omega
    · intro e he hexhausted waiting
      obtain ⟨hpicks, htaken⟩ :=
        Session.Turn.tallied_of_exhausted hwell.sound htallied (hanswer.trans (congrArg some he)) hexhausted
      refine ⟨hsound.after (.synchronize waiting), h.sum, fun hnone => ?_, fun r' hr' => ?_⟩
      · cases hafter.symm.trans hnone
      · cases hafter.symm.trans hr'
        refine ⟨hpicks, htaken.trans ?_⟩
        show r.invocations + 1 = count + (b.retries + 1)
        omega

/-- **A call finds a slot where everything in flight is complete.** -/
theorem isPoolExhausted_invokeDuring (hsound : b.registry.Sound)
    (hcomplete : b.registry.InFlightAll fun s a => s.isComplete a.launch = true) {meanwhile : Meanwhile}
    {now : Moment} {e : LoopError} (he : (b.invokeDuring body meanwhile now).2 = .error e) :
    e.isPoolExhausted = false := by
  cases hregion : b.registry.region b.site b.policies with
  | error e' =>
    simp only [invokeDuring, Registry.invokeDuring_eq, hregion] at he
    cases he
    exact Registry.isPoolExhausted_of_region hregion
  | ok made =>
    obtain ⟨g, r⟩ := made
    obtain ⟨hg, hr⟩ := hsound.region hregion
    obtain ⟨hwell, hanswer, -⟩ := hsound.invokeDuring_turn hregion meanwhile b.space body now
    -- A region that is made for the call has nothing in flight.
    have hmade : (b.registry.after (.region b.site b.policies)).InFlightAll fun s a => s.isComplete a.launch = true :=
      hcomplete.after Registry.lasting_isComplete hsound rfl
    simp only [Registry.after, hregion] at hmade
    have hnot := Session.Turn.isExhausted_of_complete hwell hg.capacity (hmade r hr)
    rwa [Session.Turn.isExhausted_of_error (hanswer.trans (congrArg some he))] at hnot

/-! ## Iterations -/

theorem Steady.retry {pace : Pace} (h : (b.waitOut pace.waiting).Steady count) (hsound : b.registry.Sound)
    (body : LoopBody) :
    (∀ e, (b.retryDuring body pace).2 = .error e → e.isPoolExhausted = false) ∧
      ((b.retryDuring body pace).2 = .ok () → (b.retryDuring body pace).1.Steady (count + 1)) := by
  have hcomplete : (b.waitOut pace.waiting).registry.InFlightAll fun s a => s.isComplete a.launch = true :=
    hsound.synchronized pace.waiting
  have hslot : ∀ e, ((b.waitOut pace.waiting).invokeDuring body pace.retrying pace.again).2 = .error e →
      e.isPoolExhausted = false := fun _ => isPoolExhausted_invokeDuring h.sound hcomplete
  have hsecond := h.invoke body pace.retrying pace.again
  unfold retryDuring
  generalize (b.waitOut pace.waiting).invokeDuring body pace.retrying pace.again = second at hsecond hslot ⊢
  obtain ⟨b', result⟩ := second
  cases result with
  | ok d => exact ⟨nofun, fun _ => hsecond.1 d rfl⟩
  | error e =>
    refine ⟨?_, nofun⟩
    rintro _ ⟨⟩
    exact hslot e rfl

/-- **An iteration that goes well is one more pick**, and none is stopped by a full pool. -/
theorem Steady.step (h : b.Steady count) (body : LoopBody) (pace : Pace) :
    (∀ e, (b.stepDuring body pace).2 = .error e → e.isPoolExhausted = false) ∧
      ((b.stepDuring body pace).2 = .ok () → (b.stepDuring body pace).1.Steady (count + 1)) := by
  have hfirst := (h.goOn pace.before).invoke body pace.meanwhile pace.now
  have hsound : ((b.goOn pace.before).invokeDuring body pace.meanwhile pace.now).1.registry.Sound :=
    (h.goOn pace.before).sound.after (.invoke b.site b.policies b.space body pace.now pace.meanwhile)
  unfold stepDuring
  generalize (b.goOn pace.before).invokeDuring body pace.meanwhile pace.now = first at hfirst hsound ⊢
  obtain ⟨b', result⟩ := first
  cases result with
  | ok d => exact ⟨nofun, fun _ => hfirst.1 d rfl⟩
  | error e =>
    dsimp only
    split
    · next hexhausted => exact (hfirst.2 e rfl hexhausted pace.waiting).retry hsound body
    · next hother =>
      refine ⟨?_, nofun⟩
      rintro _ ⟨⟩
      exact Bool.eq_false_iff.2 hother

/-! ## The end -/

/-- What has been counted of a site in `count` iterations, with everything collected. -/
structure Counted (b : Bench α) (site : CallSite) (count : Nat) : Prop where
  sum : b.picks.sum = count
  called : 0 < count → ∃ r, b.registry.region? site = some r
  samples : ∀ r, b.registry.region? site = some r → b.picks = r.stats.map (·.samples)
  failures : ∀ r, b.registry.region? site = some r → ∀ s ∈ r.stats, s.failures = 0
  inFlight : ∀ r, b.registry.region? site = some r → r.inFlight = 0
  invocations : ∀ r, b.registry.region? site = some r → r.invocations = count + b.retries

/-- How a run of `count` iterations can end. -/
structure Accounted (site : CallSite) (count : Nat) (out : Bench α × Except LoopError Unit) : Prop where
  slot : ∀ e, out.2 = .error e → e.isPoolExhausted = false
  counted : out.2 = .ok () → out.1.Counted site count

/-- **Behind the last iteration** everything is collected, so the picks are the samples. -/
theorem Steady.collected (h : b.Steady count) {closing : List Device.Event} {polling : Polling} {n : Nat}
    (hdrain : ((b.registry.synchronizeDuring closing).drainDuring polling).2 = .ok n) :
    (b.finishDuring closing polling).1.Counted b.site count := by
  let g := b.registry.synchronizeDuring closing
  have hg : g.Sound := h.sound.after (.synchronize closing)
  have hdrained : (g.drainDuring polling).1.Sound := hg.after (.drain polling)
  have hnone := hg.drained (h.sound.synchronized closing) polling
  have hregion := g.region?_drainDuring polling b.site
  have hcounted : ∀ r', (g.drainDuring polling).1.region? b.site = some r' →
      (b.picks = r'.stats.map (·.samples) ∧ ∀ s ∈ r'.stats, s.failures = 0) ∧
        r'.inFlight = 0 ∧ r'.invocations = count + b.retries := by
    intro r' hr'
    have hmem := (Registry.mem_of_region? hr').1
    rw [hregion, Option.map_eq_some_iff] at hr'
    obtain ⟨r, hr, rfl⟩ := hr'
    have hold : r ∈ g.regions := (Registry.mem_of_region? hr).1
    obtain ⟨htallied, hinvocations⟩ := h.tallied r hr
    obtain ⟨m, hregionDrain⟩ := Registry.drainSeeing_of_drainAllSeeing hdrain r hold
    let t : Session.Turn α := ⟨⟨r, g.stream⟩, .drain polling⟩
    obtain ⟨hpicks, hsame⟩ := t.tallied_of_drain (hg.regions r hold).sound htallied rfl hregionDrain
    exact ⟨hpicks.picks_eq (Registry.armed_eq_nil hnone hmem), hdrained.inFlight_eq_zero hnone hmem,
      hsame.trans hinvocations⟩
  refine {
    sum := h.sum
    called := fun hpos => ?_
    samples := fun r hr => (hcounted r hr).1.1
    failures := fun r hr => (hcounted r hr).1.2
    inFlight := fun r hr => (hcounted r hr).2.1
    invocations := fun r hr => (hcounted r hr).2.2 }
  cases hfound : b.registry.region? b.site with
  | none => exact absurd (h.count_eq_zero hfound) (Nat.ne_of_gt hpos)
  | some r => exact ⟨_, hregion.trans (congrArg (Option.map _) hfound)⟩

theorem Steady.finish (h : b.Steady count) (closing : List Device.Event) (polling : Polling) :
    Accounted b.site count (b.finishDuring closing polling) := by
  have hresult : (b.finishDuring closing polling).2 =
      ((b.registry.synchronizeDuring closing).drainDuring polling).2.map fun _ => () := rfl
  cases hdrain : ((b.registry.synchronizeDuring closing).drainDuring polling).2 with
  | ok n =>
    rw [hdrain] at hresult
    refine ⟨fun e he => ?_, fun _ => h.collected hdrain⟩
    cases hresult.symm.trans he
  | error e =>
    rw [hdrain] at hresult
    refine ⟨fun e' he => ?_, fun hok => ?_⟩
    · cases hresult.symm.trans he
      exact Registry.isPoolExhausted_drainAllSeeing hdrain
    · cases hresult.symm.trans hok

/-! ## Runs -/

omit [Model α] in
theorem site_settle (b : Bench α) (result : Except LoopError Dispatch) : (b.settle result).1.site = b.site := by
  cases result <;> rfl

theorem site_stepDuring (b : Bench α) (body : LoopBody) (pace : Pace) : (b.stepDuring body pace).1.site = b.site := by
  unfold stepDuring
  split
  · next b' d hcall =>
    have hsite : b'.site = b.site := (congrArg (·.1.site) hcall).symm
    rw [site_settle, hsite]
  · next b' e hcall =>
    have hsite : b'.site = b.site := (congrArg (·.1.site) hcall).symm
    split
    · exact (site_settle _ _).trans hsite
    · rw [site_settle, hsite]

/-- **Every run**, from where `count` iterations have gone well. -/
theorem Steady.runDuring (h : b.Steady count) (body : LoopBody) (closing : List Device.Event) (polling : Polling)
    (paces : List Pace) :
    Accounted b.site (count + paces.length) (b.runDuring body closing polling paces) := by
  induction paces generalizing b count with
  | nil => exact h.finish closing polling
  | cons pace paces ih =>
    obtain ⟨herror, hok⟩ := h.step body pace
    have hsite := b.site_stepDuring body pace
    unfold Bench.runDuring
    split
    · next b' hstep =>
      rw [hstep] at hok hsite
      rw [List.length_cons, Nat.add_comm paces.length, ← Nat.add_assoc, ← hsite]
      exact ih (hok rfl)
    · next b' e hstep =>
      rw [hstep] at herror
      refine ⟨?_, nofun⟩
      rintro _ ⟨⟩
      exact herror e rfl

/--
**The bench loop neither loses nor miscounts work**, for every registry that calls and the stream can lead to, a
site that has not been called, and any candidates and loop, whatever the stream does before each call, during it
and between the two calls of an iteration that finds the pool full.

It is never stopped by a full pool. Where it goes well, the picks sum up to the number of iterations and are the
samples of the candidates one by one, no candidate has a failure, nothing is in flight, and the region has counted
one invocation for each iteration and one for each retry.

So it is with what is run for a bench, in whatever monad the ticks are told.
-/
theorem run_counts {config : Config} {cores : Nat} {makeModel : CallSite → Nat → α} {g₀ : Registry α}
    (hcreate : Registry.create config cores makeModel = .ok g₀) (acts : List Registry.Act) (site : CallSite)
    (hfresh : (g₀.run acts).region? site = none) (policies : List Policy) (space : IterationSpace) :
    let b := start (g₀.run acts) site policies space
    (∀ body closing polling paces, Accounted site paces.length (b.runDuring body closing polling paces)) ∧
      ∀ (m : Type → Type) [Monad m] [LawfulMonad m] (tick : Nat → Bench α → m Tick) (count : Nat),
        ∃ outs : m { out // Accounted site count out }, b.run tick count = Subtype.val <$> outs := by
  intro b
  have hstart : b.Steady 0 := start_steady ((Registry.create_sound hcreate).run acts) hfresh policies space
  have hruns : ∀ body closing polling paces,
      Accounted site paces.length (b.runDuring body closing polling paces) := by
    intro body closing polling paces
    have hrun := hstart.runDuring body closing polling paces
    rwa [Nat.zero_add] at hrun
  refine ⟨hruns, fun m _ _ tick count => ?_⟩
  obtain ⟨paced, hpaced⟩ := b.run_paced tick count
  have hrun : ∀ p : { paces : List Pace // paces.length = count },
      Accounted site count (b.runDuring Bench.body [] .still p.1) := by
    rintro ⟨paces, rfl⟩
    exact hruns _ _ _ paces
  refine ⟨(fun p => ⟨_, hrun p⟩) <$> paced, ?_⟩
  rw [hpaced, Functor.map_map]

/-- With one slot the second iteration and the third have to wait, since nothing completes by itself. -/
theorem run_counts_retried :
    let one : Config := { Config.default with poolCapacity := 1 }
    let pace : Pace := ⟨[], .still, ⟨.serial, ⟨10⟩⟩, [], .still, ⟨.serial, ⟨10⟩⟩⟩
    ∃ g, Registry.create one 2 (fun _ _ => Fixed.ofIndex 0) = .ok g ∧ g.region? (.named "saxpy") = none ∧
      let b := start g (.named "saxpy") [.device 4 .async] ⟨[⟨0, 8⟩]⟩
      let out := b.runDuring Bench.body [] .still [pace, pace, pace]
      let tick : Nat → Bench Fixed → Id Tick := fun _ _ => pure ⟨0, pace.now, pace.again⟩
      out.2 = .ok () ∧ out.1.retries = 2 ∧ out.1.Counted (.named "saxpy") 3 ∧
        Accounted (.named "saxpy") 3 (b.run tick 3).run := by
  intro one pace
  obtain ⟨g, hg⟩ : ∃ g, Registry.create one 2 (fun _ _ => Fixed.ofIndex 0) = .ok g := ⟨_, rfl⟩
  have hfresh : g.region? (.named "saxpy") = none := by
    cases hg
    rfl
  obtain ⟨hruns, hbench⟩ := run_counts hg [] (.named "saxpy") hfresh [.device 4 .async] ⟨[⟨0, 8⟩]⟩
  have hout : ((start g (.named "saxpy") [.device 4 .async] ⟨[⟨0, 8⟩]⟩).runDuring Bench.body [] .still
      [pace, pace, pace]).2 = .ok () := by
    cases hg
    decide +kernel
  refine ⟨g, hg, hfresh, hout, ?_, (hruns _ _ _ _).counted hout, ?_⟩
  · cases hg
    decide +kernel
  · obtain ⟨⟨out, haccounted⟩, heq⟩ := hbench Id (fun _ _ => pure ⟨0, pace.now, pace.again⟩) 3
    exact (congrArg (Accounted (.named "saxpy") 3) heq).mpr haccounted

end Bench

end AdaptiveLoops
