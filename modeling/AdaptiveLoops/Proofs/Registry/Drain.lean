/-
Draining a registry.

A drain goes on behind a failure: every region is drained as if it were the
only one, and only the answer depends on the failures (`drainAllSeeing_answers`).
So what was launched before a synchronization is collected by the next
drain, whatever that drain answers, and where nothing is launched in between
there is nothing left for the drain behind it (`run_drains`).
-/
import AdaptiveLoops.Proofs.Registry.Run

namespace AdaptiveLoops

open Device (Stream LaunchId Outcome)

namespace Registry

variable {α : Type} [Model α] {g : Registry α}

/-! ## Answers -/

theorem answersFor_cons {done : List Collected} {lists : List (List Collected)} {result others : Except LoopError Nat}
    (h : AnswersFor [done] result) (hothers : AnswersFor lists others) :
    AnswersFor (done :: lists) (addAnswers result others) := by
  cases h with
  | failed hdone hc hfailed hlowest =>
    obtain rfl := List.mem_singleton.1 hdone
    exact .failed List.mem_cons_self hc hfailed hlowest
  | all hnone =>
    cases hothers with
    | failed hdone hc hfailed hlowest => exact .failed (List.mem_cons_of_mem _ hdone) hc hfailed hlowest
    | all hrest =>
      have hall : ∀ done' ∈ done :: lists, ∀ c ∈ done', c.outcome.isFailed = false :=
        List.forall_mem_cons.2 ⟨hnone done List.mem_cons_self, hrest⟩
      simpa [addAnswers] using AnswersFor.all hall

/-- **What a drain answers**, whatever the order of the regions is. -/
theorem drainAllSeeing_answers (seen : LaunchId → Option Outcome) : ∀ regions : List (Region α),
    AnswersFor (regions.map (·.collected seen)) (drainAllSeeing seen regions).2
  | [] => .all nofun
  | r :: rest => answersFor_cons (r.drainSeeing_answers seen) (drainAllSeeing_answers seen rest)

/-! ## Launches in flight -/

/-- Every launch in flight is like this on the stream. -/
def InFlightAll (P : Stream → Armed → Prop) (g : Registry α) : Prop :=
  ∀ r ∈ g.regions, ∀ a ∈ r.pool.armed, P g.stream a

/-- What is so of a launch stays so as the stream goes on. -/
def Lasting (P : Stream → Armed → Prop) : Prop :=
  ∀ s s' a, s.Reaches s' → P s a → P s' a

theorem lasting_isComplete : Lasting fun s a => s.isComplete a.launch = true := by
  intro s s' a hreaches hcomplete
  obtain ⟨o, ho⟩ := Option.isSome_iff_exists.1 hcomplete
  exact Option.isSome_iff_exists.2 ⟨o, hreaches.outcome? ho⟩

theorem lasting_false : Lasting fun _ _ => False := fun _ _ _ _ h => h

section
variable {P : Stream → Armed → Prop} (hP : Lasting P)
include hP

omit [Model α] in
theorem InFlightAll.reaches (h : g.InFlightAll P) {stream : Stream} (hreaches : g.stream.Reaches stream) :
    ({ g with stream } : Registry α).InFlightAll P :=
  fun r hr a ha => hP _ _ a hreaches (h r hr a ha)

omit [Model α] in
theorem InFlightAll.put (h : g.InFlightAll P) {r : Region α} {stream : Stream}
    (hreaches : g.stream.Reaches stream) (hr : ∀ a ∈ r.pool.armed, P stream a) : (g.put r stream).InFlightAll P := by
  intro r' hr' a ha
  rcases mem_setRegion hr' with rfl | hold
  · exact hr a ha
  · exact hP _ _ a hreaches (h r' hold a ha)

theorem InFlightAll.drained (h : g.InFlightAll P) (hg : g.Sound) {r : Region α} (hr : r ∈ g.regions)
    (polling : Polling) :
    ∀ a ∈ (r.drainSeeing (polling.seen g.stream)).1.pool.armed, P (polling.after g.stream) a := by
  intro a ha
  have hwell := (hg.regions r hr).sound
  have hmem := (Region.drainSeeing_moves hwell.pool hwell.unreserved (polling.seen g.stream)).armed.subset ha
  exact hP _ _ a (polling.reaches_after g.stream) (h r hr a (List.mem_of_mem_filter hmem))

/-- **Calls that launch nothing add nothing to what is in flight.** -/
theorem InFlightAll.after (h : g.InFlightAll P) (hg : g.Sound) {act : Act} (hquiet : act.isQuiet = true) :
    (g.after act).InFlightAll P := by
  cases act with
  | invoke site policies space body now meanwhile => cases hquiet
  | region site policies =>
    simp only [Registry.after]
    split
    · exact h
    · next g' r hregion =>
      obtain ⟨-, -, -, rfl | ⟨-, hnew, hcreate⟩⟩ := region_eq_ok hregion
      · exact h
      · subst hnew
        intro r' hr' a ha
        rcases List.mem_append.1 hr' with hold | hnew
        · exact h r' hold a ha
        · rw [List.mem_singleton.1 hnew, Region.armed_of_create hcreate] at ha
          cases ha
  | drain polling =>
    intro r' hr' a ha
    simp only [Registry.after, drainDuring, drainAllSeeing_regions] at hr'
    obtain ⟨r, hr, rfl⟩ := List.mem_map.1 hr'
    exact h.drained hP hg hr polling a ha
  | drainRegion site polling =>
    simp only [Registry.after]
    split
    · exact h
    · next r hfound =>
      exact h.put hP (polling.reaches_after g.stream) (h.drained hP hg (mem_of_region? hfound).1 polling)
  | synchronize meanwhile => exact h.reaches hP (Stream.reaches_synchronizeDuring g.stream meanwhile)
  | addPlugin p => exact h
  | stream e => exact h.reaches hP ⟨[e], rfl⟩

theorem InFlightAll.run (h : g.InFlightAll P) (hg : g.Sound) {acts : List Act}
    (hquiet : ∀ act ∈ acts, act.isQuiet = true) : (g.run acts).InFlightAll P := by
  induction acts generalizing g with
  | nil => exact h
  | cons act acts ih =>
    rw [List.forall_mem_cons] at hquiet
    exact ih (h.after hP hg hquiet.1) (hg.after act) hquiet.2

end

omit [Model α] in
/-- **Behind a synchronization** whatever was in flight is complete. -/
theorem Sound.synchronized (h : g.Sound) (meanwhile : List Device.Event) :
    (g.synchronizeDuring meanwhile).InFlightAll fun s a => s.isComplete a.launch = true := by
  obtain ⟨log, hlog⟩ := h.accepted
  intro r hr a ha
  exact hlog.synchronizeDuring meanwhile ((h.regions r hr).launched a ha)

/-- **A drain leaves nothing that is complete**, whatever it answers. -/
theorem Sound.drained (h : g.Sound) (hcomplete : g.InFlightAll fun s a => s.isComplete a.launch = true)
    (polling : Polling) : (g.drainDuring polling).1.InFlightAll fun _ _ => False := by
  intro r' hr' a ha
  simp only [drainDuring, drainAllSeeing_regions] at hr'
  obtain ⟨r, hr, rfl⟩ := List.mem_map.1 hr'
  have hwell := (h.regions r hr).sound
  have hnone : (r.drainSeeing (polling.seen g.stream)).1.pool.armed = [] := by
    refine Region.armed_drainSeeing_eq_nil hwell.pool hwell.unreserved fun a ha => ?_
    obtain ⟨o, ho⟩ := Option.isSome_iff_exists.1 (hcomplete r hr a ha)
    rw [Polling.seen_of_outcome? ho]
    rfl
  rw [hnone] at ha
  cases ha

omit [Model α] in
theorem armed_eq_nil (h : g.InFlightAll fun _ _ => False) {r : Region α} (hr : r ∈ g.regions) :
    r.pool.armed = [] :=
  List.eq_nil_iff_forall_not_mem.2 (h r hr)

omit [Model α] in
theorem Sound.inFlight_eq_zero (h : g.Sound) (hnone : g.InFlightAll fun _ _ => False) {r : Region α}
    (hr : r ∈ g.regions) : r.inFlight = 0 := by
  have hwell := (h.regions r hr).sound
  have hlength := hwell.pool.length_armed hwell.unreserved
  rw [armed_eq_nil hnone hr] at hlength
  exact hlength.symm

theorem isPoolExhausted_drainAllSeeing {seen : LaunchId → Option Outcome} {regions : List (Region α)} {e : LoopError}
    (h : (drainAllSeeing seen regions).2 = .error e) : e.isPoolExhausted = false := by
  have hanswers := drainAllSeeing_answers seen regions
  rw [h] at hanswers
  cases hanswers
  rfl

theorem drainAllSeeing_of_armed_eq_nil (seen : LaunchId → Option Outcome) : ∀ {regions : List (Region α)},
    (∀ r ∈ regions, r.pool.armed = []) → (drainAllSeeing seen regions).2 = .ok 0
  | [], _ => rfl
  | r :: rest, h => by
    rw [List.forall_mem_cons] at h
    simp only [drainAllSeeing, Region.drainSeeing_of_armed_eq_nil h.1, drainAllSeeing_of_armed_eq_nil seen h.2]
    rfl

/--
**Draining is complete, failures or not**, for every registry that calls and the stream can lead to, and whatever
the stream does during the calls.

A drain does in every region what a drain of that region does: it collects the launches that it sees complete,
in the order of their slots, frees those slots and no other, and counts each launch for its candidate, as a
sample that the model is told of or as a failure. What was complete before is seen, and what is seen is
complete. In whatever order the regions are drained, the answer is the number of launches that were collected
if none of them failed, and else the failure in the lowest slot of some region.

So once a registry has been synchronized, a drain with nothing launched in between leaves nothing in flight,
and the drain behind it collects nothing.
-/
theorem run_drains {config : Config} {cores : Nat} {makeModel : CallSite → Nat → α} {g₀ : Registry α}
    (h : create config cores makeModel = .ok g₀) (acts : List Act) :
    let g := g₀.run acts
    (∀ polling : Polling,
      let seen := polling.seen g.stream
      (g.drainDuring polling).1 =
        { g with
          regions := g.regions.map fun r => (r.drainSeeing seen).1
          stream := polling.after g.stream } ∧
      (∀ r ∈ g.regions, r.Drained seen (r.collected seen) (r.drainSeeing seen).1) ∧
      (∀ regions, regions.Perm g.regions →
        AnswersFor (regions.map (·.collected seen)) (drainAllSeeing seen regions).2) ∧
      (g.drainDuring polling).2 = (drainAllSeeing seen g.regions).2 ∧
      (∀ id o, g.stream.outcome? id = some o → seen id = some o) ∧
      ∀ id o, seen id = some o → (polling.after g.stream).outcome? id = some o) ∧
    ∀ meanwhile quiet, (∀ act ∈ quiet, act.isQuiet = true) → ∀ polling,
      let drained := (((g.synchronizeDuring meanwhile).run quiet).drainDuring polling).1
      (∀ r ∈ drained.regions, r.inFlight = 0) ∧
        ∀ later, (∀ act ∈ later, act.isQuiet = true) →
          ∀ polling', ((drained.run later).drainDuring polling').2 = .ok 0 := by
  intro g
  have hg : g.Sound := (create_sound h).run acts
  refine ⟨fun polling => ⟨?_, fun r _ => r.drainSeeing_drained _, fun regions _ => drainAllSeeing_answers _ regions,
    rfl, fun id o => Polling.seen_of_outcome?, fun id o => Polling.outcome?_of_seen⟩, ?_⟩
  · simp only [drainDuring, drainAllSeeing_regions]
  · intro meanwhile quiet hquiet polling drained
    have hsynchronized : (g.synchronizeDuring meanwhile).Sound := hg.after (.synchronize meanwhile)
    have hcomplete := (hg.synchronized meanwhile).run lasting_isComplete hsynchronized hquiet
    have hdrained : drained.Sound := (hsynchronized.run quiet).after (.drain polling)
    have hnone := (hsynchronized.run quiet).drained hcomplete polling
    refine ⟨fun r hr => hdrained.inFlight_eq_zero hnone hr, fun later hlater polling' => ?_⟩
    have hlast := hnone.run lasting_false hdrained hlater
    exact drainAllSeeing_of_armed_eq_nil _ fun r hr => armed_eq_nil hlast hr

/-- Of two regions one has a launch that failed, behind one that is still queued by the other. -/
theorem run_drains_failed :
    let loop (site : String) (body : Body) : Act :=
      .invoke (.named site) [.device 4 .async] ⟨[⟨0, 8⟩]⟩ body ⟨.serial, ⟨10⟩⟩ .still
    let steps : List Device.WorkerStep := [.steal 0, .start, .count, .count, .count, .complete]
    let acts := [loop "saxpy" fun _ => some (.literal "boom"), loop "stencil" fun _ => none] ++
      steps.map fun w => .stream (.worker w)
    let still : Polling := ⟨[], fun _ => 0⟩
    ∃ g₀, create .default 2 (fun _ _ => Fixed.ofIndex 0) = .ok g₀ ∧
      let g := g₀.run acts
      (g.regions.map (·.inFlight), (g.drainDuring still).1.regions.map (·.inFlight)) = ([1, 1], [0, 1]) ∧
        (g.drainDuring still).2 = .error (.backendFailure .device "boom") ∧
        let drained := (((g.synchronizeDuring []).run []).drainDuring still).1
        (∀ r ∈ drained.regions, r.inFlight = 0) ∧ (drained.drainDuring still).2 = .ok 0 := by
  intro loop steps acts still
  obtain ⟨g₀, hg₀⟩ : ∃ g₀, create .default 2 (fun _ _ => Fixed.ofIndex 0) = .ok g₀ := ⟨_, rfl⟩
  obtain ⟨hnone, hlater⟩ := (run_drains hg₀ acts).2 [] [] (by simp) still
  refine ⟨g₀, hg₀, ?_, ?_, hnone, hlater [] (by simp) still⟩
  · cases hg₀
    decide +kernel
  · cases hg₀
    decide +kernel

end Registry

end AdaptiveLoops
