/-
Runs of a registry: one caller's calls and events of the stream, one after
the other, where the stream goes on during the calls as well.

For the region of its site a call is a turn of a session, and the other
regions see at most that the stream went on. So every region is at all times
that of a well-formed session, whatever the calls are (`Sound.run`).
-/
import AdaptiveLoops.Proofs.Region.Drain
import AdaptiveLoops.Proofs.Region.Setup
import AdaptiveLoops.Registry

namespace AdaptiveLoops

open Device (Stream LaunchId Outcome)

namespace Registry

variable {α : Type}

theorem setRegion_setRegion (g : Registry α) {r r' : Region α} (h : r.site = r'.site) :
    (g.setRegion r).setRegion r' = g.setRegion r' := by
  simp only [setRegion, List.map_map]
  congr 1
  refine List.map_congr_left fun old _ => ?_
  simp only [Function.comp_apply, h]
  by_cases hold : old.site = r'.site
  · simp [hold, h]
  · simp [hold]

/-! ## Soundness -/

/-- Every region is that of a well-formed session, and has a slot at least. -/
structure Sound (g : Registry α) : Prop where
  capacity : 0 < g.config.poolCapacity.toNat
  accepted : ∃ log, g.stream.Accepted log
  regions : ∀ r ∈ g.regions, Session.WellFormed r.site g.config ⟨r, g.stream⟩

theorem create_sound {config : Config} {cores : Nat} {makeModel : CallSite → Nat → α} {g : Registry α}
    (h : create config cores makeModel = .ok g) : g.Sound := by
  unfold create at h
  split at h
  · cases h
  · next hvalid =>
    cases h
    refine ⟨Nat.pos_of_ne_zero fun hzero => ?_, ⟨[], Stream.empty_accepted⟩, nofun⟩
    have hnone : config.poolCapacity = 0 := UInt64.toNat_inj.1 hzero
    simp [Config.validate, Config.check, hnone, Except.mapError] at hvalid

theorem mem_of_region? {g : Registry α} {site : CallSite} {r : Region α} (h : g.region? site = some r) :
    r ∈ g.regions ∧ r.site = site :=
  ⟨List.mem_of_find?_eq_some h, by simpa using List.find?_some h⟩

theorem mem_setRegion {g : Registry α} {r r' : Region α} (h : r' ∈ (g.setRegion r).regions) :
    r' = r ∨ r' ∈ g.regions := by
  obtain ⟨old, hold, heq⟩ := List.mem_map.1 h
  split at heq
  · exact .inl heq.symm
  · exact .inr (heq ▸ hold)

theorem region?_put {g : Registry α} {site : CallSite} {r r' : Region α} {stream : Stream}
    (hr : g.region? site = some r) (hsite : r'.site = site) : (g.put r' stream).region? site = some r' := by
  have hr' := (mem_of_region? hr).2
  have hfind : ((fun old : Region α => old.site == site) ∘ fun old => if old.site = r'.site then r' else old) =
      fun old => old.site == site := by
    funext old
    by_cases hold : old.site = site <;> simp [hold, hsite]
  unfold region? at hr
  simp only [put, setRegion, region?, List.find?_map, hfind, hr]
  simp [hr', hsite]

theorem region_eq_ok {g g' : Registry α} {site : CallSite} {policies : List Policy} {r : Region α}
    (h : g.region site policies = .ok (g', r)) :
    policies ≠ [] ∧ g'.region? site = some r ∧ r.policies = policies ∧
      (g' = g ∨ g.region? site = none ∧ g' = { g with regions := g.regions ++ [r] } ∧
        Region.create site policies (g.makeModel site policies.length) g.config = .ok r) := by
  unfold region at h
  split at h
  · cases h
  · next hsome =>
    have hpolicies : policies ≠ [] := fun hnil => hsome (by rw [hnil]; rfl)
    split at h
    · next r' hfound =>
      split at h
      · next hsame =>
        cases h
        exact ⟨hpolicies, hfound, hsame, .inl rfl⟩
      · cases h
    · next hnone =>
      split at h
      · cases h
      · next r' hcreate =>
        cases h
        have hsite := (Region.create_setup hcreate).1
        have hsame := (Region.create_eq_ok hcreate).1
        have hfound : ({ g with regions := g.regions ++ [r] } : Registry α).region? site = some r := by
          unfold region? at hnone ⊢
          simp [List.find?_append, hnone, hsite]
        exact ⟨hpolicies, hfound, hsame, .inr ⟨hnone, rfl, hcreate⟩⟩

namespace Sound

variable {g g' : Registry α} {site : CallSite} {policies : List Policy} {r : Region α} {stream : Stream}

theorem reaches (h : g.Sound) (hreaches : g.stream.Reaches stream) : ({ g with stream } : Registry α).Sound where
  capacity := h.capacity
  accepted := h.accepted.elim fun _ hlog => hlog.reaches hreaches
  regions r hr := (h.regions r hr).reaches hreaches

theorem put (h : g.Sound) (hr : Session.WellFormed r.site g.config ⟨r, stream⟩)
    (hreaches : g.stream.Reaches stream) : (g.put r stream).Sound := by
  have hgone := h.reaches hreaches
  refine ⟨h.capacity, hgone.accepted, fun r' hr' => ?_⟩
  rcases mem_setRegion hr' with rfl | hold
  · exact hr
  · exact hgone.regions r' hold

theorem region (h : g.Sound) (hregion : g.region site policies = .ok (g', r)) :
    g'.Sound ∧ r ∈ g'.regions := by
  obtain ⟨-, hfound, -, rfl | ⟨-, hnew, hcreate⟩⟩ := region_eq_ok hregion
  · exact ⟨h, (mem_of_region? hfound).1⟩
  · subst hnew
    refine ⟨⟨h.capacity, h.accepted, fun r' hr' => ?_⟩, (mem_of_region? hfound).1⟩
    rcases List.mem_append.1 hr' with hold | hnew
    · exact h.regions r' hold
    · obtain rfl := List.mem_singleton.1 hnew
      have hwell := Session.create_wellFormed hcreate h.accepted
      exact hwell.regionSite.symm ▸ hwell

end Sound

theorem isPoolExhausted_of_region {g : Registry α} {site : CallSite} {policies : List Policy} {e : LoopError}
    (h : g.region site policies = .error e) : e.isPoolExhausted = false := by
  unfold region at h
  split at h
  · cases h
    rfl
  · split at h
    · split at h
      · cases h
      · cases h
        rfl
    · split at h
      · next hcreate =>
        cases h
        exact Region.isPoolExhausted_of_create hcreate
      · cases h

variable [Model α]

/-! ## Calls -/

/-- An invocation goes to the region of its site, which is put back once. -/
theorem invokeDuring_eq (g : Registry α) (meanwhile : Meanwhile) (site : CallSite) (policies : List Policy)
    (space : IterationSpace) (body : Body) (now : Moment) :
    g.invokeDuring meanwhile site policies space body now =
      match g.region site policies with
      | .error e => ⟨g, [], none, .error e⟩
      | .ok (g, r) =>
        let reply := r.invokeDuring g.stream meanwhile g.plugins space body now
        ⟨g.put reply.region reply.stream, reply.notices, reply.work, reply.result⟩ := by
  unfold invokeDuring chooseDuring
  cases g.region site policies with
  | error e => rfl
  | ok made =>
    obtain ⟨g', r⟩ := made
    simp only [Region.invokeDuring]
    cases hchoose : r.chooseDuring g'.stream meanwhile space with
    | mk r' found =>
      obtain ⟨stream, e | choice⟩ := found
      · rfl
      · have hsetup := (Region.launch_keeps r' (stream.run meanwhile.issuing) g'.plugins choice space body now).1
        have hsite : r'.site =
            (r'.launch (stream.run meanwhile.issuing) g'.plugins choice space body now).region.site :=
          (congrArg Region.Setup.site hsetup).symm
        simp only [launch, put]
        rw [← setRegion_setRegion _ hsite]
        rfl

theorem drainAllSeeing_regions (seen : LaunchId → Option Outcome) : ∀ regions : List (Region α),
    (drainAllSeeing seen regions).1 = regions.map fun r => (r.drainSeeing seen).1
  | [] => rfl
  | r :: rest => by
    rw [drainAllSeeing, List.map_cons, ← drainAllSeeing_regions seen rest]

theorem drainSeeing_of_drainAllSeeing {seen : LaunchId → Option Outcome} :
    ∀ {regions : List (Region α)} {n : Nat}, (drainAllSeeing seen regions).2 = .ok n →
      ∀ r ∈ regions, ∃ m, (r.drainSeeing seen).2 = .ok m
  | [], _, _ => nofun
  | r :: rest, n, h => by
    simp only [drainAllSeeing] at h
    cases hfirst : (r.drainSeeing seen).2 with
    | error e =>
      rw [hfirst] at h
      cases h
    | ok m =>
      cases hrest : (drainAllSeeing seen rest).2 with
      | error e =>
        rw [hfirst, hrest] at h
        cases h
      | ok k =>
        rw [List.forall_mem_cons]
        exact ⟨⟨m, hfirst⟩, drainSeeing_of_drainAllSeeing hrest⟩

theorem region?_drainDuring (g : Registry α) (polling : Polling) (site : CallSite) :
    (g.drainDuring polling).1.region? site =
      (g.region? site).map fun r => (r.drainSeeing (polling.seen g.stream)).1 := by
  have hfind : ((fun r : Region α => r.site == site) ∘
      fun r : Region α => (r.drainSeeing (polling.seen g.stream)).1) = fun r => r.site == site := by
    funext r
    have hsite : (r.drainSeeing (polling.seen g.stream)).1.site = r.site :=
      congrArg Region.Setup.site (Region.setup_drainSeeing r _)
    simp [hsite]
  simp only [drainDuring, drainAllSeeing_regions, region?, List.find?_map, hfind]

/-! ## Acts -/

inductive Act where
  | invoke (site : CallSite) (policies : List Policy) (space : IterationSpace) (body : Body) (now : Moment)
    (meanwhile : Meanwhile)
  | region (site : CallSite) (policies : List Policy)
  | drain (polling : Polling)
  | drainRegion (site : CallSite) (polling : Polling)
  | synchronize (meanwhile : List Device.Event)
  | addPlugin (p : Plugin)
  | stream (e : Device.Event)

/-- Launches nothing for a region. -/
def Act.isQuiet : Act → Bool
  | .invoke _ _ _ _ _ _ => false
  | _ => true

def after (g : Registry α) : Act → Registry α
  | .invoke site policies space body now meanwhile =>
    (g.invokeDuring meanwhile site policies space body now).registry
  | .region site policies =>
    match g.region site policies with
    | .error _ => g
    | .ok (g, _) => g
  | .drain polling => (g.drainDuring polling).1
  | .drainRegion site polling =>
    match g.region? site with
    | none => g
    | some r => g.put (r.drainSeeing (polling.seen g.stream)).1 (polling.after g.stream)
  | .synchronize meanwhile => g.synchronizeDuring meanwhile
  | .addPlugin p => g.addPlugin p
  | .stream e => { g with stream := g.stream.after e }

def run (g : Registry α) (acts : List Act) : Registry α :=
  acts.foldl after g

/-! ## Runs -/

namespace Sound

variable {g : Registry α} {r : Region α}

theorem turn (h : g.Sound) (hr : r ∈ g.regions) (act : Session.Act) :
    let t : Session.Turn α := ⟨⟨r, g.stream⟩, act⟩
    (g.put t.after.region t.after.stream).Sound := by
  intro t
  have hwell : t.before.WellFormed r.site g.config := h.regions r hr
  have hafter := hwell.after
  refine h.put ?_ (Session.Turn.reaches_after hwell.sound)
  rw [hafter.regionSite]
  exact hafter

/-- **A registry stays sound.** -/
theorem after (h : g.Sound) (act : Act) : (g.after act).Sound := by
  cases act with
  | invoke site policies space body now meanwhile =>
    simp only [Registry.after, invokeDuring_eq]
    split
    · exact h
    · next g' r hregion =>
      obtain ⟨hmade, hr⟩ := h.region hregion
      exact hmade.turn hr (.invoke g'.plugins space body now meanwhile)
  | region site policies =>
    simp only [Registry.after]
    split
    · exact h
    · next g' r hregion => exact (h.region hregion).1
  | drain polling =>
    have hreaches : g.stream.Reaches (polling.after g.stream) := polling.reaches_after g.stream
    refine ⟨h.capacity, (h.reaches hreaches).accepted, fun r' hr' => ?_⟩
    simp only [Registry.after, drainDuring, drainAllSeeing_regions] at hr' ⊢
    obtain ⟨r, hr, rfl⟩ := List.mem_map.1 hr'
    have hwell : Session.WellFormed r.site g.config (Session.Turn.after ⟨⟨r, g.stream⟩, .drain polling⟩) :=
      (h.regions r hr).after
    exact hwell.regionSite.symm ▸ hwell
  | drainRegion site polling =>
    simp only [Registry.after]
    split
    · exact h
    · next r hfound => exact h.turn (mem_of_region? hfound).1 (.drain polling)
  | synchronize meanwhile => exact h.reaches (Stream.reaches_synchronizeDuring g.stream meanwhile)
  | addPlugin p => exact ⟨h.capacity, h.accepted, h.regions⟩
  | stream e => exact h.reaches ⟨[e], rfl⟩

theorem run (h : g.Sound) (acts : List Act) : (g.run acts).Sound := by
  induction acts generalizing g with
  | nil => exact h
  | cons act acts ih => exact ih (h.after act)

/-- **An invocation is a turn of the region of its site.** -/
theorem invokeDuring_turn (h : g.Sound) {g' : Registry α} {site : CallSite} {policies : List Policy}
    (hregion : g.region site policies = .ok (g', r)) (meanwhile : Meanwhile) (space : IterationSpace)
    (body : Body) (now : Moment) :
    let t : Session.Turn α := ⟨⟨r, g'.stream⟩, .invoke g'.plugins space body now meanwhile⟩
    let reply := g.invokeDuring meanwhile site policies space body now
    t.before.WellFormed r.site g'.config ∧ t.answer? = some reply.result ∧
      reply.registry.region? site = some t.after.region := by
  intro t reply
  obtain ⟨hmade, hr⟩ := h.region hregion
  obtain ⟨-, hfound, -⟩ := region_eq_ok hregion
  have hwell : t.before.WellFormed r.site g'.config := hmade.regions r hr
  have hsite : t.after.region.site = site := hwell.after.regionSite.trans (mem_of_region? hfound).2
  refine ⟨hwell, ?_, ?_⟩
  · simp only [reply, Registry.invokeDuring_eq, hregion]
    rfl
  · simp only [reply, Registry.invokeDuring_eq, hregion]
    exact region?_put hfound hsite

end Sound

end Registry

end AdaptiveLoops
