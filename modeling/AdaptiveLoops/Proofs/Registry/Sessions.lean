/-
The regions of a registry, each for itself.

The calls that come to a site and the drains of the registry are a session of
the region there, in which the stream goes on between the calls
(`Sound.goes_run`). A call for another site is not seen at all, but for the
stream (`Sound.region?_after_of_ne`).
-/
import AdaptiveLoops.Proofs.Region.Ledger
import AdaptiveLoops.Proofs.Registry.Sites

namespace AdaptiveLoops

open Device (Stream)

/-- A caller's own, and not an event of the stream. -/
def Session.Act.isCall : Session.Act → Bool
  | .stream _ => false
  | _ => true

namespace Registry

variable {α : Type} [Model α] {g g' : Registry α} {r : Region α} {site site' : CallSite} {policies : List Policy}

/-! ## The session of a region -/

/-- The call that an act makes on the region of a site, which has these candidates. -/
def Act.callAt? (site : CallSite) (policies : List Policy) (plugins : List Plugin) : Act → Option Session.Act
  | .invoke site' policies' space body now meanwhile =>
    if site' = site ∧ policies' = policies then some (.invoke plugins space body now meanwhile) else none
  | .drain polling => some (.drain polling)
  | .drainRegion site' polling => if site' = site then some (.drain polling) else none
  | _ => none

/-- The calls that acts make on the region of a site, each with the plugins there are by then. -/
def callsAt (site : CallSite) (policies : List Policy) : List Plugin → List Act → List Session.Act
  | _, [] => []
  | plugins, act :: acts =>
    (act.callAt? site policies plugins).toList ++ callsAt site policies (act.pluginsAfter plugins) acts

/-- A session of these calls on a region, with events of the stream between them. -/
def Goes (s : Session α) (calls : List Session.Act) (s' : Session α) : Prop :=
  ∃ acts, acts.filter Session.Act.isCall = calls ∧ s.go acts = s'

theorem Goes.trans {s s' s'' : Session α} {calls calls' : List Session.Act} (h : Goes s calls s')
    (h' : Goes s' calls' s'') : Goes s (calls ++ calls') s'' := by
  obtain ⟨acts, hcalls, hgo⟩ := h
  obtain ⟨acts', hcalls', hgo'⟩ := h'
  refine ⟨acts ++ acts', by rw [List.filter_append, hcalls, hcalls'], ?_⟩
  have happend : s.go (acts ++ acts') = (s.go acts).go acts' := List.foldl_append
  rw [happend, hgo, hgo']

theorem goes_call (s : Session α) (act : Session.Act) (hcall : act.isCall = true) :
    Goes s [act] (Session.Turn.after ⟨s, act⟩) :=
  ⟨[act], by rw [List.filter_cons_of_pos hcall, List.filter_nil], rfl⟩

theorem goes_reaches (r : Region α) {stream stream' : Stream} (hreaches : stream.Reaches stream') :
    Goes ⟨r, stream⟩ [] ⟨r, stream'⟩ := by
  obtain ⟨events, rfl⟩ := hreaches
  refine ⟨events.map .stream, ?_, ?_⟩
  · rw [List.filter_eq_nil_iff]
    intro act hact
    obtain ⟨e, -, rfl⟩ := List.mem_map.1 hact
    exact Bool.false_ne_true
  · induction events generalizing stream with
    | nil => rfl
    | cons e events ih => exact ih

namespace Sound

/-- A call at a site is one on its region, and at another site the stream goes on. -/
theorem goes_call (h : g.Sound) (hfound : g.region? site = some r) (site' : CallSite) {act : Session.Act}
    (hcall : act.isCall = true) :
    ∃ r', (g.call site' act).region? site = some r' ∧ r'.policies = r.policies ∧
      Goes ⟨r, g.stream⟩ (if site' = site then [act] else []) ⟨r', (g.call site' act).stream⟩ := by
  by_cases hsite : site' = site
  · subst hsite
    obtain ⟨hafter, hstream, -, hpolicies⟩ := h.call_of_some hfound act
    refine ⟨_, hafter, hpolicies, ?_⟩
    rw [if_pos rfl, hstream]
    exact Registry.goes_call _ _ hcall
  · obtain ⟨hsame, hreaches⟩ := h.call_of_ne hsite act
    refine ⟨r, hsame.trans hfound, rfl, ?_⟩
    rw [if_neg hsite]
    exact goes_reaches r hreaches

omit [Model α] in
theorem region_found (h : g.Sound) (hfound : g.region? site = some r) {r' : Region α}
    (hregion : g.region site' policies = .ok (g', r')) :
    g'.Sound ∧ g'.region? site = some r ∧ g'.stream = g.stream ∧ (site' = site → policies = r.policies) := by
  by_cases hsite : site' = site
  · subst hsite
    rw [region_of_some hfound] at hregion
    split at hregion
    · cases hregion
    · split at hregion
      · next hsame =>
        cases hregion
        exact ⟨h, hfound, rfl, fun _ => hsame.symm⟩
      · cases hregion
  · obtain ⟨hstream, -, -, hothers⟩ := region_keeps hregion
    exact ⟨(h.region hregion).1, (hothers site (Ne.symm hsite)).trans hfound, hstream, fun heq => absurd heq hsite⟩

/-- **What an act does to the region of a site**: the call that it makes on it, and nothing else. -/
theorem goes_after (h : g.Sound) (hfound : g.region? site = some r) (hpolicies : r.policies ≠ []) (act : Act) :
    ∃ r', (g.after act).region? site = some r' ∧ r'.policies = r.policies ∧
      Goes ⟨r, g.stream⟩ (act.callAt? site r.policies g.plugins).toList ⟨r', (g.after act).stream⟩ := by
  cases act with
  | invoke site' policies space body now meanwhile =>
    rw [after_invoke]
    split
    · next e hregion =>
      have hno : ¬ (site' = site ∧ policies = r.policies) := by
        rintro ⟨rfl, rfl⟩
        rw [region_of_some hfound, if_neg hpolicies, if_pos rfl] at hregion
        cases hregion
      rw [Act.callAt?, if_neg hno]
      exact ⟨r, hfound, rfl, goes_reaches r (.refl _)⟩
    · next g' r' hregion =>
      obtain ⟨hsound, hstill, hstream, hlist⟩ := h.region_found hfound hregion
      have hcalls : (Act.callAt? site r.policies g.plugins (.invoke site' policies space body now meanwhile)).toList =
          if site' = site then [.invoke g.plugins space body now meanwhile] else [] := by
        by_cases hsite : site' = site
        · simp [Act.callAt?, hsite, hlist hsite]
        · simp [Act.callAt?, hsite]
      rw [hcalls, ← hstream]
      exact hsound.goes_call hstill site' rfl
  | region site' policies =>
    simp only [Registry.after]
    split
    · exact ⟨r, hfound, rfl, goes_reaches r (.refl _)⟩
    · next g' r' hregion =>
      obtain ⟨-, hstill, hstream, -⟩ := h.region_found hfound hregion
      exact ⟨r, hstill, rfl, goes_reaches r (hstream ▸ .refl _)⟩
  | drain polling =>
    have hafter : (g.after (.drain polling)).region? site = some (r.drainSeeing (polling.seen g.stream)).1 := by
      rw [Registry.after, region?_drainDuring, hfound]
      rfl
    exact ⟨_, hafter, Region.policies_of_setup (Region.setup_drainSeeing r _), Registry.goes_call _ (.drain polling) rfl⟩
  | drainRegion site' polling =>
    have hcalls : (Act.callAt? site r.policies g.plugins (.drainRegion site' polling)).toList =
        if site' = site then [.drain polling] else [] := by
      by_cases hsite : site' = site <;> simp [Act.callAt?, hsite]
    rw [after_drainRegion, hcalls]
    exact h.goes_call hfound site' rfl
  | synchronize meanwhile =>
    exact ⟨r, hfound, rfl, goes_reaches r (Stream.reaches_synchronizeDuring g.stream meanwhile)⟩
  | addPlugin p => exact ⟨r, hfound, rfl, goes_reaches r (.refl _)⟩
  | stream e => exact ⟨r, hfound, rfl, goes_reaches r ⟨[e], rfl⟩⟩

/-- **A region stays at its site**, and goes through the calls that come to it. -/
theorem goes_run (h : g.Sound) (hfound : g.region? site = some r) (hpolicies : r.policies ≠ []) (acts : List Act) :
    ∃ r', (g.run acts).region? site = some r' ∧ r'.policies = r.policies ∧
      Goes ⟨r, g.stream⟩ (callsAt site r.policies g.plugins acts) ⟨r', (g.run acts).stream⟩ := by
  induction acts generalizing g r with
  | nil => exact ⟨r, hfound, rfl, goes_reaches r (.refl _)⟩
  | cons act acts ih =>
    obtain ⟨r', hafter, hsame, hgoes⟩ := h.goes_after hfound hpolicies act
    obtain ⟨r'', hrun, hsame', hgoes'⟩ := ih (h.after act) hafter (hsame ▸ hpolicies)
    rw [(g.after_keeps act).2, hsame] at hgoes'
    exact ⟨r'', hrun, hsame'.trans hsame, hgoes.trans hgoes'⟩

end Sound

/-- The site that an act is for, if it is for one. -/
def Act.site? : Act → Option CallSite
  | .invoke site _ _ _ _ _ => some site
  | .region site _ => some site
  | .drainRegion site _ => some site
  | _ => none

/-- **An act for one site does nothing to the region of another.** -/
theorem Sound.region?_after_of_ne (h : g.Sound) {act : Act} (hact : act.site? = some site') (hne : site' ≠ site) :
    (g.after act).region? site = g.region? site := by
  cases act with
  | invoke site'' policies space body now meanwhile =>
    cases hact
    rw [after_invoke]
    split
    · rfl
    · next hregion =>
      rw [((h.region hregion).1.call_of_ne hne _).1]
      exact (region_keeps hregion).2.2.2 site hne.symm
  | region site'' policies =>
    cases hact
    simp only [Registry.after]
    split
    · rfl
    · next hregion => exact (region_keeps hregion).2.2.2 site hne.symm
  | drainRegion site'' polling =>
    cases hact
    rw [after_drainRegion]
    exact (h.call_of_ne hne _).1
  | drain polling => cases hact
  | synchronize meanwhile => cases hact
  | addPlugin p => cases hact
  | stream e => cases hact

/--
**A site has one region, with one list of candidates**, in every registry that calls and the stream can lead to.

No two regions are of one site. The candidates of a site are those of the first call for it that named any,
whatever became of that call, unless a pool of the registry is too large to be made. A call with other candidates
is answered with both lists, and one without any is turned away even where there is a region; an invocation that
is turned away by its lookup leaves the registry as it is. A call for one site leaves the regions of the other
sites as they are.

Once there is a region it stays. It goes through the calls that come to its site and through the drains of the
registry, in their order, with nothing in between but what the stream does. So a lookup answers ever after what it
has answered once there was a region.
-/
theorem run_keeps_sites {config : Config} {cores : Nat} {makeModel : CallSite → Nat → α} {g₀ : Registry α}
    (h : create config cores makeModel = .ok g₀) (acts : List Act) :
    let g := g₀.run acts
    (g.regions.map (·.site)).Nodup ∧
    (∀ site, g.policies? site =
      if config.poolCapacity.toNat ≤ Pool.maxCapacity then acts.findSome? (Act.policies? site) else none) ∧
    (∀ site policies,
      (policies = [] → g.region site policies = .error (.emptyPolicyList site)) ∧
      (policies ≠ [] → ∀ r, g.region? site = some r → g.region site policies =
        if r.policies = policies then .ok (g, r) else .error (.policyListMismatch site r.policies policies)) ∧
      ∀ e, g.region site policies = .error e → g.after (.region site policies) = g ∧
        ∀ meanwhile space body now,
          g.invokeDuring meanwhile site policies space body now = ⟨g, [], none, .error e⟩) ∧
    (∀ act site site', act.site? = some site' → site' ≠ site → (g.after act).region? site = g.region? site) ∧
    ∀ site r, g.region? site = some r → ∀ later,
      ∃ r', (g.run later).region? site = some r' ∧ r'.policies = r.policies ∧
        Goes ⟨r, g.stream⟩ (callsAt site r.policies g.plugins later) ⟨r', (g.run later).stream⟩ ∧
        ∀ policies e, (g.run later).region site policies = .error e ↔ g.region site policies = .error e := by
  intro g
  obtain ⟨hconfig, hempty⟩ : g₀.config = config ∧ g₀.regions = [] := by
    unfold create at h
    split at h
    · cases h
    · cases h
      exact ⟨rfl, rfl⟩
  have hg : g.Sound := (create_sound h).run acts
  have hlists : ∀ site, g.policies? site =
      if config.poolCapacity.toNat ≤ Pool.maxCapacity then acts.findSome? (Act.policies? site) else none := by
    intro site
    have hnone : g₀.policies? site = none := by simp [policies?, region?, hempty]
    rw [(create_sound h).policies?_run, hnone, Option.none_or]
    simp only [HasRoom, hconfig]
  -- What is named for a site has a candidate at least.
  have hnonempty : ∀ {site r}, g.region? site = some r → r.policies ≠ [] := by
    intro site r hfound
    have hlist : g.policies? site = some r.policies := by rw [policies?, hfound]; rfl
    rw [hlists, ite_eq_iff] at hlist
    obtain ⟨-, hlist⟩ | ⟨-, hlist⟩ := hlist
    · obtain ⟨act, -, hact⟩ := List.exists_of_findSome?_eq_some hlist
      unfold Act.policies? at hact
      split at hact
      · obtain ⟨hnamed, heq⟩ := Option.ite_none_right_eq_some.1 hact
        exact Option.some.inj heq ▸ hnamed.2
      · obtain ⟨hnamed, heq⟩ := Option.ite_none_right_eq_some.1 hact
        exact Option.some.inj heq ▸ hnamed.2
      · cases hact
    · cases hlist
  refine ⟨nodup_run (by simp [hempty]) acts, hlists, fun site policies => ⟨?_, ?_, ?_⟩, ?_, ?_⟩
  · rintro rfl
    rfl
  · intro hpolicies r hfound
    rw [region_of_some hfound, if_neg hpolicies]
  · intro e he
    refine ⟨by simp only [Registry.after, he], fun meanwhile space body now => ?_⟩
    simp only [invokeDuring_eq, he]
  · intro act site site' hact hne
    exact hg.region?_after_of_ne hact hne
  · intro site r hfound later
    obtain ⟨r', hrun, hsame, hgoes⟩ := hg.goes_run hfound (hnonempty hfound) later
    refine ⟨r', hrun, hsame, hgoes, fun policies e => ?_⟩
    rw [region_of_some hrun, region_of_some hfound, hsame]
    split
    · exact Iff.rfl
    · split
      · constructor <;> (intro h; cases h)
      · exact Iff.rfl

/-- The list that a site keeps was named by an invocation which failed, behind one that named none. -/
theorem run_keeps_sites_mismatch :
    let loop (site : String) (policies : List Policy) (body : Body) : Act :=
      .invoke (.named site) policies ⟨[⟨0, 8⟩]⟩ body ⟨.serial, ⟨10⟩⟩ .still
    let acts := [loop "saxpy" [] fun _ => none, loop "saxpy" [.sequential] fun _ => some (.literal "boom"),
      loop "stencil" [.device 4 .async] fun _ => none, loop "saxpy" [.threaded 4] fun _ => none]
    ∃ g₀, create .default 2 (fun _ _ => Fixed.ofIndex 0) = .ok g₀ ∧
      let g := g₀.run acts
      g.regions.map (·.site) = [.named "saxpy", .named "stencil"] ∧ (g.regions.map (·.site)).Nodup ∧
        g.policies? (.named "saxpy") = some [.sequential] ∧
        g.region (.named "saxpy") [] = .error (.emptyPolicyList (.named "saxpy")) ∧
        g.region (.named "saxpy") [.threaded 4] =
          .error (.policyListMismatch (.named "saxpy") [.sequential] [.threaded 4]) ∧
        (g.after (loop "stencil" [.device 4 .async] fun _ => none)).region? (.named "saxpy") =
          g.region? (.named "saxpy") ∧
        ∃ r, (g.run acts).region? (.named "saxpy") = some r ∧ r.policies = [.sequential] := by
  intro loop acts
  obtain ⟨g₀, hg₀⟩ : ∃ g₀, create .default 2 (fun _ _ => Fixed.ofIndex 0) = .ok g₀ := ⟨_, rfl⟩
  obtain ⟨hnodup, hlists, hlookups, hothers, hstays⟩ := run_keeps_sites hg₀ acts
  have hlist := hlists (.named "saxpy")
  rw [if_pos (by decide)] at hlist
  obtain ⟨r, hfound, hpolicies⟩ := Option.map_eq_some_iff.1 (hlist.trans rfl)
  obtain ⟨r', hlater, hsame, -⟩ := hstays _ r hfound acts
  have hmismatch := (hlookups (.named "saxpy") [.threaded 4]).2.1 (by decide) r hfound
  rw [hpolicies, if_neg (by decide)] at hmismatch
  refine ⟨g₀, hg₀, ?_, hnodup, hlist.trans rfl, (hlookups _ []).1 rfl, hmismatch,
    hothers _ _ _ rfl (by decide), r', hlater, hsame.trans hpolicies⟩
  cases hg₀
  decide +kernel

end Registry

end AdaptiveLoops
