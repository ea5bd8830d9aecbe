/-
Call sites: what a registry has at a site, and which calls can change it.

A call looks its site up and may make the region there (`region_keeps`), and
what it does then it does to that region alone (`Sound.call_of_ne`). So no
site has two regions (`nodup_run`), and its candidates are those of the first
list it was called with (`Sound.policies?_run`).
-/
import AdaptiveLoops.Proofs.Registry.Run

namespace AdaptiveLoops

open Device (Stream)

namespace Registry

variable {α : Type} {g g' : Registry α} {r : Region α} {site site' : CallSite} {policies : List Policy}
  {stream : Stream}

/-! ## Lookups -/

/-- A pool of the registry's regions can be made. -/
def HasRoom (g : Registry α) : Prop :=
  g.config.poolCapacity.toNat ≤ Pool.maxCapacity

instance (g : Registry α) : Decidable g.HasRoom :=
  inferInstanceAs (Decidable (_ ≤ _))

theorem region?_eq_none : g.region? site = none ↔ site ∉ g.regions.map (·.site) := by
  simp [region?, List.find?_eq_none]

theorem region_of_some (hfound : g.region? site = some r) (policies : List Policy) :
    g.region site policies =
      if policies = [] then .error (.emptyPolicyList site)
      else if r.policies = policies then .ok (g, r)
      else .error (.policyListMismatch site r.policies policies) := by
  simp only [region, hfound, List.isEmpty_iff]

/-- A lookup of a site that has none makes the region, if there is room for its pool. -/
theorem region_of_none (hnone : g.region? site = none) (hpolicies : policies ≠ []) :
    (g.HasRoom ∧ ∃ r, g.region site policies = .ok ({ g with regions := g.regions ++ [r] }, r)) ∨
      ¬ g.HasRoom ∧ g.region site policies = .error (.poolTooLarge g.config.poolCapacity.toNat) := by
  have hsome : policies.isEmpty = false := by rwa [List.isEmpty_eq_false_iff]
  by_cases hroom : Pool.maxCapacity < g.config.poolCapacity.toNat
  · right
    refine ⟨Nat.not_le.2 hroom, ?_⟩
    simp [region, Region.create, Pool.ofCapacity?, hnone, hsome, hroom]
  · left
    refine ⟨Nat.not_lt.1 hroom, ?_⟩
    simp only [region, Region.create, Pool.ofCapacity?, hnone, hsome, hroom]
    exact ⟨_, rfl⟩

/-- **A lookup touches nothing but its site**, where it may make a region. -/
theorem region_keeps (h : g.region site policies = .ok (g', r)) :
    g'.stream = g.stream ∧ g'.plugins = g.plugins ∧ g'.config = g.config ∧
      ∀ other, other ≠ site → g'.region? other = g.region? other := by
  obtain ⟨-, hfound, -, rfl | ⟨-, hnew, -⟩⟩ := region_eq_ok h
  · exact ⟨rfl, rfl, rfl, fun _ _ => rfl⟩
  · have hsite := (mem_of_region? hfound).2
    subst hnew
    refine ⟨rfl, rfl, rfl, fun other hother => ?_⟩
    have hnot : (r.site == other) = false := by simpa [hsite] using hother.symm
    simp [region?, List.find?_append, hnot]

/-! ## Regions that are put back -/

theorem sites_put (g : Registry α) (r : Region α) (stream : Stream) :
    (g.put r stream).regions.map (·.site) = g.regions.map (·.site) := by
  simp only [put, setRegion, List.map_map]
  refine List.map_congr_left fun old _ => ?_
  simp only [Function.comp_apply]
  split
  · next hsame => exact hsame.symm
  · rfl

theorem region?_put_of_ne (h : r.site ≠ site) : (g.put r stream).region? site = g.region? site := by
  have hnot : (r.site == site) = false := by simpa using h
  have hfind : ∀ regions : List (Region α),
      (regions.map fun old => if old.site = r.site then r else old).find? (fun old => old.site == site) =
        regions.find? fun old => old.site == site := by
    intro regions
    induction regions with
    | nil => rfl
    | cons old regions ih =>
      rw [List.map_cons, List.find?_cons, List.find?_cons, ih]
      by_cases hold : old.site = r.site
      · simp [hold, hnot]
      · simp [hold]
  exact hfind g.regions

variable [Model α]

/-! ## Calls on one region -/

/-- A call on the region of a site, if there is one. -/
def call (g : Registry α) (site : CallSite) (act : Session.Act) : Registry α :=
  match g.region? site with
  | none => g
  | some r =>
    let t : Session.Turn α := ⟨⟨r, g.stream⟩, act⟩
    g.put t.after.region t.after.stream

theorem after_drainRegion (g : Registry α) (site : CallSite) (polling : Polling) :
    g.after (.drainRegion site polling) = g.call site (.drain polling) := rfl

/-- An invocation is a lookup and a call. -/
theorem after_invoke (g : Registry α) (site : CallSite) (policies : List Policy) (space : IterationSpace)
    (body : Body) (now : Moment) (meanwhile : Meanwhile) :
    g.after (.invoke site policies space body now meanwhile) =
      match g.region site policies with
      | .error _ => g
      | .ok (g', _) => g'.call site (.invoke g.plugins space body now meanwhile) := by
  simp only [after, invokeDuring_eq]
  cases hregion : g.region site policies with
  | error e => rfl
  | ok made =>
    obtain ⟨g', r⟩ := made
    obtain ⟨-, hfound, -⟩ := region_eq_ok hregion
    simp only [call, hfound, ← (region_keeps hregion).2.1]
    rfl

theorem call_keeps (g : Registry α) (site : CallSite) (act : Session.Act) :
    (g.call site act).config = g.config ∧ (g.call site act).plugins = g.plugins := by
  unfold call
  split <;> exact ⟨rfl, rfl⟩

theorem sites_call (g : Registry α) (site : CallSite) (act : Session.Act) :
    (g.call site act).regions.map (·.site) = g.regions.map (·.site) := by
  unfold call
  split
  · rfl
  · exact sites_put ..

namespace Sound

theorem call_of_some (h : g.Sound) (hfound : g.region? site = some r) (act : Session.Act) :
    let t : Session.Turn α := ⟨⟨r, g.stream⟩, act⟩
    (g.call site act).region? site = some t.after.region ∧ (g.call site act).stream = t.after.stream ∧
      t.after.region.site = site ∧ t.after.region.policies = r.policies := by
  intro t
  obtain ⟨hmem, hsite⟩ := mem_of_region? hfound
  obtain ⟨hsetup, -⟩ := Session.Turn.setup_after (t := t) (h.regions r hmem).equipped
  have hsame : t.after.region.site = site := (congrArg Region.Setup.site hsetup).trans hsite
  simp only [call, hfound]
  exact ⟨region?_put hfound hsame, rfl, hsame, Region.policies_of_setup hsetup⟩

/-- **A call shows at its own site alone.** -/
theorem call_of_ne (h : g.Sound) (hne : site ≠ site') (act : Session.Act) :
    (g.call site act).region? site' = g.region? site' ∧ g.stream.Reaches (g.call site act).stream := by
  cases hfound : g.region? site with
  | none =>
    simp only [call, hfound]
    exact ⟨trivial, .refl _⟩
  | some r =>
    obtain ⟨-, -, hsite, -⟩ := h.call_of_some hfound act
    have hreaches := Session.Turn.reaches_after (t := ⟨⟨r, g.stream⟩, act⟩) (h.regions r (mem_of_region? hfound).1).sound
    simp only [call, hfound]
    exact ⟨region?_put_of_ne (hsite.symm ▸ hne), hreaches⟩

end Sound

/-! ## Configuration and plugins -/

/-- The plugins behind an act. -/
def Act.pluginsAfter (plugins : List Plugin) : Act → List Plugin
  | .addPlugin p => plugins ++ [p]
  | _ => plugins

/-- **An act leaves the configuration as it is**, and the plugins unless it adds one. -/
theorem after_keeps (g : Registry α) (act : Act) :
    (g.after act).config = g.config ∧ (g.after act).plugins = act.pluginsAfter g.plugins := by
  cases act with
  | invoke site policies space body now meanwhile =>
    rw [after_invoke]
    split
    · exact ⟨rfl, rfl⟩
    · next g' r hregion =>
      obtain ⟨-, hplugins, hconfig, -⟩ := region_keeps hregion
      obtain ⟨hconfig', hplugins'⟩ := g'.call_keeps site (.invoke g.plugins space body now meanwhile)
      exact ⟨hconfig'.trans hconfig, hplugins'.trans hplugins⟩
  | region site policies =>
    simp only [after]
    split
    · exact ⟨rfl, rfl⟩
    · next hregion =>
      obtain ⟨-, hplugins, hconfig, -⟩ := region_keeps hregion
      exact ⟨hconfig, hplugins⟩
  | drainRegion site polling => exact g.call_keeps site (.drain polling)
  | drain polling => exact ⟨rfl, rfl⟩
  | synchronize meanwhile => exact ⟨rfl, rfl⟩
  | addPlugin p => exact ⟨rfl, rfl⟩
  | stream e => exact ⟨rfl, rfl⟩

/-! ## One region for a site -/

/-- The sites stay, and there may be one more, which was not there before. -/
def Grows (sites sites' : List CallSite) : Prop :=
  sites' = sites ∨ ∃ site, site ∉ sites ∧ sites' = sites ++ [site]

theorem Grows.nodup {sites sites' : List CallSite} (h : Grows sites sites') (hsites : sites.Nodup) : sites'.Nodup := by
  rcases h with rfl | ⟨site, hnew, rfl⟩
  · exact hsites
  · rw [List.nodup_append]
    refine ⟨hsites, List.nodup_singleton site, fun s hs s' hs' => ?_⟩
    rw [List.mem_singleton.1 hs']
    exact fun heq => hnew (heq ▸ hs)

omit [Model α] in
theorem grows_region (h : g.region site policies = .ok (g', r)) :
    Grows (g.regions.map (·.site)) (g'.regions.map (·.site)) := by
  obtain ⟨-, hfound, -, rfl | ⟨hnone, hnew, -⟩⟩ := region_eq_ok h
  · exact .inl rfl
  · have hsite := (mem_of_region? hfound).2
    subst hnew
    exact .inr ⟨site, region?_eq_none.1 hnone, by simp [hsite]⟩

theorem grows_after (g : Registry α) (act : Act) :
    Grows (g.regions.map (·.site)) ((g.after act).regions.map (·.site)) := by
  cases act with
  | invoke site policies space body now meanwhile =>
    rw [after_invoke]
    split
    · exact .inl rfl
    · next hregion =>
      rw [sites_call]
      exact grows_region hregion
  | region site policies =>
    simp only [after]
    split
    · exact .inl rfl
    · next hregion => exact grows_region hregion
  | drain polling =>
    left
    simp only [after, drainDuring, drainAllSeeing_regions, List.map_map]
    refine List.map_congr_left fun r _ => ?_
    exact congrArg Region.Setup.site (Region.setup_drainSeeing r _)
  | drainRegion site polling =>
    rw [after_drainRegion, sites_call]
    exact .inl rfl
  | synchronize meanwhile => exact .inl rfl
  | addPlugin p => exact .inl rfl
  | stream e => exact .inl rfl

/-- **No site has two regions.** -/
theorem nodup_run (h : (g.regions.map (·.site)).Nodup) (acts : List Act) : ((g.run acts).regions.map (·.site)).Nodup := by
  induction acts generalizing g with
  | nil => exact h
  | cons act acts ih => exact ih ((grows_after g act).nodup h)

/-! ## The candidates of a site -/

/-- The candidates that a registry has for a site. -/
def policies? (g : Registry α) (site : CallSite) : Option (List Policy) :=
  (g.region? site).map (·.policies)

/-- The candidates that an act names for a site, if it names any. -/
def Act.policies? (site : CallSite) : Act → Option (List Policy)
  | .invoke site' policies _ _ _ _ => if site' = site ∧ policies ≠ [] then some policies else none
  | .region site' policies => if site' = site ∧ policies ≠ [] then some policies else none
  | _ => none

theorem Sound.policies?_call (h : g.Sound) (site site' : CallSite) (act : Session.Act) :
    (g.call site act).policies? site' = g.policies? site' := by
  by_cases hne : site = site'
  · subst hne
    cases hfound : g.region? site with
    | none => simp only [call, hfound]
    | some r =>
      obtain ⟨hafter, -, -, hpolicies⟩ := h.call_of_some hfound act
      simp only [policies?, hafter, hfound, Option.map_some, hpolicies]
  · rw [policies?, (h.call_of_ne hne act).1]
    rfl

/-- A lookup leaves the candidates that there are, or else those that it names. -/
theorem policies?_region (g : Registry α) (site site' : CallSite) (policies : List Policy) :
    (g.after (.region site' policies)).policies? site =
      (g.policies? site).or (if g.HasRoom then Act.policies? site (.region site' policies) else none) := by
  by_cases hnamed : site' = site ∧ policies ≠ []
  · obtain ⟨rfl, hpolicies⟩ := hnamed
    simp only [Act.policies?, hpolicies, ne_eq, not_false_eq_true, and_self, if_true]
    cases hfound : g.region? site' with
    | some r =>
      have hsame : g.policies? site' = some r.policies := by rw [policies?, hfound]; rfl
      rw [hsame, Option.some_or, ← hsame]
      -- The region that is there stays, whether the lists are the same or not.
      by_cases hlist : r.policies = policies
      · simp only [after, region_of_some hfound, hpolicies, hlist, if_true, if_false]
      · simp only [after, region_of_some hfound, hpolicies, hlist, if_false]
    | none =>
      have hnone : g.policies? site' = none := by rw [policies?, hfound]; rfl
      rw [hnone, Option.none_or]
      rcases region_of_none hfound hpolicies with ⟨hroom, r, hregion⟩ | ⟨hroom, hregion⟩
      · obtain ⟨-, hmade, hsame, -⟩ := region_eq_ok hregion
        simp only [after, hregion, policies?, hmade, Option.map_some, hsame, hroom, if_true]
      · simp only [after, hregion, hroom, if_false, hnone]
  · have hact : Act.policies? site (.region site' policies) = none := if_neg hnamed
    rw [hact, ite_self, Option.or_none]
    simp only [after]
    split
    · rfl
    · next hregion =>
      have hsite : site ≠ site' := fun heq => hnamed ⟨heq.symm, (region_eq_ok hregion).1⟩
      rw [policies?, (region_keeps hregion).2.2.2 site hsite]
      rfl

/-- **Candidates stay**, and a site that has none gets those that an act names for it. -/
theorem Sound.policies?_after (h : g.Sound) (site : CallSite) (act : Act) :
    (g.after act).policies? site =
      (g.policies? site).or (if g.HasRoom then act.policies? site else none) := by
  cases act with
  | invoke site' policies space body now meanwhile =>
    have hlookup := policies?_region g site site' policies
    rw [after_invoke]
    simp only [Registry.after] at hlookup
    split
    · next hregion =>
      rw [hregion] at hlookup
      exact hlookup
    · next g' r hregion =>
      rw [hregion] at hlookup
      rw [(h.region hregion).1.policies?_call]
      exact hlookup
  | region site' policies => exact policies?_region g site site' policies
  | drain polling =>
    simp only [Act.policies?, ite_self, Option.or_none, Registry.policies?, Registry.after, region?_drainDuring, Option.map_map]
    congr 1
    funext r
    exact Region.policies_of_setup (Region.setup_drainSeeing r _)
  | drainRegion site' polling =>
    rw [after_drainRegion, h.policies?_call]
    simp only [Act.policies?, ite_self, Option.or_none]
  | synchronize meanwhile => simp only [Act.policies?, ite_self, Option.or_none]; rfl
  | addPlugin p => simp only [Act.policies?, ite_self, Option.or_none]; rfl
  | stream e => simp only [Act.policies?, ite_self, Option.or_none]; rfl

/-- **The candidates of a site** are those it had, or else the first that were named for it. -/
theorem Sound.policies?_run (h : g.Sound) (site : CallSite) (acts : List Act) :
    (g.run acts).policies? site =
      (g.policies? site).or (if g.HasRoom then acts.findSome? (Act.policies? site) else none) := by
  induction acts generalizing g with
  | nil => simp [Registry.run]
  | cons act acts ih =>
    have hroom : (g.after act).HasRoom ↔ g.HasRoom := by rw [HasRoom, (g.after_keeps act).1, HasRoom]
    have hrest := ih (h.after act)
    rw [h.policies?_after] at hrest
    simp only [hroom] at hrest
    rw [Registry.run, List.foldl_cons, ← Registry.run, hrest, List.findSome?_cons]
    by_cases hyes : g.HasRoom
    · simp only [hyes, if_true]
      cases g.policies? site <;> cases act.policies? site <;> rfl
    · simp only [hyes, if_false, Option.or_none]

end Registry

end AdaptiveLoops
