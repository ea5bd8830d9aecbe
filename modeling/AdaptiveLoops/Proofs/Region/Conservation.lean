/-
Launches are conserved: what a candidate launched is a sample, a failure, or
in flight.

`Region.Balanced` is the invariant, with what it rests on: the three lists of
candidates are of one length, a variant in use has its candidate's policy,
and every armed slot is some candidate's. Draining moves launches from the
slots to the statistics (`Balanced.drainSeeing`), and an issued loop adds one
launch and one entry on the other side (`Balanced.launch`).
-/
import AdaptiveLoops.Proofs.Region.Issue
import AdaptiveLoops.Proofs.Region.Session

namespace AdaptiveLoops

open Device (Stream LaunchId Outcome)

variable {α : Type}

namespace Region

/-- Every launch is accounted for, candidate by candidate. -/
structure Balanced (r : Region α) : Prop where
  pool : r.pool.Valid
  stats : r.stats.length = r.policies.length
  variants : r.variants.length = r.policies.length
  policy : ∀ i v, r.variant? i = some v → r.policies[i]? = some v.policy
  blocks : ∀ policy ∈ r.policies, ∀ block ∈ policy.blockSize?, block ≠ 0
  armed : ∀ context launch, .inFlight context launch ∈ r.pool.slots → context.candidate < r.policies.length
  conserved : ∀ i, r.launchesOf i = r.settledOf i + r.armedOf i

variable {r : Region α}

theorem Balanced.lt (h : r.Balanced) {candidate : Nat} {v : Variant} (hv : r.variant? candidate = some v) :
    candidate < r.policies.length := by
  rw [← h.variants]
  exact lt_of_variant? hv

theorem Balanced.congr (h : r.Balanced) (model : α) (invocations : Nat) :
    Balanced { r with model, invocations } :=
  ⟨h.pool, h.stats, h.variants, h.policy, h.blocks, h.armed, h.conserved⟩

/-! ## New regions -/

theorem create_eq_ok {site : CallSite} {policies : List Policy} {model : α} {config : Config}
    (h : create site policies model config = .ok r) :
    r.policies = policies ∧ r.variants = policies.map (fun _ => none) ∧
      r.stats = policies.map .ofPolicy ∧ r.pool = .ofCapacity site config.poolCapacity.toNat ∧
      r.model = model ∧ r.invocations = 0 := by
  unfold create at h
  split at h
  · cases h
  · split at h
    · cases h
    · next pool hpool =>
      cases h
      unfold Pool.ofCapacity? at hpool
      split at hpool
      · cases hpool
      · cases hpool
        exact ⟨rfl, rfl, rfl, rfl, rfl, rfl⟩

theorem create_balanced {site : CallSite} {policies : List Policy} {model : α} {config : Config}
    (h : create site policies model config = .ok r)
    (hblocks : ∀ policy ∈ policies, ∀ block ∈ policy.blockSize?, block ≠ 0) : r.Balanced := by
  obtain ⟨hpolicies, hvariants, hstats, hpool, -, -⟩ := create_eq_ok h
  have hvariant : ∀ i : Nat, r.variant? i = none := by
    intro i
    rw [variant?, hvariants, List.getElem?_map]
    cases policies[i]? <;> rfl
  have hslots : ∀ s ∈ r.pool.slots, s = .free := by
    intro s hs
    rw [hpool] at hs
    exact (List.mem_replicate.1 hs).2
  refine ⟨?_, ?_, ?_, ?_, hpolicies ▸ hblocks, ?_, fun i => ?_⟩
  · rw [hpool]
    exact Pool.valid_ofCapacity ..
  · rw [hstats, hpolicies, List.length_map]
  · rw [hvariants, hpolicies, List.length_map]
  · intro i v hv
    rw [hvariant] at hv
    cases hv
  · intro context launch hmem
    cases hslots _ hmem
  · have harmed : r.armedOf i = 0 := List.countP_eq_zero.2 fun s hs => by simp [hslots s hs, Pool.holds]
    have hsettled : r.settledOf i = 0 := by
      rw [settledOf, samplesOf, failuresOf, hstats, List.getElem?_map]
      cases policies[i]? <;> rfl
    rw [launchesOf, hvariant, harmed, hsettled]
    rfl

/-! ## One more launch -/

/-- One more launch of a candidate, and one more sample, failure or armed slot. -/
theorem Balanced.of_launched (h : r.Balanced) {candidate : Nat} {v v' : Variant}
    (hv : r.variant? candidate = some v) (hlaunched : v.Launched v') {r' : Region α}
    (hpolicies : r'.policies = r.policies) (hvariants : r'.variants = r.variants.set candidate (some v'))
    (hstats : r'.stats.length = r.stats.length) (hpool : r'.pool.Valid)
    (harmed : ∀ context launch, .inFlight context launch ∈ r'.pool.slots →
      context.candidate < r.policies.length)
    (hsum : ∀ i, r'.settledOf i + r'.armedOf i =
      r.settledOf i + r.armedOf i + if candidate = i then 1 else 0) : r'.Balanced := by
  have hlt := lt_of_variant? hv
  have hvariant : ∀ i, r'.variant? i = if candidate = i then some v' else r.variant? i := by
    intro i
    rw [← variant?_setVariant hlt v', variant?, hvariants]
    rfl
  refine ⟨hpool, ?_, ?_, ?_, hpolicies ▸ h.blocks, hpolicies ▸ harmed, fun i => ?_⟩
  · rw [hstats, hpolicies, h.stats]
  · rw [hvariants, List.length_set, hpolicies, h.variants]
  · intro i w hw
    rw [hvariant] at hw
    rw [hpolicies]
    split at hw
    · next heq =>
      cases hw
      rw [← heq, hlaunched.policy]
      exact h.policy candidate v hv
    · exact h.policy i w hw
  · have hold := h.conserved i
    rw [hsum, launchesOf, hvariant]
    split
    · next heq =>
      subst heq
      simp only [launchesOf, hv, Option.map_some, Option.getD_some] at hold ⊢
      rw [hlaunched.launches, hold]
    · exact hold

section
variable {context : Context} {v v' : Variant}

theorem Balanced.fail (h : r.Balanced) (hv : r.variant? context.candidate = some v)
    (hlaunched : v.Launched v') : ((r.setVariant context.candidate v').fail context.candidate).Balanced := by
  have hcandidate : context.candidate < r.stats.length := by
    rw [h.stats]
    exact h.lt hv
  refine h.of_launched hv hlaunched rfl rfl (List.length_modify ..) h.pool h.armed fun i => ?_
  have hsettled : ((r.setVariant context.candidate v').fail context.candidate).settledOf i =
      r.settledOf i + if context.candidate = i then 1 else 0 := settledOf_fail hcandidate
  rw [hsettled, Nat.add_right_comm]
  rfl

theorem Balanced.arm (h : r.Balanced) (hv : r.variant? context.candidate = some v)
    (hlaunched : v.Launched v') {slot : Nat} {pool : Pool} (hp : r.pool.acquire = .ok (slot, pool))
    (launch : LaunchId) :
    ∃ armed, pool.arm slot context launch = .ok armed ∧
      ({ r with pool := armed }.setVariant context.candidate v').Balanced := by
  obtain ⟨armed, harm, hvalid, hslots⟩ := h.pool.arm_acquired hp context launch
  refine ⟨armed, harm, h.of_launched hv hlaunched rfl rfl rfl hvalid ?_ fun i => ?_⟩
  · intro context' launch' hmem
    have hmem : .inFlight context' launch' ∈ r.pool.slots.set slot (.inFlight context launch) :=
      hslots ▸ hmem
    rcases List.mem_or_eq_of_mem_set hmem with hmem | heq
    · exact h.armed context' launch' hmem
    · cases heq
      exact h.lt hv
  · have hset := countP_holds_set (i := i) (h.pool.acquired hp).1 (.inFlight context launch)
    have harmed : ({ r with pool := armed }.setVariant context.candidate v').armedOf i =
        r.armedOf i + if context.candidate = i then 1 else 0 := by
      simp only [armedOf, setVariant, hslots]
      simpa [Pool.holds] using hset
    rw [harmed, ← Nat.add_assoc]
    rfl

end

theorem Balanced.instantiate (h : r.Balanced) {candidate : Nat} {policy : Policy} {stream : Stream}
    (hp : r.policies[candidate]? = some policy) {r' : Region α} {v : Variant}
    (hr : r.instantiate candidate policy stream = .ok (r', v)) :
    r'.Balanced ∧ r'.variant? candidate = some v := by
  unfold Region.instantiate at hr
  split at hr
  · next hv =>
    cases hr
    exact ⟨h, hv⟩
  · next hnone =>
    split at hr
    · cases hr
    · next hnew =>
      cases hr
      have hlt : candidate < r.variants.length := by
        rw [h.variants]
        exact (List.getElem?_eq_some_iff.1 hp).1
      unfold Variant.instantiate at hnew
      split at hnew
      · cases hnew
      · cases hnew
        refine ⟨⟨h.pool, h.stats, ?_, ?_, h.blocks, h.armed, fun i => ?_⟩, ?_⟩
        · exact List.length_set.trans h.variants
        · intro i v hv
          rw [variant?_setVariant hlt] at hv
          split at hv
          · next heq =>
            cases hv
            exact heq ▸ hp
          · exact h.policy i v hv
        · rw [launchesOf_setVariant hlt]
          split
          · next heq =>
            subst heq
            have hzero : r.launchesOf candidate = 0 := by simp [launchesOf, hnone]
            exact hzero.symm.trans (h.conserved candidate)
          · exact h.conserved i
        · rw [variant?_setVariant hlt, if_pos rfl]

variable [Model α]

/-! ## Draining -/

theorem Balanced.drainSeeing (h : r.Balanced) (seen : LaunchId → Option Outcome) :
    (r.drainSeeing seen).1.Balanced := by
  have hdone : ∀ c ∈ (r.pool.poll seen).1, c.context.candidate < r.stats.length := by
    intro c hc
    obtain ⟨launch, hmem⟩ := Pool.inFlight_mem_of_collected _ hc
    rw [h.stats]
    exact h.armed _ _ hmem
  have hsettled : ∀ i, (r.drainSeeing seen).1.settledOf i =
      r.settledOf i + (r.pool.poll seen).1.countP (·.context.candidate == i) := fun i =>
    settledOf_foldl_account (r := { r with pool := (r.pool.poll seen).2 }) hdone
  obtain ⟨stats, model, heq, hlength⟩ : ∃ stats model, (r.drainSeeing seen).1 =
      { r with pool := (r.pool.poll seen).2, stats, model } ∧ stats.length = r.stats.length :=
    foldl_account_eq _ _
  rw [heq] at hsettled ⊢
  -- What left the slots has arrived in the statistics.
  refine ⟨h.pool.poll _, hlength.trans h.stats, h.variants, h.policy, h.blocks, ?_, fun i => ?_⟩
  · exact fun context launch hmem => h.armed _ _ (Pool.mem_of_mem_poll _ Slot.noConfusion hmem)
  · have hpoll : (r.pool.poll seen).1.countP (·.context.candidate == i) +
        (r.pool.poll seen).2.slots.countP (Pool.holds i) = r.armedOf i :=
      Pool.countP_poll seen r.pool i
    calc r.launchesOf i
      _ = r.settledOf i + r.armedOf i := h.conserved i
      _ = _ := by rw [hsettled, ← hpoll, Nat.add_assoc]; rfl

/-! ## Choosing -/

theorem select_eq (r : Region α) (features : Features) (invocation : Nat) :
    ∃ model, (r.select features invocation).2 = { r with model } := by
  unfold select
  split
  · exact ⟨_, rfl⟩
  · exact ⟨_, rfl⟩

theorem Balanced.select (h : r.Balanced) (features : Features) (invocation : Nat) :
    ({ r with invocations := r.invocations + 1 }.select features invocation).2.Balanced := by
  obtain ⟨model, heq⟩ := select_eq { r with invocations := r.invocations + 1 } features invocation
  rw [heq]
  exact h.congr model (r.invocations + 1)

theorem Balanced.pick (h : r.Balanced) (stream : Stream) (space : IterationSpace) :
    (r.pick stream space).1.Balanced ∧ ∀ choice, (r.pick stream space).2 = .ok choice →
      (r.pick stream space).1.variant? choice.context.candidate = some choice.variant := by
  have hselect := h.select (Features.ofSpace space) r.invocations
  unfold Region.pick
  dsimp only
  split
  · exact ⟨hselect, fun _ hc => by cases hc⟩
  · next policy hpolicy =>
    split
    · exact ⟨hselect, fun _ hc => by cases hc⟩
    · next r' v hv =>
      obtain ⟨hbalanced, hvariant⟩ := hselect.instantiate hpolicy hv
      refine ⟨hbalanced, fun choice hc => ?_⟩
      cases hc
      exact hvariant

/-! ## Calls -/

theorem Balanced.report (h : r.Balanced) {context : Context} {v v' : Variant}
    (hv : r.variant? context.candidate = some v) (hlaunched : v.Launched v') (elapsed : Duration) :
    ((r.setVariant context.candidate v').report context elapsed).Balanced := by
  have hcandidate : context.candidate < r.stats.length := by
    rw [h.stats]
    exact h.lt hv
  refine h.of_launched hv hlaunched rfl rfl (List.length_modify ..) h.pool h.armed fun i => ?_
  have hsettled : ((r.setVariant context.candidate v').report context elapsed).settledOf i =
      r.settledOf i + if context.candidate = i then 1 else 0 := settledOf_report hcandidate elapsed
  rw [hsettled, Nat.add_right_comm]
  rfl

theorem Balanced.launch (h : r.Balanced) {choice : Choice}
    (hv : r.variant? choice.context.candidate = some choice.variant) {space : IterationSpace}
    (hrank : 0 < space.rank) (stream : Stream) (plugins : List Plugin) (body : Body) (now : Moment) :
    (r.launch stream plugins choice space body now).region.Balanced := by
  have hpolicy := h.policy _ _ hv
  have hblock : ∀ block ∈ choice.variant.policy.blockSize?, block ≠ 0 :=
    h.blocks _ (List.mem_of_getElem? hpolicy)
  have hissue : Issues r stream choice.variant choice.context.candidate (choice.variant.policy.Suits space)
      (r.issue choice.variant stream choice.context.candidate space body now) :=
    issue_cases h.pool space body now
  -- Each way an issued loop can come to is concluded in one way.
  simp only [Region.launch]
  generalize r.issue choice.variant stream choice.context.candidate space body now = i at hissue ⊢
  cases hissue with
  | refused hasync hfull hfail => exact h
  | finished hlaunched _ => exact h.report hv hlaunched _
  | failed hlaunched he _ =>
    simp only [failUnlessExhausted, LoopError.isPoolExhausted_of_isOfPool he]
    exact h.fail hv (hlaunched ⟨hrank, hblock⟩)
  | @left v' after work slot pool launch hlaunched hp _ =>
    obtain ⟨armed, harm, hbalanced⟩ := h.arm hv hlaunched hp launch
    have harm : ({ r with pool }.setVariant choice.context.candidate v').pool.arm slot choice.context launch =
        .ok armed := harm
    simp only [conclude, harm, Except.map]
    exact hbalanced

/-- **A call keeps the balance**, whatever the stream does meanwhile. -/
theorem Balanced.invokeDuring (h : r.Balanced) {space : IterationSpace} (hrank : 0 < space.rank)
    (stream : Stream) (meanwhile : Meanwhile) (plugins : List Plugin) (body : Body) (now : Moment) :
    (r.invokeDuring stream meanwhile plugins space body now).region.Balanced := by
  have hdrain := h.drainSeeing (meanwhile.polling.seen stream)
  unfold Region.invokeDuring Region.chooseDuring
  cases hpolled : r.drainSeeing (meanwhile.polling.seen stream) with
  | mk polled result =>
    rw [hpolled] at hdrain
    cases result with
    | error e => exact hdrain
    | ok n =>
      obtain ⟨hbalanced, hchoice⟩ := hdrain.pick (meanwhile.atChoice stream) space
      dsimp only
      cases hpick : polled.pick (meanwhile.atChoice stream) space with
      | mk picked result =>
        rw [hpick] at hbalanced hchoice
        cases result with
        | error e => exact hbalanced
        | ok choice => exact hbalanced.launch (hchoice choice rfl) hrank _ plugins body now

end Region

/-! ## Sessions -/

namespace Session

variable [Model α]

theorem run_balanced : ∀ {acts : List Act} {s : Session α}, s.region.Balanced →
    (∀ act ∈ acts, act.HasDimension) → (s.run acts).region.Balanced
  | [], s, h, _ => h
  | act :: acts, s, h, hdim => by
    rw [List.forall_mem_cons] at hdim
    have hstep : (Turn.after ⟨s, act⟩).region.Balanced := by
      cases act with
      | invoke plugins space body now meanwhile => exact h.invokeDuring hdim.1 s.stream meanwhile plugins body now
      | drain polling => exact h.drainSeeing (polling.seen s.stream)
      | stream e => exact h
    exact run_balanced (s := Turn.after ⟨s, act⟩) hstep hdim.2

/--
**Launches are conserved, candidate by candidate**, in every session with a
new region whose device candidates have no empty blocks: what the variant
launched is a sample, a failure, or armed in a slot.
-/
theorem run_conserves {site : CallSite} {policies : List Policy} {model : α} {config : Config}
    {r : Region α} (hr : Region.create site policies model config = .ok r)
    (hblocks : ∀ policy ∈ policies, ∀ block ∈ policy.blockSize?, 1 ≤ block) (stream : Stream)
    {acts : List Act} (hdim : ∀ act ∈ acts, act.HasDimension) (candidate : Nat) :
    let r' := (Session.run ⟨r, stream⟩ acts).region
    r'.launchesOf candidate =
      r'.samplesOf candidate + r'.failuresOf candidate + r'.armedOf candidate := by
  have hblocks : ∀ policy ∈ policies, ∀ block ∈ policy.blockSize?, block ≠ 0 := by
    rintro policy hp _ hb rfl
    exact absurd (hblocks policy hp 0 hb) (by decide)
  exact (run_balanced (s := ⟨r, stream⟩) (Region.create_balanced hr hblocks) hdim).conserved candidate

/-- A loop in order, and one that is queued and then told to stop. -/
theorem run_conserves_queued : ∃ r, Region.create (.named "saxpy") [.sequential, .device 4 .async]
      (Fixed.ofIndex 1) .default = .ok r ∧
    let r' := (Session.run ⟨r, .empty⟩
      [.invoke [] ⟨[⟨0, 8⟩]⟩ (fun _ => none) ⟨.serial, ⟨10⟩⟩ .still,
       .invoke [] ⟨[⟨0, 8⟩]⟩ (fun _ => none) ⟨.serial, ⟨10⟩⟩ .still,
       .stream .shutdown, .drain .still]).region
    r'.launchesOf 1 = r'.samplesOf 1 + r'.failuresOf 1 + r'.armedOf 1 := by
  obtain ⟨r, hr⟩ : ∃ r, Region.create (.named "saxpy") [.sequential, .device 4 .async]
    (Fixed.ofIndex 1) .default = .ok r := ⟨_, rfl⟩
  refine ⟨r, hr, run_conserves hr ?_ .empty ?_ 1⟩
  · simp [Policy.blockSize?]
  · simp [Act.HasDimension, IterationSpace.rank]

end Session

end AdaptiveLoops
