/-
What a region is made with and keeps: its site, its candidates, its settings
and the size of its pool (`Region.setup`). A candidate that is in use has its
policy, and the trees that are built for it (`Region.Equipped`).

Each part of a call keeps both, so every turn does (`Turn.setup_after`), and
what every turn keeps is so before each turn of a session (`forall_turns`).
`Session.WellFormed` puts together what is so of any session.
-/
import AdaptiveLoops.Proofs.Device.Waiting
import AdaptiveLoops.Proofs.Region.Turns
import AdaptiveLoops.Proofs.Variant.Trees

namespace AdaptiveLoops

open Device (Stream LaunchId Outcome)

variable {α : Type}

namespace Region

/-- What a region is made with. -/
structure Setup where
  site : CallSite
  policies : List Policy
  warmup : Warmup
  warmupSamples : Nat
  onExhausted : Exhaustion
  poolSite : CallSite
  capacity : Nat

def setup (r : Region α) : Setup :=
  ⟨r.site, r.policies, r.warmup, r.warmupSamples, r.onExhausted, r.pool.site, r.pool.capacity⟩

/-- The candidates in use are the same, but for one that may have been put into use and not launched. -/
def Admits (r : Region α) (candidate : Nat) (policy : Policy) (variants : List (Option Variant)) : Prop :=
  variants = r.variants ∨
    r.variant? candidate = none ∧ variants = r.variants.set candidate (some ⟨r.site, candidate, policy, [], 0⟩)

/-- A candidate in use has its own policy, and the trees that are built. -/
def Equipped (r : Region α) : Prop :=
  ∀ i v, r.variant? i = some v → r.policies[i]? = some v.policy ∧ v.Prepared

variable {r r' : Region α}

theorem policies_of_setup (h : r'.setup = r.setup) : r'.policies = r.policies :=
  congrArg Setup.policies h

theorem setup_pool {pool : Pool} (hsite : pool.site = r.pool.site) (hcapacity : pool.capacity = r.pool.capacity) :
    { r with pool }.setup = r.setup := by
  simp only [setup, hsite, hcapacity]

theorem create_setup {site : CallSite} {policies : List Policy} {model : α} {config : Config}
    (h : create site policies model config = .ok r) :
    r.site = site ∧ r.onExhausted = config.onPoolExhausted ∧ r.pool.site = site ∧
      r.pool.capacity = config.poolCapacity.toNat := by
  obtain ⟨-, -, -, hpool, -, -⟩ := create_eq_ok h
  refine ⟨?_, ?_, by rw [hpool]; rfl, by rw [hpool]; exact List.length_replicate⟩
  all_goals
    unfold create at h
    split at h
    · cases h
    · split at h
      · cases h
      · cases h
        rfl

/-- A region that is refused is refused for its candidates, or for the size of its pool. -/
theorem isPoolExhausted_of_create {site : CallSite} {policies : List Policy} {model : α} {config : Config}
    {e : LoopError} (h : create site policies model config = .error e) : e.isPoolExhausted = false := by
  unfold create Pool.ofCapacity? at h
  split at h
  · cases h
    rfl
  · split at h
    · next hpool =>
      split at hpool
      · cases hpool
        cases h
        rfl
      · cases hpool
    · cases h

theorem create_equipped {site : CallSite} {policies : List Policy} {model : α} {config : Config}
    (h : create site policies model config = .ok r) : r.Equipped := by
  obtain ⟨-, hvariants, -⟩ := create_eq_ok h
  intro i v hv
  rw [variant?, hvariants, List.getElem?_map] at hv
  cases hi : policies[i]? <;> simp [hi] at hv

/-! ## Candidates in use -/

theorem Equipped.congr (h : r.Equipped) (hpolicies : r'.policies = r.policies)
    (hvariants : r'.variants = r.variants) : r'.Equipped := by
  intro i v hv
  rw [variant?, hvariants] at hv
  rw [hpolicies]
  exact h i v hv

theorem Equipped.set (h : r.Equipped) {candidate : Nat} {v : Variant} (hv : v.Prepared)
    (hpolicy : r.policies[candidate]? = some v.policy) (hpolicies : r'.policies = r.policies)
    (hvariants : r'.variants = r.variants.set candidate (some v)) : r'.Equipped := by
  intro i w hw
  rw [variant?, hvariants, List.getElem?_set] at hw
  rw [hpolicies]
  split at hw
  · next heq =>
    subst heq
    split at hw
    · cases hw
      exact ⟨hpolicy, hv⟩
    · cases hw
  · exact h i w hw

theorem Equipped.instantiate (h : r.Equipped) {candidate : Nat} {policy : Policy} {stream : Stream}
    (hpolicy : r.policies[candidate]? = some policy) {v : Variant}
    (hv : r.instantiate candidate policy stream = .ok (r', v)) :
    r'.Equipped ∧ v.policy = policy ∧ v.Prepared ∧
      (r'.variants = r.variants ∧ r.variant? candidate = some v ∨
        r'.variants = r.variants.set candidate (some v) ∧ r.variant? candidate = none ∧
          v = ⟨r.site, candidate, policy, [], 0⟩) := by
  unfold Region.instantiate at hv
  split at hv
  · next hused =>
    cases hv
    obtain ⟨hsame, hprepared⟩ := h candidate v hused
    rw [hpolicy, Option.some.injEq] at hsame
    exact ⟨h, hsame.symm, hprepared, .inl ⟨rfl, hused⟩⟩
  · next hunused =>
    split at hv
    · cases hv
    · next hnew =>
      cases hv
      unfold Variant.instantiate at hnew
      split at hnew
      · cases hnew
      · cases hnew
        have hprepared : Variant.Prepared ⟨r.site, candidate, policy, [], 0⟩ := nofun
        exact ⟨h.set hprepared hpolicy rfl rfl, rfl, hprepared, .inr ⟨rfl, hunused, rfl⟩⟩

/-! ## Issuing -/

section
variable {stream : Stream} {v : Variant} {candidate : Nat} {space : IterationSpace} {body : Body}
  {now : Moment}

theorem region_settle (r : Region α) (e : Execution) : (r.settle e).region = r := by
  unfold settle
  split
  · rfl
  · rfl
  · dsimp only
    split <;> rfl

theorem releasing_keeps (r : Region α) (stream : Stream) (slot : Nat) (work : Option Work)
    (result : Except LoopError Issued) :
    (r.releasing stream slot work result).region.setup = r.setup ∧
      (r.releasing stream slot work result).region.variants = r.variants := by
  unfold releasing
  split
  · exact ⟨rfl, rfl⟩
  · next hrelease =>
    obtain ⟨-, rfl⟩ := Pool.release_eq_ok hrelease
    exact ⟨setup_pool rfl List.length_set, rfl⟩

theorem keep_keeps (r : Region α) (slot : Nat) (e : Execution) :
    (r.keep slot e).region.setup = r.setup ∧ (r.keep slot e).region.variants = r.variants := by
  unfold keep
  split
  · exact ⟨rfl, rfl⟩
  · exact releasing_keeps ..
  · exact releasing_keeps ..

theorem setup_issue (r : Region α) (v : Variant) (stream : Stream) (candidate : Nat) (space : IterationSpace)
    (body : Body) (now : Moment) :
    (r.issue v stream candidate space body now).region.setup = r.setup := by
  unfold issue
  split
  · split
    · next slot pool hp =>
      obtain ⟨rest, -, rfl⟩ := Pool.acquire_eq_ok hp
      exact (keep_keeps _ _ _).1.trans (setup_pool (r := r) rfl List.length_set)
    · split
      · rfl
      · dsimp only
        rw [region_settle]
        rfl
  · dsimp only
    rw [region_settle]
    rfl

/-- Issuing a loop puts back the variant that issued it. -/
theorem variants_issue (r : Region α) (v : Variant) (stream : Stream) (candidate : Nat) (space : IterationSpace)
    (body : Body) (now : Moment) :
    (r.issue v stream candidate space body now).region.variants = r.variants ∨
      ∃ policy, (r.issue v stream candidate space body now).region.variants =
        r.variants.set candidate (some (v.issue policy stream space body now).1) := by
  unfold issue
  split
  · split
    · exact .inr ⟨v.policy, (keep_keeps _ _ _).2⟩
    · split
      · exact .inl rfl
      · exact .inr ⟨v.policy.synchronous, congrArg Region.variants (region_settle _ _)⟩
  · exact .inr ⟨v.policy, congrArg Region.variants (region_settle _ _)⟩

theorem Equipped.issue (h : r.Equipped) (hv : v.Prepared) (hpolicy : r.policies[candidate]? = some v.policy)
    (stream : Stream) (space : IterationSpace) (body : Body) (now : Moment) :
    (r.issue v stream candidate space body now).region.Equipped := by
  have hsame : (r.issue v stream candidate space body now).region.policies = r.policies :=
    policies_of_setup (setup_issue ..)
  rcases variants_issue r v stream candidate space body now with hvariants | ⟨policy, hvariants⟩
  · exact h.congr hsame hvariants
  · obtain ⟨hprepared, hsamePolicy⟩ := hv.issue policy stream space body now
    exact h.set hprepared (hsamePolicy ▸ hpolicy) hsame hvariants

end

variable [Model α]

/-! ## Calls -/

theorem drainSeeing_eq (r : Region α) (seen : LaunchId → Option Outcome) :
    ∃ stats model, (r.drainSeeing seen).1 = { r with pool := (r.pool.poll seen).2, stats, model } := by
  obtain ⟨stats, model, heq, -⟩ := foldl_account_eq (r.pool.poll seen).1 { r with pool := (r.pool.poll seen).2 }
  exact ⟨stats, model, heq⟩

theorem setup_drainSeeing (r : Region α) (seen : LaunchId → Option Outcome) :
    (r.drainSeeing seen).1.setup = r.setup := by
  obtain ⟨stats, model, heq⟩ := drainSeeing_eq r seen
  have hsite : (r.pool.poll seen).2.site = r.pool.site := rfl
  rw [heq]
  exact setup_pool hsite (List.length_mapIdx)

theorem Equipped.drainSeeing (h : r.Equipped) (seen : LaunchId → Option Outcome) :
    (r.drainSeeing seen).1.Equipped := by
  obtain ⟨stats, model, heq⟩ := drainSeeing_eq r seen
  rw [heq]
  exact h.congr rfl rfl

/-- The region once an invocation has its number and its pick. -/
def asked (r : Region α) (features : Features) : Region α :=
  { r with invocations := r.invocations + 1, model := (r.select features r.invocations).2.model }

theorem select_eq_asked (r : Region α) (features : Features) :
    { r with invocations := r.invocations + 1 }.select features r.invocations =
      ((r.select features r.invocations).1, r.asked features) := by
  have hwarm : ({ r with invocations := r.invocations + 1 } : Region α).isWarmingUp = r.isWarmingUp := rfl
  simp only [select, hwarm, asked]
  cases r.isWarmingUp <;> rfl

theorem pick_eq (r : Region α) (chosen : Stream) (space : IterationSpace) :
    r.pick chosen space =
      let candidate := (r.select (Features.ofSpace space) r.invocations).1
      match r.policies[candidate]? with
      | none => (r.asked (Features.ofSpace space), .error (.pickOutOfRange r.site candidate r.policies.length))
      | some policy =>
        match (r.asked (Features.ofSpace space)).instantiate candidate policy chosen with
        | .error e => (r.asked (Features.ofSpace space), .error e)
        | .ok (r', v) => (r', .ok ⟨⟨r.invocations, Features.ofSpace space, candidate, policy⟩, v⟩) := by
  simp only [pick, select_eq_asked]
  rfl

/--
What a pick comes to: no candidate is put into use, or the one for the next invocation is in use, under its
own policy. It may have been put into use just now, without a launch.
-/
inductive Takes (r : Region α) (features : Features) (chosen : Stream) :
    Region α × Except LoopError Choice → Prop where
  | nothing {e : LoopError} (he : e.isOfPool = false)
      (hnone : ∀ context, r.Fresh features context →
        ¬ r.Available chosen context.candidate context.policy) :
    Takes r features chosen (r.asked features, .error e)
  | taken {context : Context} {v : Variant} {variants : List (Option Variant)} (hfresh : r.Fresh features context)
      (havailable : r.Available chosen context.candidate context.policy) (hpolicy : v.policy = context.policy)
      (hprepared : v.Prepared) (hequipped : { r.asked features with variants }.Equipped)
      (hvariants : r.Admits context.candidate context.policy variants) :
    Takes r features chosen ({ r.asked features with variants }, .ok ⟨context, v⟩)

/-- **What a pick comes to.** -/
theorem Equipped.takes (h : r.Equipped) (chosen : Stream) (space : IterationSpace) :
    Takes r (Features.ofSpace space) chosen (r.pick chosen space) := by
  have hasked : (r.asked (Features.ofSpace space)).Equipped := h.congr rfl rfl
  have hpick : ∀ context, r.Fresh (Features.ofSpace space) context →
      r.policies[(r.select (Features.ofSpace space) r.invocations).1]? = some context.policy := by
    intro context hfresh
    rw [← hfresh.pick]
    exact hfresh.policy
  rw [pick_eq]
  dsimp only
  split
  · next hnone =>
    refine .nothing rfl fun context hfresh => ?_
    rw [hpick context hfresh] at hnone
    cases hnone
  · next policy hpolicy =>
    have hcases := instantiate_cases (r.asked (Features.ofSpace space))
      (r.select (Features.ofSpace space) r.invocations).1 policy chosen
    split
    · next e he =>
      rw [he] at hcases
      rcases hcases with ⟨-, v, variants, hok, -⟩ | ⟨hunavailable, hclosed⟩
      · cases hok
      · cases hclosed
        refine .nothing rfl fun context hfresh havailable => hunavailable ?_
        rw [hpick context hfresh, Option.some.injEq] at hpolicy
        rw [← hpolicy, ← hfresh.pick]
        exact havailable
    · next r' v hv =>
      obtain ⟨hequipped, hsame, hprepared, hvariants⟩ := hasked.instantiate hpolicy hv
      rw [hv] at hcases
      rcases hcases with ⟨havailable, w, variants, hok, -⟩ | ⟨-, hclosed⟩
      · cases hok
        refine .taken ⟨rfl, rfl, rfl, hpolicy⟩ havailable hsame hprepared hequipped ?_
        rcases hvariants with ⟨heq, -⟩ | ⟨heq, hunused, rfl⟩
        · exact .inl heq
        · exact .inr ⟨hunused, heq⟩
      · cases hclosed

theorem conclude_eq_ok {context : Context} {issued : Issued} (h : r.conclude context issued = .ok r') :
    r'.setup = r.setup ∧ r'.variants = r.variants := by
  cases issued with
  | finished elapsed =>
    cases h
    exact ⟨rfl, rfl⟩
  | pending slot launch =>
    simp only [conclude] at h
    cases hp : r.pool.arm slot context launch with
    | error e => simp [hp, Except.map] at h
    | ok pool =>
      simp only [hp, Except.map, Except.ok.injEq] at h
      obtain ⟨-, rfl⟩ := Pool.arm_eq_ok hp
      rw [← h]
      exact ⟨setup_pool rfl List.length_set, rfl⟩

theorem launch_keeps (r : Region α) (stream : Stream) (plugins : List Plugin) (choice : Choice)
    (space : IterationSpace) (body : Body) (now : Moment) :
    (r.launch stream plugins choice space body now).region.setup = r.setup ∧
      (r.launch stream plugins choice space body now).region.variants =
        (r.issue choice.variant stream choice.context.candidate space body now).region.variants := by
  have hissue := setup_issue r choice.variant stream choice.context.candidate space body now
  simp only [Region.launch]
  split
  · simp only [failUnlessExhausted]
    split
    · exact ⟨hissue, rfl⟩
    · exact ⟨hissue, rfl⟩
  · split
    · exact ⟨hissue, rfl⟩
    · next hconclude =>
      obtain ⟨hsetup, hvariants⟩ := conclude_eq_ok hconclude
      exact ⟨hsetup.trans hissue, hvariants⟩

/-- **An invocation keeps the setup**, and its candidates equipped. -/
theorem Equipped.proceed (h : r.Equipped) (chosen issued : Stream) (plugins : List Plugin)
    (space : IterationSpace) (body : Body) (now : Moment) :
    (r.proceed chosen issued plugins space body now).region.setup = r.setup ∧
      (r.proceed chosen issued plugins space body now).region.Equipped := by
  have htakes := h.takes chosen space
  unfold Region.proceed
  generalize r.pick chosen space = p at htakes ⊢
  cases htakes with
  | nothing _ _ => exact ⟨rfl, h.congr rfl rfl⟩
  | @taken context v variants hfresh _ hpolicy hprepared hequipped _ =>
    obtain ⟨hlaunch, hvariants⟩ :=
      launch_keeps { r.asked (Features.ofSpace space) with variants } issued plugins ⟨context, v⟩ space body now
    have hissue := hequipped.issue hprepared (hpolicy ▸ hfresh.policy) issued space body now
    refine ⟨hlaunch, hissue.congr ?_ hvariants⟩
    exact (policies_of_setup hlaunch).trans (policies_of_setup (setup_issue ..)).symm

end Region

/-! ## Turns -/

namespace Session

variable [Model α]

namespace Turn

variable {t : Turn α}

/-- **A turn keeps the setup of a region**, and its candidates equipped. -/
theorem setup_after (hequipped : t.before.region.Equipped) :
    t.after.region.setup = t.before.region.setup ∧ t.after.region.Equipped := by
  obtain ⟨s, act⟩ := t
  cases act with
  | stream e => exact ⟨rfl, hequipped⟩
  | drain polling => exact ⟨Region.setup_drainSeeing _ _, hequipped.drainSeeing _⟩
  | invoke plugins space body now meanwhile =>
    have hsetup := Region.setup_drainSeeing s.region (meanwhile.polling.seen s.stream)
    have hpolled := hequipped.drainSeeing (meanwhile.polling.seen s.stream)
    simp only [after, Region.invokeDuring_eq]
    split
    · next heq =>
      rw [heq] at hsetup hpolled
      exact ⟨hsetup, hpolled⟩
    · next heq =>
      rw [heq] at hsetup hpolled
      obtain ⟨hproceed, hafter⟩ := hpolled.proceed (meanwhile.atChoice s.stream) (meanwhile.atLaunch s.stream)
        plugins space body now
      exact ⟨hproceed.trans hsetup, hafter⟩

theorem reaches_after (h : t.before.region.Sound) : t.before.stream.Reaches t.after.stream := by
  obtain ⟨left, counted, -, -, hreaches, -⟩ := does h
  exact hreaches

theorem Answers.launched {left : List Armed} {counted : Nat} (hanswers : t.Answers left counted) :
    ∀ a ∈ left, a.launch < t.after.stream.completions.size := by
  cases hanswers with
  | aside _ _ _ _ => nofun
  | numbered _ _ hends =>
    generalize t.own = own at hends
    cases hends with
    | left _ _ hlaunch =>
      obtain ⟨work, hlaunch⟩ := hlaunch
      simpa using Device.Stream.lt_size_of_launch hlaunch
    | finished _ _ _ => nofun
    | failed _ _ _ => nofun
    | exhausted _ _ _ _ => nofun
    | unavailable _ _ => nofun
    | outOfRange _ _ => nofun

end Turn

/-! ## Sessions -/

/-- A region of these settings, and a stream that has all its launches. -/
structure WellFormed (site : CallSite) (config : Config) (s : Session α) : Prop where
  sound : s.region.Sound
  equipped : s.region.Equipped
  accepted : ∃ log, s.stream.Accepted log
  launched : ∀ a ∈ s.region.pool.armed, a.launch < s.stream.completions.size
  regionSite : s.region.site = site
  poolSite : s.region.pool.site = site
  onExhausted : s.region.onExhausted = config.onPoolExhausted
  capacity : s.region.pool.capacity = config.poolCapacity.toNat

variable {site : CallSite} {config : Config}

omit [Model α] in
theorem create_wellFormed {policies : List Policy} {model : α} {r : Region α}
    (h : Region.create site policies model config = .ok r) {stream : Stream}
    (haccepted : ∃ log, stream.Accepted log) : WellFormed site config ⟨r, stream⟩ := by
  obtain ⟨hsite, honExhausted, hpoolSite, hcapacity⟩ := Region.create_setup h
  exact {
    sound := Region.create_sound h
    equipped := Region.create_equipped h
    accepted := haccepted
    launched := by simp [Region.armed_of_create h]
    regionSite := hsite
    poolSite := hpoolSite
    onExhausted := honExhausted
    capacity := hcapacity }

omit [Model α] in
theorem WellFormed.reaches {r : Region α} {stream stream' : Stream} (h : WellFormed site config ⟨r, stream⟩)
    (hreaches : stream.Reaches stream') : WellFormed site config ⟨r, stream'⟩ := by
  obtain ⟨log, hlog⟩ := h.accepted
  exact {
    h with
    accepted := hlog.reaches hreaches
    launched := fun a ha => Nat.lt_of_lt_of_le (h.launched a ha) (hlog.size_le hreaches) }

/-- **Sessions stay well-formed.** -/
theorem WellFormed.after {t : Turn α} (h : t.before.WellFormed site config) : t.after.WellFormed site config := by
  obtain ⟨left, counted, hanswers, hmoves, hreaches, -⟩ := Turn.does h.sound
  obtain ⟨hsetup, hequipped⟩ := Turn.setup_after h.equipped
  obtain ⟨log, hlog⟩ := h.accepted
  refine {
    sound := Turn.sound_after h.sound
    equipped := hequipped
    accepted := hlog.reaches hreaches
    launched := fun a ha => ?_
    regionSite := (congrArg Region.Setup.site hsetup).trans h.regionSite
    poolSite := (congrArg Region.Setup.poolSite hsetup).trans h.poolSite
    onExhausted := (congrArg Region.Setup.onExhausted hsetup).trans h.onExhausted
    capacity := (congrArg Region.Setup.capacity hsetup).trans h.capacity }
  rcases List.mem_append.1 (hmoves.armed.subset ha) with hleft | hkept
  · exact hanswers.launched a hleft
  · exact Nat.lt_of_lt_of_le (h.launched a (List.mem_of_mem_filter hkept)) (hlog.size_le hreaches)

/-- What every turn keeps is so before each turn of a session, and behind it. -/
theorem forall_turns {P : Session α → Prop} (hafter : ∀ t : Turn α, P t.before → P t.after) :
    ∀ {acts : List Act} {s : Session α}, P s → ∀ t ∈ s.turns acts, P t.before ∧ P t.after
  | [], _, _ => by simp [turns]
  | act :: acts, s, h => by
    have hnext : P (Turn.after ⟨s, act⟩) := hafter ⟨s, act⟩ h
    rw [turns, List.forall_mem_cons]
    exact ⟨⟨h, hnext⟩, forall_turns hafter hnext⟩

namespace Turn

variable {t : Turn α} {plugins : List Plugin} {space : IterationSpace} {body : Body} {now : Moment}
  {meanwhile : Meanwhile}

/-- Where an invocation launches, it finds the region as its poll left it. -/
theorem wellFormed_atLaunch (h : t.before.WellFormed site config)
    (hact : t.act = .invoke plugins space body now meanwhile) : WellFormed site config ⟨t.polled, t.atLaunch⟩ := by
  have hdrain : WellFormed site config (Turn.after ⟨t.before, .drain meanwhile.polling⟩) := WellFormed.after h
  have hpolled : t.polled = (Turn.after ⟨t.before, .drain meanwhile.polling⟩).region := by
    simp only [polled, after, seen, hact]
  have hlaunch : t.atLaunch = meanwhile.atLaunch t.before.stream := by simp only [atLaunch, hact]
  rw [hpolled, hlaunch]
  exact hdrain.reaches ((meanwhile.reaches_atChoice _).trans (meanwhile.reaches_atLaunch _))

theorem invokeDuring_eq (hact : t.act = .invoke plugins space body now meanwhile) {collected : Nat}
    (hdrain : (t.before.region.drainSeeing t.seen).2 = .ok collected) :
    t.before.region.invokeDuring t.before.stream meanwhile plugins space body now =
      t.polled.proceed t.atChoice t.atLaunch plugins space body now := by
  simp only [seen, hact] at hdrain
  simp only [Region.invokeDuring_eq, polled, seen, atChoice, atLaunch, hact]
  cases hpolled : t.before.region.drainSeeing (meanwhile.polling.seen t.before.stream) with
  | mk r result =>
    rw [hpolled] at hdrain
    cases hdrain
    rfl

end Turn

end Session

end AdaptiveLoops
