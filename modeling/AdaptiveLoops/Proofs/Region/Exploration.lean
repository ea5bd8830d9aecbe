/-
How a region tries its candidates, where they all run in the call and a new
mean-time model is asked from the first invocation on.

In one bucket of sizes the candidates that have been tried are the first
ones, as many as there were loops that ended well (`Region.Explores`). A
failed launch tells the model nothing, so its candidate is picked again by
the next invocation, and the candidates behind it wait (`turns_explore`).
-/
import AdaptiveLoops.Proofs.Model.Exploration
import AdaptiveLoops.Proofs.Region.Warmup

namespace AdaptiveLoops

open Device (Stream LaunchId Outcome)

/-- A mean-time model depends on what it was told of, and not on what it was asked. -/
theorem MeanTime.eq_of_told {m m' : MeanTime} {reports : List Report} (h : Model.Told m reports m') :
    m' = reports.foldl Model.tell m := by
  induction h with
  | refl => rfl
  | asked _ features pending ih => exact ih
  | told _ report ih => rw [List.foldl_append, ← ih]; rfl

theorem Pool.pendingByCandidate_of_armed_eq_nil {p : Pool} (h : p.armed = []) (count : Nat) :
    p.pendingByCandidate count = List.replicate count 0 := by
  have hnone : ∀ c, p.slots.countP (Pool.holds c) = 0 := by
    intro c
    rw [List.countP_eq_zero]
    intro s hs hholds
    cases s with
    | free => cases hholds
    | reserved => cases hholds
    | inFlight context launch =>
      have hmem : (⟨context, launch⟩ : Armed) ∈ p.armed := Pool.mem_armed.2 hs
      rw [h] at hmem
      cases hmem
  simp [pendingByCandidate, hnone]

/-! ## Candidates that run in the call -/

namespace Region

variable {α : Type} {r : Region α}

theorem isPending_of_settle {e : Execution} {issued : Issued} (h : (r.settle e).result = .ok issued) :
    issued.isPending = false := by
  unfold settle at h
  split at h
  · cases h
  · cases h
    rfl
  · dsimp only at h
    split at h
    · obtain ⟨elapsed, -, rfl⟩ := Statement.map_settled_eq_ok.1 h
      rfl
    · cases h

theorem isPending_of_issue {v : Variant} (hsync : v.policy.isAsync = false) {stream : Stream} {candidate : Nat}
    {space : IterationSpace} {body : Body} {now : Moment} {issued : Issued}
    (h : (r.issue v stream candidate space body now).result = .ok issued) : issued.isPending = false := by
  simp only [issue, hsync, Bool.false_eq_true, if_false] at h
  exact isPending_of_settle h

variable [Model α]

theorem isPending_of_launch {stream : Stream} {plugins : List Plugin} {choice : Choice}
    (hsync : choice.variant.policy.isAsync = false) {space : IterationSpace} {body : Body} {now : Moment}
    {d : Dispatch} (h : (r.launch stream plugins choice space body now).result = .ok d) : d.pending = false := by
  simp only [launch] at h
  split at h
  · cases h
  · next hissue =>
    split at h
    · cases h
    · cases h
      exact isPending_of_issue hsync hissue

theorem Equipped.pending_of_proceed (h : r.Equipped) (hsync : ∀ p ∈ r.policies, p.isAsync = false)
    {chosen issued : Stream} {plugins : List Plugin} {space : IterationSpace} {body : Body} {now : Moment}
    {d : Dispatch} (hok : (r.proceed chosen issued plugins space body now).result = .ok d) : d.pending = false := by
  have htakes := h.takes chosen space
  unfold Region.proceed at hok
  generalize r.pick chosen space = p at htakes hok
  cases htakes with
  | nothing _ _ => cases hok
  | taken hfresh _ hpolicy _ _ _ =>
    refine isPending_of_launch ?_ hok
    rw [hpolicy]
    exact hsync _ (List.mem_of_getElem? hfresh.policy)

/-- A region whose candidates all run in the call, and that asks its model from the first invocation on. -/
structure Eager (r : Region α) : Prop where
  sound : r.Sound
  equipped : r.Equipped
  noWarmup : r.warmupSamples = 0
  runsInCall : ∀ p ∈ r.policies, p.isAsync = false

/-- In a bucket the candidates that have a time are the first ones, and nothing is outstanding. -/
structure Explores (bucket : List Nat) (tried : Nat) (r : Region MeanTime) : Prop where
  armed : r.pool.armed = []
  seen : ∀ c < r.policies.length, MeanTime.seen (r.model.entries bucket) c = true ↔ c < tried

theorem create_explores {site : CallSite} {policies : List Policy} {config : Config} {r : Region MeanTime}
    (h : create site policies .empty config = .ok r) (bucket : List Nat) : r.Explores bucket 0 where
  armed := armed_of_create h
  seen c _ := by
    obtain ⟨-, -, -, -, hmodel, -⟩ := create_eq_ok h
    rw [hmodel]
    simp [MeanTime.entries, MeanTime.empty, MeanTime.seen, MeanTime.entry, RunningMean.zero]

end Region

/-! ## Turns -/

namespace Session

/-- The loop that an act invokes, if it invokes one. -/
def Act.space? : Act → Option IterationSpace
  | .invoke _ space _ _ _ => some space
  | _ => none

namespace Turn

section
variable {α : Type} [Model α] {t : Turn α}

/-- An invocation that ends well. -/
def isDispatched (t : Turn α) : Bool :=
  match t.answer? with
  | some (.ok _) => true
  | _ => false

theorem isDispatched_iff : t.isDispatched = true ↔ ∃ d, t.answer? = some (.ok d) := by
  unfold isDispatched
  split
  · next d hanswer => simp [hanswer]
  · next hno =>
    constructor
    · intro h
      cases h
    · rintro ⟨d, hanswer⟩
      exact absurd hanswer (hno d)

theorem eager_after (h : t.before.region.Eager) : t.after.region.Eager := by
  obtain ⟨hsetup, hequipped⟩ := setup_after h.equipped
  refine ⟨sound_after h.sound, hequipped, ?_, ?_⟩
  · exact (congrArg Region.Setup.warmupSamples hsetup).trans h.noWarmup
  · rw [Region.policies_of_setup hsetup]
    exact h.runsInCall

theorem pending_of_ok (h : t.before.region.Eager) {d : Dispatch} (hanswer : t.answer? = some (.ok d)) :
    d.pending = false := by
  obtain ⟨s, act⟩ := t
  cases act with
  | stream e => cases hanswer
  | drain polling => cases hanswer
  | invoke plugins space body now meanwhile =>
    have hpolled := h.equipped.drainSeeing (meanwhile.polling.seen s.stream)
    have hsetup := Region.setup_drainSeeing s.region (meanwhile.polling.seen s.stream)
    simp only [answer?, Option.some.injEq] at hanswer
    rw [Region.invokeDuring_eq] at hanswer
    split at hanswer
    · cases hanswer
    · next r n hdrain =>
      rw [hdrain] at hpolled hsetup
      refine hpolled.pending_of_proceed ?_ hanswer
      rw [Region.policies_of_setup hsetup]
      exact h.runsInCall

end

variable {t : Turn MeanTime} {bucket : List Nat} {tried : Nat}

/-- An invocation finds the model as the turns before have left it, and nothing outstanding. -/
theorem picked?_of_explores (h : t.before.region.Eager) (hexplores : t.before.region.Explores bucket tried)
    (hbucket : t.features.bucket = bucket) (hpicked : t.picked?.isSome = true) :
    t.picked? = some (MeanTime.pick (t.before.region.model.entries bucket)
      (List.replicate t.before.region.policies.length 0)) := by
  have hpoll := Region.drainSeeing_moves h.sound.pool h.sound.unreserved t.seen
  rw [hexplores.armed] at hpoll
  have hmodel : t.polled.model = t.before.region.model := MeanTime.eq_of_told hpoll.model
  have harmed : t.polled.pool.armed = [] := List.perm_nil.1 hpoll.armed
  have hsetup : t.polled.setup = t.before.region.setup := Region.setup_drainSeeing _ _
  have hlimit : t.polled.warmupSamples = 0 := (congrArg Region.Setup.warmupSamples hsetup).trans h.noWarmup
  have hwarm : t.polled.isWarmingUp = false := by simp [Region.isWarmingUp, hlimit]
  rw [picked?_eq_select h.sound hpicked, Region.select, hwarm, Region.policies_of_setup hsetup,
    Pool.pendingByCandidate_of_armed_eq_nil harmed, hmodel, ← hbucket]
  rfl

theorem picked?_eq (h : t.before.region.Eager) (hexplores : t.before.region.Explores bucket tried)
    (hbucket : t.features.bucket = bucket) (hpicked : t.picked?.isSome = true)
    (hsome : 0 < t.before.region.policies.length) :
    ∃ pick, t.picked? = some pick ∧ (tried < t.before.region.policies.length → pick = tried) ∧
      (t.before.region.policies.length ≤ tried →
        MeanTime.Fastest (t.before.region.model.entries bucket) t.before.region.policies.length pick) :=
  ⟨_, picked?_of_explores h hexplores hbucket hpicked, MeanTime.pick_of_few hexplores.seen,
    MeanTime.pick_of_all hexplores.seen hsome⟩

/-- **What a turn adds to what was tried**: the candidate of a loop that ends well, and else nothing. -/
theorem explores_after (h : t.before.region.Eager) (hexplores : t.before.region.Explores bucket tried)
    (hbucket : t.picked?.isSome = true → t.features.bucket = bucket) (hsome : 0 < t.before.region.policies.length) :
    t.after.region.Explores bucket (tried + if t.isDispatched = true then 1 else 0) := by
  obtain ⟨left, counted, hanswers, hmoves, -, -⟩ := does h.sound
  have hmodel := MeanTime.eq_of_told hmoves.model
  rw [reports_eq, hexplores.armed, List.filterMap_nil, List.nil_append] at hmodel
  have harmed := hmoves.armed
  rw [hexplores.armed, List.filter_nil, List.append_nil] at harmed
  -- Where the model is told nothing the turn has not ended well.
  have hquiet : left = [] → t.after.region.model = t.before.region.model → t.isDispatched = false →
      t.after.region.Explores bucket (tried + if t.isDispatched = true then 1 else 0) := by
    rintro rfl hsame hnot
    refine ⟨List.perm_nil.1 harmed, ?_⟩
    rw [hsame, hnot, hmoves.policies]
    exact hexplores.seen
  cases hanswers with
  | aside _ hanswer _ hown =>
    rw [hown] at hmodel
    refine hquiet rfl hmodel ?_
    rw [← Bool.not_eq_true, isDispatched_iff]
    exact fun ⟨d, hd⟩ => hanswer d hd
  | @numbered hpicked result hanswer _ hends =>
    have hisSome : t.picked?.isSome = true := by rw [hpicked]; rfl
    obtain ⟨pick, hpick, hnext, -⟩ := picked?_eq h hexplores (hbucket hisSome) hisSome hsome
    have hnot : ∀ e, result = .error e → t.isDispatched = false := by
      rintro e rfl
      rw [isDispatched, hanswer]
    generalize t.own = own at hends hmodel
    cases hends with
    | @finished context hfresh _ elapsed =>
      have hcandidate : context.candidate = pick := by
        rw [hpicked, ← hfresh.pick, Option.some.injEq] at hpick
        exact hpick
      have hdispatched : t.isDispatched = true := isDispatched_iff.2 ⟨_, hanswer⟩
      have hentries : t.after.region.model.entries bucket =
          MeanTime.record (t.before.region.model.entries bucket) pick elapsed := by
        rw [hmodel, ← hbucket hisSome, ← hfresh.features, ← hcandidate]
        exact MeanTime.entries_observe _ _ _ _
      refine ⟨List.perm_nil.1 harmed, fun c hc => ?_⟩
      rw [hmoves.policies] at hc
      rw [hentries, MeanTime.seen_record, Bool.or_eq_true, beq_iff_eq, hexplores.seen c hc, hdispatched, if_pos rfl]
      by_cases hfew : tried < t.before.region.policies.length
      · have hpicks := hnext hfew
        omega
      · omega
    | left hfresh _ hlaunch =>
      have hpending := pending_of_ok h hanswer
      cases hpending
    | failed hfresh _ he => exact hquiet rfl hmodel (hnot _ rfl)
    | exhausted hfresh _ site capacity => exact hquiet rfl hmodel (hnot _ rfl)
    | unavailable hfresh hunavailable => exact hquiet rfl hmodel (hnot _ rfl)
    | outOfRange hpick hnone => exact hquiet rfl hmodel (hnot _ rfl)

end Turn

/-! ## Runs -/

/-- Every loop is of one bucket of sizes. -/
def InBucket (bucket : List Nat) (acts : List Act) : Prop :=
  ∀ act ∈ acts, ∀ space ∈ act.space?, (Features.ofSpace space).bucket = bucket

variable {bucket : List Nat}

theorem Turn.bucket_features {s : Session MeanTime} {act : Act} {acts : List Act} (h : InBucket bucket (act :: acts))
    (hpicked : (Turn.picked? ⟨s, act⟩).isSome = true) : (Turn.features ⟨s, act⟩).bucket = bucket := by
  cases act with
  | invoke plugins space body now meanwhile => exact h _ List.mem_cons_self space rfl
  | drain polling => simp [picked?] at hpicked
  | stream e => simp [picked?] at hpicked

theorem explores_next {s : Session MeanTime} {act : Act} {acts : List Act} {tried : Nat} (h : s.region.Eager)
    (hexplores : s.region.Explores bucket tried) (hbucket : InBucket bucket (act :: acts))
    (hsome : 0 < s.region.policies.length) :
    let t : Turn MeanTime := ⟨s, act⟩
    t.after.region.Eager ∧ t.after.region.Explores bucket (tried + if t.isDispatched = true then 1 else 0) ∧
      InBucket bucket acts ∧ t.after.region.policies = s.region.policies :=
  ⟨Turn.eager_after (t := ⟨s, act⟩) h,
    Turn.explores_after (t := ⟨s, act⟩) h hexplores (Turn.bucket_features hbucket) hsome,
    fun act hact => hbucket act (List.mem_cons_of_mem _ hact),
    Region.policies_of_setup (Turn.setup_after (t := ⟨s, act⟩) h.equipped).1⟩

/-- What is known of a turn of such a session: as many candidates are tried as loops have ended well before it. -/
theorem explores_turns : ∀ {acts : List Act} {s : Session MeanTime} {tried : Nat} {earlier later : List (Turn MeanTime)}
    {t : Turn MeanTime}, s.region.Eager → s.region.Explores bucket tried → InBucket bucket acts →
      0 < s.region.policies.length → s.turns acts = earlier ++ t :: later →
        t.before.region.Eager ∧ t.before.region.policies = s.region.policies ∧
          t.before.region.Explores bucket (tried + earlier.countP Turn.isDispatched) ∧
            (t.picked?.isSome = true → t.features.bucket = bucket)
  | [], s, tried, earlier, later, t, _, _, _, _, heq => by simp [turns] at heq
  | act :: acts, s, tried, [], later, t, h, hexplores, hbucket, _, heq => by
    rw [turns, List.nil_append, List.cons.injEq] at heq
    obtain ⟨rfl, -⟩ := heq
    exact ⟨h, rfl, hexplores, Turn.bucket_features hbucket⟩
  | act :: acts, s, tried, u :: earlier, later, t, h, hexplores, hbucket, hsome, heq => by
    rw [turns, List.cons_append, List.cons.injEq] at heq
    obtain ⟨hu, hrest⟩ := heq
    obtain ⟨hnext, hafter, hbehind, hpolicies⟩ := explores_next h hexplores hbucket hsome
    obtain ⟨heager, hsame, hexplored, hfeatures⟩ := explores_turns hnext hafter hbehind (hpolicies ▸ hsome) hrest
    refine ⟨heager, hsame.trans hpolicies, ?_, hfeatures⟩
    rw [List.countP_cons, ← hu, Nat.add_comm (List.countP _ _), ← Nat.add_assoc]
    exact hexplored

/-- **As long as all loops end well** the candidates are tried one after the other. -/
theorem map_picked_first : ∀ {acts : List Act} {s : Session MeanTime} {tried : Nat} {first : List (Turn MeanTime)},
    s.region.Eager → s.region.Explores bucket tried → InBucket bucket acts → 0 < s.region.policies.length →
      first <+: s.counted acts → tried + first.length ≤ s.region.policies.length →
        (∀ t ∈ first, t.isDispatched = true) →
          first.map (·.picked?) = (List.range' tried first.length).map some
  | _, _, _, [], _, _, _, _, _, _, _ => rfl
  | [], _, _, _ :: _, _, _, _, _, hfirst, _, _ => by simp [counted, turns] at hfirst
  | act :: acts, s, tried, t :: first, h, hexplores, hbucket, hsome, hfirst, hlength, hwell => by
    obtain ⟨heager, hafter, hrest, hpolicies⟩ := explores_next h hexplores hbucket hsome
    rw [List.forall_mem_cons] at hwell
    rw [List.length_cons] at hlength
    rw [counted_cons] at hfirst
    split at hfirst
    · next hpicked =>
      obtain ⟨rfl, hprefix⟩ := List.cons_prefix_cons.1 hfirst
      obtain ⟨pick, hpick, hnext, -⟩ := Turn.picked?_eq h hexplores (Turn.bucket_features hbucket hpicked) hpicked hsome
      rw [hwell.1, if_pos rfl] at hafter
      have hlast := map_picked_first heager hafter hrest (hpolicies ▸ hsome) hprefix (by rw [hpolicies]; omega) hwell.2
      rw [List.map_cons, hlast, hpick, hnext (show tried < s.region.policies.length by omega), List.length_cons,
        List.range'_succ, List.map_cons]
    · next hnot =>
      have hfailed : (Turn.isDispatched ⟨s, act⟩) = false := by
        rw [← Bool.not_eq_true, Turn.isDispatched_iff]
        rintro ⟨d, hd⟩
        exact hnot (by rw [(Turn.picked?_of_ok h.sound hd).2]; rfl)
      rw [hfailed] at hafter
      exact map_picked_first heager hafter hrest (hpolicies ▸ hsome) hfirst
        (by rw [hpolicies, List.length_cons]; omega) (List.forall_mem_cons.2 hwell)

/--
**How candidates are tried**, in every session with a new region that asks a new mean-time model from the first
invocation on, where all candidates run in the call and all loops are of one bucket of sizes.

Every invocation gets a candidate. As long as fewer loops have ended well than there are candidates it is the one
whose number is that of the loops that have: a candidate whose loop fails is picked again until one ends well, and
no later candidate is tried before. Behind that it is the fastest in the bucket, and of several the first. So where
no loop fails the first invocations try the candidates in their order, each once.
-/
theorem turns_explore {site : CallSite} {policies : List Policy} {config : Config} {r : Region MeanTime}
    (hr : Region.create site policies .empty config = .ok r) (hwarmup : config.warmupSamples = 0)
    (hsync : ∀ p ∈ policies, p.isAsync = false) (stream : Stream) {acts : List Act} (hbucket : InBucket bucket acts) :
    let s : Session MeanTime := ⟨r, stream⟩
    (∀ earlier t later, s.turns acts = earlier ++ t :: later → t.answer?.isSome = true →
      let tried := earlier.countP Turn.isDispatched
      ∃ pick, t.picked? = some pick ∧ (tried < policies.length → pick = tried) ∧
        (policies.length ≤ tried →
          MeanTime.Fastest (t.before.region.model.entries bucket) policies.length pick)) ∧
    ∀ first, first <+: s.counted acts → first.length ≤ policies.length →
      (∀ t ∈ first, t.isDispatched = true) → first.map (·.picked?) = (List.range first.length).map some := by
  intro s
  obtain ⟨hpolicies, -⟩ := Region.create_eq_ok hr
  have heager : s.region.Eager := by
    refine ⟨Region.create_sound hr, Region.create_equipped hr, ?_, hpolicies ▸ hsync⟩
    rw [(Region.create_warmup hr).2, hwarmup]
    rfl
  have hsome : 0 < s.region.policies.length := hpolicies ▸ Region.create_policies hr
  have hexplores := Region.create_explores hr bucket
  constructor
  · intro earlier t later heq hinvoked
    obtain ⟨h, hsame, hexplored, hfeatures⟩ := explores_turns heager hexplores hbucket hsome heq
    have hpicked : t.picked?.isSome = true := by
      by_contra hnone
      rw [Bool.not_eq_true, Option.isSome_eq_false_iff, Option.isNone_iff_eq_none, Turn.picked?_eq_none] at hnone
      rcases hnone with hnone | ⟨e, hfailed, -⟩
      · rw [hnone] at hinvoked
        cases hinvoked
      · rw [Region.drainSeeing_of_armed_eq_nil hexplored.armed] at hfailed
        cases hfailed
    have hcount : t.before.region.policies.length = policies.length := by rw [hsame]; exact congrArg _ hpolicies
    have hpicks := Turn.picked?_eq h hexplored (hfeatures hpicked) hpicked (by rw [hsame]; exact hsome)
    rwa [hcount, Nat.zero_add] at hpicks
  · intro first hfirst hlength hwell
    have hcount : s.region.policies.length = policies.length := congrArg _ hpolicies
    have hpicks := map_picked_first heager hexplores hbucket hsome hfirst (by omega) hwell
    rwa [← List.range_eq_range'] at hpicks

/-- The second candidate is tried by the third invocation, when the first has failed once and then ended well. -/
theorem turns_explore_behind :
    let loop (body : Body) : Act := .invoke [] ⟨[⟨0, 8⟩]⟩ body ⟨.serial, ⟨10⟩⟩ .still
    let acts := [loop fun _ => some (.literal "boom"), loop fun _ => none, loop fun _ => none]
    let config := { Config.default with warmupSamples := 0 }
    ∃ r, Region.create (.named "saxpy") [.sequential, .threaded 1] MeanTime.empty config = .ok r ∧
      config.warmupSamples = 0 ∧ InBucket (Features.ofSpace ⟨[⟨0, 8⟩]⟩).bucket acts ∧
      ((Session.mk r .empty).turns acts).map (·.picked?) = [some 0, some 0, some 1] := by
  intro loop acts config
  obtain ⟨r, hr⟩ : ∃ r, Region.create (.named "saxpy") [.sequential, .threaded 1] MeanTime.empty config = .ok r :=
    ⟨_, rfl⟩
  have hbucket : InBucket (Features.ofSpace ⟨[⟨0, 8⟩]⟩).bucket acts := by simp [InBucket, acts, loop, Act.space?]
  let s : Session MeanTime := ⟨r, .empty⟩
  have hturns : s.turns acts = s.turns (acts.take 2) ++ ⟨s.go (acts.take 2), loop fun _ => none⟩ :: [] := rfl
  obtain ⟨htwo, htried⟩ : (s.turns (acts.take 2)).map (·.picked?) = [some 0, some 0] ∧
      (s.turns (acts.take 2)).countP Turn.isDispatched = 1 := by
    cases hr
    decide +kernel
  obtain ⟨pick, hpick, hnext, -⟩ := (turns_explore hr rfl (by decide) .empty hbucket).1 _ _ _ hturns rfl
  have hthird : pick = 1 := (hnext (by rw [htried]; decide)).trans htried
  refine ⟨r, hr, rfl, hbucket, ?_⟩
  rw [hturns, List.map_append, htwo, List.map_cons, hpick, hthird]
  rfl

/-- With two candidates the first of which fails, the first two invocations do not try both. -/
theorem failing_candidate_is_picked_again :
    let loop (body : Body) : Act := .invoke [] ⟨[⟨0, 8⟩]⟩ body ⟨.serial, ⟨10⟩⟩ .still
    let acts := [loop fun _ => some (.literal "boom"), loop fun _ => none]
    let config := { Config.default with warmupSamples := 0 }
    ∃ r, Region.create (.named "saxpy") [.sequential, .threaded 1] MeanTime.empty config = .ok r ∧
      config.warmupSamples = 0 ∧ InBucket (Features.ofSpace ⟨[⟨0, 8⟩]⟩).bucket acts ∧
      ((Session.mk r .empty).counted acts).map (·.picked?) = [some 0, some 0] ∧
      ((Session.mk r .empty).counted acts).map (·.picked?) ≠ (List.range 2).map some := by
  intro loop acts config
  obtain ⟨r, hr⟩ : ∃ r, Region.create (.named "saxpy") [.sequential, .threaded 1] MeanTime.empty config = .ok r :=
    ⟨_, rfl⟩
  have hbucket : InBucket (Features.ofSpace ⟨[⟨0, 8⟩]⟩).bucket acts := by simp [InBucket, acts, loop, Act.space?]
  have hpicks : ((Session.mk r .empty).counted acts).map (·.picked?) = [some 0, some 0] := by
    cases hr
    decide +kernel
  refine ⟨r, hr, rfl, hbucket, hpicks, ?_⟩
  rw [hpicks]
  decide

end Session

end AdaptiveLoops
