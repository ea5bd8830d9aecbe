/-
Invocations that find every slot held.

An invocation takes a slot only for an asynchronous candidate that is in use
(`Region.WantsSlot`), and there is none exactly where each slot holds a
launch (`Pool.Valid.full_iff`). Then it is refused, and leaves everything
as its poll did but for its number and its pick (`Region.Refuses`), or it
runs its loop to the end in the call (`Region.RunsInCall`).
-/
import AdaptiveLoops.Proofs.Region.Drain
import AdaptiveLoops.Proofs.Region.Ledger
import AdaptiveLoops.Proofs.Region.Setup

namespace AdaptiveLoops

open Device (Stream LaunchId Outcome)

/-! ## Full pools -/

/-- Every slot holds a launch. -/
def Pool.Full (p : Pool) : Prop := ∀ s ∈ p.slots, s.armed?.isSome = true

/-- **A pool is full where none of its slots is free.** -/
theorem Pool.Valid.full_iff {p : Pool} (h : p.Valid) (hun : .reserved ∉ p.slots) : p.Full ↔ p.free = [] := by
  constructor
  · intro hfull
    refine List.eq_nil_iff_forall_not_mem.2 fun slot hslot => ?_
    cases hfull .free (List.mem_of_getElem? ((h.mem_free slot).1 hslot))
  · intro hnone s hs
    cases s with
    | free =>
      obtain ⟨slot, hslot⟩ := List.mem_iff_getElem?.1 hs
      have hmem := (h.mem_free slot).2 hslot
      rw [hnone] at hmem
      cases hmem
    | reserved => exact absurd hs hun
    | inFlight context launch => rfl

theorem Pool.not_full_of_armed_eq_nil {p : Pool} (hnone : p.armed = []) (hcapacity : 0 < p.capacity) : ¬ p.Full := by
  intro hfull
  obtain ⟨s, hs⟩ := List.exists_mem_of_length_pos hcapacity
  obtain ⟨a, ha⟩ := Option.isSome_iff_exists.1 (hfull s hs)
  have hmem : a ∈ p.armed := List.mem_filterMap.2 ⟨s, hs, ha⟩
  rw [hnone] at hmem
  cases hmem

/-! ## Synchronous launches -/

namespace Statement

/-- An asynchronous policy has a kernel at the root of its tree, and its synchronous form has one too. -/
theorem build_synchronous {policy : Policy} (hasync : policy.isAsync = true) {space : IterationSpace}
    {tree : Statement} (h : build space policy.synchronous = .ok tree) :
    ∃ block, policy.synchronous = .device block .sync ∧ tree = .kernel (.device block .sync) tree.children := by
  cases policy with
  | sequential => cases hasync
  | threaded minChunk => cases hasync
  | device block mode =>
    unfold build at h
    split at h
    · cases h
    · cases h
      exact ⟨block, rfl, rfl⟩

/-- What issuing a loop under a synchronous device policy comes to. -/
inductive DispatchesSync (issued : Stream) (policy : Policy) (space : IterationSpace) (body : Body)
    (now : Moment) : Execution → Prop where
  | untreed {e : LoopError} (hbuild : build space policy = .error e) :
    DispatchesSync issued policy space body now ⟨issued, none, .error e⟩
  | closed {tree : Statement} (hbuild : build space policy = .ok tree) (hclosed : issued.closed = true) :
    DispatchesSync issued policy space body now ⟨issued, none, .error .streamClosed⟩
  | ran {tree : Statement} (hbuild : build space policy = .ok tree) {launch : LaunchId} {queued : Stream}
      (hlaunch : issued.launch (kernelWork tree.children space body now) = .ok (launch, queued)) :
    DispatchesSync issued policy space body now
      ⟨queued.wait launch, some (kernelWork tree.children space body now),
        (settled (.ofWork (kernelWork tree.children space body now))).map .complete⟩

theorem dispatch_synchronous {policy : Policy} (hasync : policy.isAsync = true) (issued : Stream)
    (space : IterationSpace) (body : Body) (now : Moment) :
    DispatchesSync issued policy.synchronous space body now
      (dispatch issued policy.synchronous space body now) := by
  unfold dispatch
  split
  · next hbuild => exact .untreed hbuild
  · next tree hbuild =>
    obtain ⟨block, hpolicy, htree⟩ := build_synchronous hasync hbuild
    rw [htree, hpolicy] at hbuild ⊢
    simp only [execute, launchKernel]
    split
    · next e hlaunch =>
      obtain ⟨hclosed, rfl⟩ := Device.Stream.launch_eq_error.1 hlaunch
      exact .closed hbuild hclosed
    · next launch queued hlaunch => exact .ran hbuild hlaunch

end Statement

namespace Region

variable {α : Type} [Model α] {r : Region α} {context : Context} {chosen issued : Stream}
  {space : IterationSpace} {body : Body} {now : Moment}

/-- The next invocation is for an asynchronous candidate that can be put into use. -/
structure WantsSlot (r : Region α) (features : Features) (chosen : Stream) (context : Context) : Prop where
  fresh : r.Fresh features context
  available : r.Available chosen context.candidate context.policy
  isAsync : context.policy.isAsync = true

/--
An invocation that is refused for want of a slot. It has used up its number, the model may have been asked
for the pick, and the candidate may have been put into use.
-/
structure Refuses (r : Region α) (context : Context) (issued : Stream) (reply : Reply α) : Prop where
  result : reply.result = .error (.poolExhausted r.pool.site r.pool.capacity)
  work : reply.work = none
  stream : reply.stream = issued
  pool : reply.region.pool = r.pool
  stats : reply.region.stats = r.stats
  model : reply.region.model = r.model ∨
    reply.region.model = (Model.select r.model context.features (r.pool.pendingByCandidate r.policies.length)).2
  variants : r.Admits context.candidate context.policy reply.region.variants
  invocations : reply.region.invocations = r.invocations + 1

/-- How a loop comes to its end in the call: the stream behind it, its work, the answer, and what is reported. -/
inductive EndsInCall (context : Context) (issued : Stream) (space : IterationSpace) (body : Body)
    (now : Moment) : Stream → Option Work → Except LoopError Dispatch → Option Duration → Prop where
  | untreed {e : LoopError} (hbuild : Statement.build space context.policy.synchronous = .error e) :
    EndsInCall context issued space body now issued none (.error e) none
  | closed (hclosed : issued.closed = true) :
    EndsInCall context issued space body now issued none (.error .streamClosed) none
  | ran {tree : Statement} (hbuild : Statement.build space context.policy.synchronous = .ok tree) {work : Work}
      (hwork : work = Statement.kernelWork tree.children space body now) {launch : LaunchId} {queued : Stream}
      (hlaunch : issued.launch work = .ok (launch, queued))
      (hdone : (queued.wait launch).outcome? launch = some (.ofWork work)) :
    EndsInCall context issued space body now (queued.wait launch) (some work)
      ((Statement.settled (.ofWork work)).map fun _ =>
        ⟨context.invocation, context.candidate, context.policy, false⟩)
      (Outcome.ofWork work).elapsed?

/-- An invocation that takes no slot, and is reported before it answers. -/
structure RunsInCall (r : Region α) (context : Context) (issued : Stream) (space : IterationSpace) (body : Body)
    (now : Moment) (reply : Reply α) : Prop where
  pool : reply.region.pool = r.pool
  invocations : reply.region.invocations = r.invocations + 1
  reported : ∃ elapsed?, EndsInCall context issued space body now reply.stream reply.work reply.result elapsed? ∧
    reply.region.stats = tally r.stats ⟨context, elapsed?⟩ ∧ r.Counts reply.region [⟨context, elapsed?⟩] ∧
      Model.Told r.model [⟨context, elapsed?⟩] reply.region.model

/-! ## Issuing -/

omit [Model α] in
/-- **A loop is refused for want of a slot** where it wants one, none is free, and the region says so. -/
theorem isPoolExhausted_issue (hpool : r.pool.Valid) (v : Variant) (issued : Stream) (candidate : Nat)
    (space : IterationSpace) (body : Body) (now : Moment) :
    (∃ e, (r.issue v issued candidate space body now).result = .error e ∧ e.isPoolExhausted = true) ↔
      v.policy.isAsync = true ∧ r.pool.free = [] ∧ r.onExhausted = .fail := by
  constructor
  · rintro ⟨e, he, hexhausted⟩
    have hissue : Issues r issued v candidate (v.policy.Suits space)
        (r.issue v issued candidate space body now) := issue_cases hpool space body now
    generalize r.issue v issued candidate space body now = i at hissue he
    cases hissue with
    | refused hasync hfull hfail => exact ⟨hasync, hfull, hfail⟩
    | finished _ _ => cases he
    | left _ _ _ => cases he
    | failed _ hof _ =>
      cases he
      rw [LoopError.isPoolExhausted_of_isOfPool hof] at hexhausted
      cases hexhausted
  · rintro ⟨hasync, hfull, hfail⟩
    refine ⟨.poolExhausted r.pool.site r.pool.capacity, ?_, rfl⟩
    simp [issue, hasync, Pool.acquire, hfull, hfail]

section
variable {v : Variant} {candidate : Nat}

omit [Model α] in
theorem issue_refused (hasync : v.policy.isAsync = true) (hfull : r.pool.free = [])
    (hfail : r.onExhausted = .fail) :
    r.issue v issued candidate space body now =
      ⟨r, issued, none, .error (.poolExhausted r.pool.site r.pool.capacity)⟩ := by
  simp [issue, hasync, Pool.acquire, hfull, hfail]

omit [Model α] in
theorem issue_synchronous (r : Region α) (hasync : v.policy.isAsync = true) (hfull : r.pool.free = [])
    (hsync : r.onExhausted = .synchronous) :
    r.issue v issued candidate space body now =
      (r.setVariant candidate (v.issue v.policy.synchronous issued space body now).1).settle
        (v.issue v.policy.synchronous issued space body now).2 := by
  simp [issue, hasync, Pool.acquire, hfull, hsync, Variant.launchSynchronously]

end

/-! ## Launching -/

theorem isPoolExhausted_conclude {issued : Issued} {e : LoopError} (h : r.conclude context issued = .error e) :
    e.isPoolExhausted = false := by
  cases issued with
  | finished elapsed => cases h
  | pending slot launch =>
    simp only [conclude, Pool.arm] at h
    split at h
    · cases h
    · cases h
      rfl

theorem isPoolExhausted_launch (hpool : r.pool.Valid) (v : Variant) (plugins : List Plugin) :
    (∃ e, (r.launch issued plugins ⟨context, v⟩ space body now).result = .error e ∧ e.isPoolExhausted = true) ↔
      v.policy.isAsync = true ∧ r.pool.free = [] ∧ r.onExhausted = .fail := by
  rw [← isPoolExhausted_issue hpool v issued context.candidate space body now]
  simp only [Region.launch]
  split
  · next e he => simp [he]
  · next issued hok =>
    rw [hok]
    refine iff_of_false ?_ (by simp)
    split
    · next e he =>
      rintro ⟨_, ⟨⟩, hexhausted⟩
      rw [isPoolExhausted_conclude he] at hexhausted
      cases hexhausted
    · simp

theorem launch_refused (r : Region α) {v : Variant} (hasync : v.policy.isAsync = true) (hfull : r.pool.free = [])
    (hfail : r.onExhausted = .fail) (plugins : List Plugin) :
    r.launch issued plugins ⟨context, v⟩ space body now =
      ⟨r, issued, r.watch issued plugins .preLaunch r.site context false, none,
        .error (.poolExhausted r.pool.site r.pool.capacity)⟩ := by
  simp only [Region.launch, issue_refused hasync hfull hfail, failUnlessExhausted, LoopError.isPoolExhausted, if_true]

/-! ## Invoking -/

theorem Fresh.unique {features : Features} {context' : Context} (h : r.Fresh features context)
    (h' : r.Fresh features context') : context = context' := by
  obtain ⟨invocation, _, candidate, policy⟩ := context
  obtain ⟨invocation', _, candidate', policy'⟩ := context'
  obtain ⟨hinvocation, hpick, hfeatures, hpolicy⟩ := h
  obtain ⟨hinvocation', hpick', hfeatures', hpolicy'⟩ := h'
  simp only at *
  subst hinvocation hinvocation' hpick hpick' hfeatures hfeatures'
  rw [hpolicy', Option.some.injEq] at hpolicy
  rw [hpolicy]

/-- **An invocation is refused for want of a slot** where its candidate wants one and none is free. -/
theorem Equipped.isPoolExhausted_proceed (h : r.Equipped) (hpool : r.pool.Valid) (plugins : List Plugin) :
    (∃ e, (r.proceed chosen issued plugins space body now).result = .error e ∧ e.isPoolExhausted = true) ↔
      r.onExhausted = .fail ∧ (∃ context, r.WantsSlot (Features.ofSpace space) chosen context) ∧
        r.pool.free = [] := by
  have htakes := h.takes chosen space
  unfold Region.proceed
  generalize r.pick chosen space = p at htakes ⊢
  cases htakes with
  | nothing he hnone =>
    constructor
    · rintro ⟨_, ⟨⟩, hexhausted⟩
      rw [LoopError.isPoolExhausted_of_isOfPool he] at hexhausted
      cases hexhausted
    · rintro ⟨-, ⟨context, hwants⟩, -⟩
      exact absurd hwants.available (hnone context hwants.fresh)
  | @taken context v variants hfresh havailable hpolicy _ _ _ =>
    refine (isPoolExhausted_launch (r := { r.asked _ with variants }) hpool v plugins).trans ?_
    rw [hpolicy]
    constructor
    · rintro ⟨hasync, hfull, hfail⟩
      exact ⟨hfail, ⟨context, hfresh, havailable, hasync⟩, hfull⟩
    · rintro ⟨hfail, ⟨context', hwants⟩, hfull⟩
      exact ⟨hfresh.unique hwants.fresh ▸ hwants.isAsync, hfull, hfail⟩

theorem model_asked (r : Region α) (features : Features) :
    (r.asked features).model = r.model ∨
      (r.asked features).model = (Model.select r.model features (r.pool.pendingByCandidate r.policies.length)).2 := by
  simp only [asked, select]
  split
  · exact .inl rfl
  · exact .inr rfl

theorem told_asked (r : Region α) (features : Features) : Model.Told r.model [] (r.asked features).model := by
  rcases model_asked r features with heq | heq
  · rw [heq]
    exact .refl
  · rw [heq]
    exact .asked .refl _ _

/-- What an invocation does that wants a slot: it launches the variant of its candidate. -/
theorem Equipped.proceed_of_wantsSlot (h : r.Equipped) (hwants : r.WantsSlot (Features.ofSpace space) chosen context)
    (issued : Stream) (plugins : List Plugin) (body : Body) (now : Moment) :
    ∃ v variants, v.policy = context.policy ∧ v.Prepared ∧ r.Admits context.candidate context.policy variants ∧
      r.proceed chosen issued plugins space body now =
        { r.asked (Features.ofSpace space) with variants }.launch issued plugins ⟨context, v⟩ space body now := by
  have htakes := h.takes chosen space
  unfold Region.proceed
  generalize r.pick chosen space = p at htakes ⊢
  cases htakes with
  | nothing _ hnone => exact absurd hwants.available (hnone context hwants.fresh)
  | @taken context' v variants hfresh _ hpolicy hprepared _ hvariants =>
    cases hfresh.unique hwants.fresh
    exact ⟨v, variants, hpolicy, hprepared, hvariants, rfl⟩

/-- **A refused invocation changes nothing else.** -/
theorem Equipped.refuses (h : r.Equipped) (hwants : r.WantsSlot (Features.ofSpace space) chosen context)
    (hfull : r.pool.free = []) (hfail : r.onExhausted = .fail) (issued : Stream) (plugins : List Plugin)
    (body : Body) (now : Moment) :
    r.Refuses context issued (r.proceed chosen issued plugins space body now) := by
  obtain ⟨v, variants, hpolicy, -, hvariants, heq⟩ := h.proceed_of_wantsSlot hwants issued plugins body now
  have hasync : v.policy.isAsync = true := hpolicy ▸ hwants.isAsync
  rw [heq, launch_refused { r.asked (Features.ofSpace space) with variants } hasync hfull hfail plugins]
  exact {
    result := rfl
    work := rfl
    stream := rfl
    pool := rfl
    stats := rfl
    model := hwants.fresh.features ▸ model_asked r _
    variants := hvariants
    invocations := rfl }

/-- **An invocation that may not be refused ends in the call.** -/
theorem Equipped.runsInCall (h : r.Equipped) (hstats : r.stats.length = r.policies.length)
    (hwants : r.WantsSlot (Features.ofSpace space) chosen context)
    (hfull : r.pool.free = []) (hsync : r.onExhausted = .synchronous) {log : List Work}
    (hstream : issued.Accepted log) (plugins : List Plugin) (body : Body) (now : Moment) :
    r.RunsInCall context issued space body now (r.proceed chosen issued plugins space body now) := by
  obtain ⟨v, variants, hpolicy, hprepared, -, heq⟩ := h.proceed_of_wantsSlot hwants issued plugins body now
  have hasync : v.policy.isAsync = true := hpolicy ▸ hwants.isAsync
  have hdispatch := Statement.dispatch_synchronous hwants.isAsync issued space body now
  have htold := told_asked r (Features.ofSpace space)
  rw [heq]
  simp only [Region.launch, issue_synchronous { r.asked (Features.ofSpace space) with variants } hasync hfull hsync,
    hprepared.issue_eq, hpolicy]
  generalize Statement.dispatch issued context.policy.synchronous space body now = e at hdispatch ⊢
  cases hdispatch with
  | untreed hbuild =>
    have hnot := LoopError.isPoolExhausted_of_isOfPool (Statement.isOfPool_of_build hbuild)
    simp only [settle, failUnlessExhausted, hnot, Bool.false_eq_true, if_false]
    exact ⟨rfl, rfl, none, .untreed hbuild, rfl, counts_of_tally hstats rfl, htold.told ⟨context, none⟩⟩
  | closed _ hclosed =>
    exact ⟨rfl, rfl, none, .closed hclosed, rfl, counts_of_tally hstats rfl, htold.told ⟨context, none⟩⟩
  | @ran tree hbuild launch queued hlaunch =>
    have hdone := hstream.outcome?_wait hlaunch
    have hends : EndsInCall context issued space body now _ _ _ _ := .ran hbuild rfl hlaunch hdone
    generalize Statement.kernelWork tree.children space body now = work at hends ⊢
    cases hwork : Outcome.ofWork work with
    | completed elapsed =>
      rw [hwork] at hends
      exact ⟨rfl, rfl, some elapsed, hends, rfl, counts_of_tally hstats rfl, htold.told ⟨context, some elapsed⟩⟩
    | failed message =>
      rw [hwork] at hends
      exact ⟨rfl, rfl, none, hends, rfl, counts_of_tally hstats rfl, htold.told ⟨context, none⟩⟩

end Region

/-! ## Turns -/

namespace Session

variable {α : Type} [Model α]

theorem Turn.isExhausted_iff {t : Turn α} {result : Except LoopError Dispatch} (h : t.answer? = some result) :
    t.isExhausted = true ↔ ∃ e, result = .error e ∧ e.isPoolExhausted = true := by
  cases result with
  | ok d => simp [isExhausted_of_ok h]
  | error e => simp [isExhausted_of_error h]

/-- **No invocation finds the pool exhausted once all is complete**, where the pool has a slot at all. -/
theorem Turn.isExhausted_of_complete {site : CallSite} {config : Config} {t : Turn α}
    (h : t.before.WellFormed site config) (hcapacity : 0 < config.poolCapacity.toNat)
    (hcomplete : ∀ a ∈ t.before.region.pool.armed, t.before.stream.isComplete a.launch = true) :
    t.isExhausted = false := by
  obtain ⟨s, act⟩ := t
  cases act with
  | drain polling => rfl
  | stream e => rfl
  | invoke plugins space body now meanwhile =>
    let t : Turn α := ⟨s, .invoke plugins space body now meanwhile⟩
    have hpolled : WellFormed site config ⟨t.polled, t.atLaunch⟩ := wellFormed_atLaunch (t := t) h rfl
    have hall : ∀ a ∈ s.region.pool.armed, (t.seen a.launch).isSome = true := by
      intro a ha
      obtain ⟨o, ho⟩ := Option.isSome_iff_exists.1 (hcomplete a ha)
      rw [show t.seen a.launch = some o from Polling.seen_of_outcome? ho]
      rfl
    have hnone : t.polled.pool.armed = [] :=
      Region.armed_drainSeeing_eq_nil h.sound.pool h.sound.unreserved hall
    refine Bool.eq_false_iff.2 fun hexhausted => ?_
    obtain ⟨e, hanswer, he⟩ := (isExhausted_iff (t := t) rfl).1 hexhausted
    obtain ⟨left, counted, hanswers, -⟩ := does (t := t) h.sound
    cases hanswers with
    | aside _ _ herror _ =>
      have hnot := LoopError.isPoolExhausted_of_isOfPool
        (herror e (error?_of_answer? (t := t) (congrArg some hanswer)))
      rw [he] at hnot
      cases hnot
    | numbered hpicked _ _ =>
      obtain ⟨n, hdrain⟩ := drainSeeing_of_picked? hpicked
      rw [invokeDuring_eq (t := t) rfl hdrain] at hanswer
      obtain ⟨-, -, hfree⟩ := (hpolled.equipped.isPoolExhausted_proceed hpolled.sound.pool plugins).1 ⟨e, hanswer, he⟩
      have hfull := (hpolled.sound.pool.full_iff hpolled.sound.unreserved).2 hfree
      exact Pool.not_full_of_armed_eq_nil hnone (hpolled.capacity ▸ hcapacity) hfull

/--
**Exhaustion is exact and harmless**, in every session with a new region, whatever the stream does between the
calls and during them.

Where the poll of an invocation succeeds, the invocation finds the pool exhausted if and only if the region
says that it is to fail, its candidate is asynchronous and can be put into use, and behind the poll each of
the slots holds a launch. Then it leaves the stream, the pool, the statistics and the launches of the
variants as its poll did; the model was asked at most, and the loop did not run.

A region that runs such a loop synchronously takes no slot for it and reports it in the call: the loop is
launched and waited for, unless there is no tree for it or the stream has been closed.
-/
theorem turns_exhaust {site : CallSite} {policies : List Policy} {model : α} {config : Config} {r : Region α}
    (hr : Region.create site policies model config = .ok r) (events : List Device.Event) {acts : List Act}
    {t : Turn α} (ht : t ∈ turns ⟨r, Stream.empty.run events⟩ acts) {plugins : List Plugin}
    {space : IterationSpace} {body : Body} {now : Moment} {meanwhile : Meanwhile}
    (hact : t.act = .invoke plugins space body now meanwhile)
    {collected : Nat} (hdrain : (t.before.region.drainSeeing t.seen).2 = .ok collected) :
    let reply := t.before.region.invokeDuring t.before.stream meanwhile plugins space body now
    t.answer? = some reply.result ∧ t.polled.pool.capacity = config.poolCapacity.toNat ∧
      (t.isExhausted = true ↔ config.onPoolExhausted = .fail ∧
        (∃ context, t.polled.WantsSlot t.features t.atChoice context) ∧ t.polled.pool.Full) ∧
      ∀ context, t.polled.WantsSlot t.features t.atChoice context → t.polled.pool.Full →
        (config.onPoolExhausted = .fail →
          t.polled.Refuses context t.atLaunch reply ∧
            reply.result = .error (.poolExhausted site config.poolCapacity.toNat)) ∧
        (config.onPoolExhausted = .synchronous →
          t.polled.RunsInCall context t.atLaunch space body now reply) := by
  have hnew : WellFormed site config ⟨r, Stream.empty.run events⟩ :=
    create_wellFormed hr ⟨_, Device.Stream.run_accepted events Device.Stream.empty_accepted⟩
  have hbefore : t.before.WellFormed site config := (forall_turns (fun _ => WellFormed.after) hnew t ht).1
  have h : WellFormed site config ⟨t.polled, t.atLaunch⟩ := Turn.wellFormed_atLaunch hbefore hact
  obtain ⟨log, hlog⟩ := h.accepted
  have hanswer : t.answer? = some (t.polled.proceed t.atChoice t.atLaunch plugins space body now).result := by
    simp only [Turn.answer?, hact, Turn.invokeDuring_eq hact hdrain]
  have hfeatures : t.features = Features.ofSpace space := by simp only [Turn.features, hact]
  rw [Turn.invokeDuring_eq hact hdrain, hfeatures, h.sound.pool.full_iff h.sound.unreserved, ← h.onExhausted,
    ← h.poolSite, ← h.capacity]
  refine ⟨hanswer, rfl, ?_, fun context hwants hnone => ⟨fun hfail => ?_, fun hsync => ?_⟩⟩
  · rw [Turn.isExhausted_iff hanswer]
    exact h.equipped.isPoolExhausted_proceed h.sound.pool plugins
  · have hrefuses := h.equipped.refuses hwants hnone hfail t.atLaunch plugins body now
    exact ⟨hrefuses, hrefuses.result⟩
  · exact h.equipped.runsInCall h.sound.stats hwants hnone hsync hlog plugins body now

/-- A loop that is queued in the only slot, and one that finds it held. -/
theorem turns_exhaust_queued :
    let loop : Act := .invoke [] ⟨[⟨0, 8⟩]⟩ (fun _ => none) ⟨.serial, ⟨10⟩⟩ .still
    let config : Config := { Config.default with poolCapacity := 1 }
    ∃ r, Region.create (.named "saxpy") [.device 4 .async] (Fixed.ofIndex 0) config = .ok r ∧
      ∃ first t, turns ⟨r, Stream.empty.run []⟩ [loop, loop] = [first, t] ∧ t.act = loop ∧
        (t.before.region.drainSeeing t.seen).2 = .ok 0 ∧ t.isExhausted = true ∧ t.polled.pool.Full ∧
          ∃ context, t.polled.WantsSlot t.features t.atChoice context := by
  intro loop config
  obtain ⟨r, hr⟩ : ∃ r, Region.create (.named "saxpy") [.device 4 .async] (Fixed.ofIndex 0) config = .ok r :=
    ⟨_, rfl⟩
  let first : Turn Fixed := ⟨⟨r, Stream.empty.run []⟩, loop⟩
  let t : Turn Fixed := ⟨first.after, loop⟩
  have hdrain : (t.before.region.drainSeeing t.seen).2 = .ok 0 := by
    cases hr
    decide +kernel
  have hexhausted : t.isExhausted = true := by
    cases hr
    decide +kernel
  have ht : t ∈ turns ⟨r, Stream.empty.run []⟩ [loop, loop] := .tail _ (.head _)
  have hact : t.act = .invoke [] ⟨[⟨0, 8⟩]⟩ (fun _ => none) ⟨.serial, ⟨10⟩⟩ .still := rfl
  obtain ⟨-, -, hiff, -⟩ := turns_exhaust hr [] ht hact hdrain
  obtain ⟨-, hwants, hfull⟩ := hiff.1 hexhausted
  exact ⟨r, hr, first, t, rfl, rfl, hdrain, hexhausted, hfull, hwants⟩

/-- A model that counts how often it is asked. -/
structure Asked where
  picks : Nat

instance : Model Asked where
  name _ := "asked"
  select m _ _ := (0, ⟨m.picks + 1⟩)
  observe m _ _ _ := m
  samples _ := 0

/-- On a stream that has been closed, a loop that finds no slot does not run, though the region is to run it
synchronously; and one that is refused for want of a slot may leave a model that is not what the poll left. -/
theorem exhausted_closed_or_asked :
    let loop : Act := .invoke [] ⟨[⟨0, 8⟩]⟩ (fun _ => none) ⟨.serial, ⟨10⟩⟩ .still
    let one : Config := { Config.default with poolCapacity := 1, warmupSamples := 0 }
    (∃ r, Region.create (.named "saxpy") [.device 4 .async] (Fixed.ofIndex 0)
        { one with onPoolExhausted := .synchronous } = .ok r ∧
      ∃ first closes t, turns ⟨r, .empty⟩ [loop, .stream .shutdown, loop] = [first, closes, t] ∧
        (t.before.region.drainSeeing t.seen).2 = .ok 0 ∧
        (∃ context, t.polled.WantsSlot t.features t.atChoice context) ∧ t.polled.pool.Full ∧
        t.answer? = some (.error .streamClosed) ∧ t.after.stream = t.before.stream) ∧
    ∃ r, Region.create (.named "saxpy") [.device 4 .async] (⟨0⟩ : Asked) one = .ok r ∧
      ∃ first t, turns ⟨r, .empty⟩ [loop, loop] = [first, t] ∧
        (t.before.region.drainSeeing t.seen).2 = .ok 0 ∧ t.isExhausted = true ∧
        t.polled.model.picks = 1 ∧ t.after.region.model.picks = 2 := by
  intro loop one
  constructor
  · obtain ⟨r, hr⟩ : ∃ r, Region.create (.named "saxpy") [.device 4 .async] (Fixed.ofIndex 0)
      { one with onPoolExhausted := .synchronous } = .ok r := ⟨_, rfl⟩
    let first : Turn Fixed := ⟨⟨r, .empty⟩, loop⟩
    let closes : Turn Fixed := ⟨first.after, .stream .shutdown⟩
    let t : Turn Fixed := ⟨closes.after, loop⟩
    have hpick : t.polled.invocations = 1 ∧ (t.polled.select t.features t.polled.invocations).1 = 0 ∧
        t.polled.policies[0]? = some (.device 4 .async) ∧ (t.polled.variant? 0).isSome = true := by
      cases hr
      decide +kernel
    obtain ⟨hinvocation, hcandidate, hpolicy, hused⟩ := hpick
    refine ⟨r, hr, first, closes, t, rfl, ?_, ⟨⟨1, t.features, 0, .device 4 .async⟩, ⟨hinvocation.symm,
      hcandidate.symm, rfl, hpolicy⟩, fun _ _ => Option.isSome_iff_ne_none.1 hused, rfl⟩, ?_⟩
    · cases hr
      decide +kernel
    · cases hr
      unfold Pool.Full
      decide +kernel
  · obtain ⟨r, hr⟩ : ∃ r, Region.create (.named "saxpy") [.device 4 .async] (⟨0⟩ : Asked) one = .ok r :=
      ⟨_, rfl⟩
    refine ⟨r, hr, _, _, rfl, ?_⟩
    cases hr
    decide +kernel

end Session

end AdaptiveLoops
