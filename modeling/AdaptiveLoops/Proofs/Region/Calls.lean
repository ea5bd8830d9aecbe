/-
Calls on a region, with what the stream does meanwhile.

The stream goes on during a call (`Meanwhile`), and what a poll sees complete
is complete from then on.

Once an invocation has taken its number it can come to six ends
(`Region.Ends`), and `Region.proceed_ends` says for each what is reported,
what is left in flight and what the region is afterwards (`Region.Moves`).
-/
import AdaptiveLoops.Proofs.Region.Issue
import AdaptiveLoops.Proofs.Region.Reports

namespace AdaptiveLoops

open Device (Stream LaunchId Outcome)

namespace Polling

variable {p : Polling} {s : Stream} {id : LaunchId} {o : Outcome}

theorem outcome?_of_seen (h : p.seen s id = some o) : (p.after s).outcome? id = some o := by
  have hrest := Stream.outcome?_run (p.events.drop (p.looked id)) h
  rwa [← Stream.run_append, List.take_append_drop] at hrest

theorem seen_of_outcome? (h : s.outcome? id = some o) : p.seen s id = some o :=
  Stream.outcome?_run _ h

theorem reaches_after (p : Polling) (s : Stream) : s.Reaches (p.after s) :=
  Stream.reaches_run s p.events

end Polling

namespace Meanwhile

theorem reaches_atChoice (m : Meanwhile) (s : Stream) : (m.polling.after s).Reaches (m.atChoice s) :=
  Stream.reaches_run _ m.choosing

theorem reaches_atLaunch (m : Meanwhile) (s : Stream) : (m.atChoice s).Reaches (m.atLaunch s) :=
  Stream.reaches_run _ m.issuing

end Meanwhile

namespace Region

variable {α : Type} [Model α]

/-! ## Calls -/

/-- The part of an invocation after the poll, with the stream as it is found twice. -/
def proceed (r : Region α) (chosen issued : Stream) (plugins : List Plugin) (space : IterationSpace)
    (body : Body) (now : Moment) : Reply α :=
  match r.pick chosen space with
  | (r, .error e) => ⟨r, chosen, [], none, .error e⟩
  | (r, .ok choice) => r.launch issued plugins choice space body now

/-- An invocation polls and then proceeds, unless a launch that it collects has failed. -/
theorem invokeDuring_eq (r : Region α) (stream : Stream) (meanwhile : Meanwhile) (plugins : List Plugin)
    (space : IterationSpace) (body : Body) (now : Moment) :
    r.invokeDuring stream meanwhile plugins space body now =
      match r.drainSeeing (meanwhile.polling.seen stream) with
      | (r, .error e) => ⟨r, meanwhile.polling.after stream, [], none, .error e⟩
      | (r, .ok _) => r.proceed (meanwhile.atChoice stream) (meanwhile.atLaunch stream) plugins space body now := by
  unfold invokeDuring chooseDuring
  rcases r.drainSeeing (meanwhile.polling.seen stream) with ⟨r, e | n⟩
  · rfl
  · simp only [proceed]
    rcases r.pick (meanwhile.atChoice stream) space with ⟨r, e | choice⟩ <;> rfl

/-! ## Reports of a call -/

/-- What an issued loop is reported as at once. -/
def reportsAt (context : Context) : Except LoopError Issued → List Report
  | .ok (.finished elapsed) => [⟨context, some elapsed⟩]
  | .ok (.pending _ _) => []
  | .error e => if e.isPoolExhausted then [] else [⟨context, none⟩]

/-- What an invocation reports after the poll. -/
def reportsOf (r : Region α) (chosen issued : Stream) (space : IterationSpace) (body : Body)
    (now : Moment) : List Report :=
  match r.pick chosen space with
  | (_, .error _) => []
  | (r, .ok choice) =>
    reportsAt choice.context (r.issue choice.variant issued choice.context.candidate space body now).result

/-! ## What a call does to a region -/

/-- From `r` to `r'` there are these reports and `counted` new invocations, and `armed` is left in flight. -/
structure Moves (r r' : Region α) (reports : List Report) (armed : List Armed) (counted : Nat) : Prop where
  policies : r'.policies = r.policies
  variants : r'.variants.length = r.variants.length
  stats : r'.stats = reports.foldl tally r.stats
  model : Model.Told r.model reports r'.model
  pool : r'.pool.Valid
  unreserved : .reserved ∉ r'.pool.slots
  armed : r'.pool.armed.Perm armed
  invocations : r'.invocations = r.invocations + counted

variable {r r' r'' : Region α}

theorem Moves.trans {reports reports' : List Report} {armed left : List Armed} {counted counted' : Nat}
    (h : Moves r r' reports armed counted) (h' : Moves r' r'' reports' (left ++ r'.pool.armed) counted') :
    Moves r r'' (reports ++ reports') (left ++ armed) (counted + counted') where
  policies := h'.policies.trans h.policies
  variants := h'.variants.trans h.variants
  stats := by rw [h'.stats, h.stats, List.foldl_append]
  model := h.model.trans h'.model
  pool := h'.pool
  unreserved := h'.unreserved
  armed := h'.armed.trans (h.armed.append_left left)
  invocations := by rw [h'.invocations, h.invocations, Nat.add_assoc]

/-- **A poll reports what it sees complete and keeps the rest.** -/
theorem drainSeeing_moves (hpool : r.pool.Valid) (hun : .reserved ∉ r.pool.slots)
    (seen : LaunchId → Option Outcome) :
    Moves r (r.drainSeeing seen).1 (r.pool.armed.filterMap (Armed.report? seen))
      (r.pool.armed.filter (Armed.isUnseen seen)) 0 := by
  have hdone : (r.pool.poll seen).1.map (·.report) = r.pool.armed.filterMap (Armed.report? seen) :=
    Pool.map_listed seen (fun context o => Report.mk context o.elapsed?) r.pool.slots 0
  rw [← hdone, ← Pool.armed_poll]
  simp only [drainSeeing, foldl_account_eq_tell]
  exact {
    policies := rfl
    variants := rfl
    stats := rfl
    model := Model.told_foldl _ _
    pool := hpool.poll seen
    unreserved := fun h => hun (Pool.mem_of_mem_poll seen Slot.noConfusion h)
    armed := .refl _
    invocations := rfl }

theorem isOfPool_of_collectedResult {done : List Collected} {e : LoopError}
    (h : collectedResult done = .error e) : e.isOfPool = false := by
  unfold collectedResult at h
  split at h
  · cases h
  · cases h
    rfl

/-! ## What an invocation comes to -/

/-- A context for the next invocation of a region: its number, and the candidate that is picked for it. -/
structure Fresh (r : Region α) (features : Features) (context : Context) : Prop where
  invocation : context.invocation = r.invocations
  pick : context.candidate = (r.select features r.invocations).1
  features : context.features = features
  policy : r.policies[context.candidate]? = some context.policy

/-- A candidate can be put into use, or is in use. On a closed stream the former is refused to a device. -/
def Available (r : Region α) (chosen : Stream) (candidate : Nat) (policy : Policy) : Prop :=
  policy.isDevice = true → chosen.closed = true → r.variant? candidate ≠ none

/--
What an invocation can come to once it takes a number: what it answers, reports and leaves in flight. The
stream is `chosen` where a candidate is put into use, `issued` before and `after` behind the launch.
-/
inductive Ends (r : Region α) (features : Features) (chosen issued after : Stream) :
    Except LoopError Dispatch → List Report → List Armed → Prop where
  | finished {context : Context} (hfresh : r.Fresh features context)
      (havailable : r.Available chosen context.candidate context.policy) (elapsed : Duration) :
    Ends r features chosen issued after
      (.ok ⟨context.invocation, context.candidate, context.policy, false⟩) [⟨context, some elapsed⟩] []
  | left {context : Context} (hfresh : r.Fresh features context)
      (havailable : r.Available chosen context.candidate context.policy) {launch : LaunchId}
      (hlaunch : ∃ work, issued.launch work = .ok (launch, after)) :
    Ends r features chosen issued after
      (.ok ⟨context.invocation, context.candidate, context.policy, true⟩) [] [⟨context, launch⟩]
  | failed {context : Context} (hfresh : r.Fresh features context)
      (havailable : r.Available chosen context.candidate context.policy) {e : LoopError}
      (he : e.isOfPool = false) :
    Ends r features chosen issued after (.error e) [⟨context, none⟩] []
  | exhausted {context : Context} (hfresh : r.Fresh features context)
      (havailable : r.Available chosen context.candidate context.policy) (site : CallSite) (capacity : Nat) :
    Ends r features chosen issued after (.error (.poolExhausted site capacity)) [] []
  | unavailable {context : Context} (hfresh : r.Fresh features context)
      (hunavailable : ¬ r.Available chosen context.candidate context.policy) :
    Ends r features chosen issued after (.error .streamClosed) [] []
  | outOfRange {candidate : Nat} (hpick : candidate = (r.select features r.invocations).1)
      (hnone : r.policies[candidate]? = none) :
    Ends r features chosen issued after (.error (.pickOutOfRange r.site candidate r.policies.length)) [] []

variable {features : Features} {chosen issued after : Stream} {space : IterationSpace}

omit [Model α] in
/-- Putting a candidate into use touches the variants alone, and is refused only for a closed stream. -/
theorem instantiate_cases (r : Region α) (candidate : Nat) (policy : Policy) (stream : Stream) :
    (r.Available stream candidate policy ∧ ∃ v variants,
      r.instantiate candidate policy stream = .ok ({ r with variants }, v) ∧
        variants.length = r.variants.length) ∨
    (¬ r.Available stream candidate policy ∧ r.instantiate candidate policy stream = .error .streamClosed) := by
  unfold Region.instantiate Region.Available
  split
  · next v hv =>
    rw [hv]
    exact .inl ⟨fun _ _ => Option.some_ne_none v, v, r.variants, rfl, rfl⟩
  · next hnone =>
    rw [hnone]
    unfold Variant.instantiate
    by_cases h : policy.isDevice = true ∧ stream.closed = true
    · rw [if_pos h]
      exact .inr ⟨fun havailable => havailable h.1 h.2 rfl, rfl⟩
    · rw [if_neg h]
      exact .inl ⟨fun hdevice hclosed => absurd ⟨hdevice, hclosed⟩ h, _, _, rfl, List.length_set⟩

theorem select_invocations (r : Region α) (features : Features) (invocations invocation : Nat) :
    ({ r with invocations }.select features invocation).1 = (r.select features invocation).1 := by
  have hwarm : ({ r with invocations } : Region α).isWarmingUp = r.isWarmingUp := rfl
  simp only [select, hwarm]
  cases r.isWarmingUp <;> rfl

/-- What a pick can come to. -/
inductive Picks (r : Region α) (features : Features) (chosen : Stream) :
    Region α × Except LoopError Choice → Prop where
  | outOfRange {r' : Region α} {candidate : Nat} (hmoves : Moves r r' [] r.pool.armed 1)
      (hpick : candidate = (r.select features r.invocations).1) (hnone : r.policies[candidate]? = none) :
    Picks r features chosen (r', .error (.pickOutOfRange r.site candidate r.policies.length))
  | unavailable {r' : Region α} {context : Context} (hmoves : Moves r r' [] r.pool.armed 1)
      (hfresh : r.Fresh features context)
      (hunavailable : ¬ r.Available chosen context.candidate context.policy) :
    Picks r features chosen (r', .error .streamClosed)
  | picked {r' : Region α} {context : Context} {v : Variant} (hmoves : Moves r r' [] r.pool.armed 1)
      (hfresh : r.Fresh features context)
      (havailable : r.Available chosen context.candidate context.policy) :
    Picks r features chosen (r', .ok ⟨context, v⟩)

theorem pick_cases (hpool : r.pool.Valid) (hun : .reserved ∉ r.pool.slots) (chosen : Stream)
    (space : IterationSpace) : Picks r (Features.ofSpace space) chosen (r.pick chosen space) := by
  obtain ⟨candidate, model, hselect, htold⟩ : ∃ candidate model,
      { r with invocations := r.invocations + 1 }.select (Features.ofSpace space) r.invocations =
        (candidate, { r with invocations := r.invocations + 1, model }) ∧ Model.Told r.model [] model := by
    unfold select
    split
    · exact ⟨_, _, rfl, .refl⟩
    · exact ⟨_, _, rfl, .asked .refl _ _⟩
  have hpick : candidate = (r.select (Features.ofSpace space) r.invocations).1 := by
    have h := congrArg Prod.fst hselect
    rwa [select_invocations, eq_comm] at h
  have hmoves : ∀ variants : List (Option Variant), variants.length = r.variants.length →
      Moves r { r with invocations := r.invocations + 1, model, variants } [] r.pool.armed 1 := by
    intro variants hvariants
    exact {
      policies := rfl
      variants := hvariants
      stats := rfl
      model := htold
      pool := hpool
      unreserved := hun
      armed := .refl _
      invocations := rfl }
  simp only [pick, hselect]
  split
  · next hnone => exact .outOfRange (hmoves _ rfl) hpick hnone
  · next policy hpolicy =>
    have hfresh : r.Fresh (Features.ofSpace space) ⟨r.invocations, Features.ofSpace space, candidate, policy⟩ :=
      ⟨rfl, hpick, rfl, hpolicy⟩
    rcases instantiate_cases { r with invocations := r.invocations + 1, model } candidate policy chosen with
      ⟨havailable, v, variants, heq, hlength⟩ | ⟨hunavailable, heq⟩
    · rw [heq]
      exact .picked (hmoves variants hlength) hfresh havailable
    · rw [heq]
      exact .unavailable (hmoves _ rfl) hfresh hunavailable

theorem Moves.tell (hpool : r.pool.Valid) (hun : .reserved ∉ r.pool.slots) (candidate : Nat) (v : Variant)
    (report : Report) : Moves r ((r.setVariant candidate v).tell report) [report] ([] ++ r.pool.armed) 0 where
  policies := rfl
  variants := List.length_set
  stats := rfl
  model := .told .refl report
  pool := hpool
  unreserved := hun
  armed := .refl _
  invocations := rfl

theorem conclude_acquired (hpool : r.pool.Valid) {slot : Nat} {pool : Pool} (hp : r.pool.acquire = .ok (slot, pool))
    (context : Context) (v : Variant) (launch : LaunchId) :
    ∃ armed, ({ r with pool }.setVariant context.candidate v).conclude context (.pending slot launch) =
        .ok { { r with pool }.setVariant context.candidate v with pool := armed } ∧
      armed.Valid ∧ armed.slots = r.pool.slots.set slot (.inFlight context launch) := by
  obtain ⟨armed, harm, hvalid, hslots⟩ := hpool.arm_acquired hp context launch
  exact ⟨armed, congrArg (Except.map _) harm, hvalid, hslots⟩

/-- **What a launch can come to**, for a candidate that was picked for the next invocation of `r₀`. -/
theorem launch_ends {r₀ : Region α} {context : Context} (hfresh : r₀.Fresh features context)
    (havailable : r₀.Available chosen context.candidate context.policy) (hpool : r.pool.Valid)
    (hun : .reserved ∉ r.pool.slots) (v : Variant) (issued : Stream) (plugins : List Plugin)
    (space : IterationSpace) (body : Body) (now : Moment) :
    ∃ left,
      Ends r₀ features chosen issued (r.launch issued plugins ⟨context, v⟩ space body now).stream
        (r.launch issued plugins ⟨context, v⟩ space body now).result
        (reportsAt context (r.issue v issued context.candidate space body now).result) left ∧
      Moves r (r.launch issued plugins ⟨context, v⟩ space body now).region
        (reportsAt context (r.issue v issued context.candidate space body now).result)
        (left ++ r.pool.armed) 0 ∧
      issued.Reaches (r.launch issued plugins ⟨context, v⟩ space body now).stream := by
  have hissue : Issues r issued v context.candidate (v.policy.Suits space)
      (r.issue v issued context.candidate space body now) := issue_cases hpool space body now
  simp only [Region.launch]
  generalize r.issue v issued context.candidate space body now = i at hissue ⊢
  cases hissue with
  | refused hasync hfull hfail =>
    refine ⟨[], .exhausted hfresh havailable _ _, ?_, .refl issued⟩
    exact {
      policies := rfl
      variants := rfl
      stats := rfl
      model := .refl
      pool := hpool
      unreserved := hun
      armed := .refl _
      invocations := rfl }
  | @finished v' after work elapsed _ hreaches =>
    exact ⟨[], .finished hfresh havailable elapsed,
      .tell hpool hun context.candidate v' ⟨context, some elapsed⟩, hreaches⟩
  | @failed v' after work e _ he hreaches =>
    have hnot := LoopError.isPoolExhausted_of_isOfPool he
    simp only [reportsAt, failUnlessExhausted, hnot, Bool.false_eq_true, if_false]
    exact ⟨[], .failed hfresh havailable he, .tell hpool hun context.candidate v' ⟨context, none⟩, hreaches⟩
  | @left v' after work slot pool launch _ hp hlaunch =>
    obtain ⟨armed, hconclude, hvalid, hslots⟩ := conclude_acquired hpool hp context v' launch
    simp only [hconclude, reportsAt]
    obtain ⟨w, hw⟩ := hlaunch
    refine ⟨[⟨context, launch⟩], .left hfresh havailable ⟨w, hw⟩, ?_, Stream.reaches_launch hw⟩
    exact {
      policies := rfl
      variants := List.length_set
      stats := rfl
      model := .refl
      pool := hvalid
      unreserved := by
        simp only [hslots]
        intro hmem
        rcases List.mem_or_eq_of_mem_set hmem with hmem | heq
        · exact hun hmem
        · cases heq
      armed := by
        have hperm := Pool.filterMap_armed?_set (hpool.acquired hp).1 context launch
        simp only [Pool.armed, hslots]
        exact hperm
      invocations := rfl }

/-- **What an invocation does after its poll**: it comes to one of its ends, and the region moves with it. -/
theorem proceed_ends (hpool : r.pool.Valid) (hun : .reserved ∉ r.pool.slots) (hreach : chosen.Reaches issued)
    (plugins : List Plugin) (space : IterationSpace) (body : Body) (now : Moment) :
    ∃ left,
      Ends r (Features.ofSpace space) chosen issued (r.proceed chosen issued plugins space body now).stream
        (r.proceed chosen issued plugins space body now).result
        (r.reportsOf chosen issued space body now) left ∧
      Moves r (r.proceed chosen issued plugins space body now).region
        (r.reportsOf chosen issued space body now) (left ++ r.pool.armed) 1 ∧
      chosen.Reaches (r.proceed chosen issued plugins space body now).stream := by
  have hpicks := pick_cases hpool hun chosen space
  simp only [proceed, reportsOf]
  generalize r.pick chosen space = p at hpicks ⊢
  cases hpicks with
  | outOfRange hmoves hpick hnone => exact ⟨[], .outOfRange hpick hnone, hmoves, .refl chosen⟩
  | unavailable hmoves hfresh hunavailable =>
    exact ⟨[], .unavailable hfresh hunavailable, hmoves, .refl chosen⟩
  | @picked r' context v hmoves hfresh havailable =>
    obtain ⟨left, hends, hlaunch, hissued⟩ := launch_ends hfresh havailable hmoves.pool hmoves.unreserved v
      issued plugins space body now
    exact ⟨left, hends, hmoves.trans hlaunch, hreach.trans hissued⟩

end Region

end AdaptiveLoops
