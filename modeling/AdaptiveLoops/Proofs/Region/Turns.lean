/-
Turns: what is seen, picked, answered and reported in the turns of a session.

A turn collects what it sees complete, and an invocation that gets that far
takes a number (`Turn.Answers`). What is in flight between two turns has
been numbered before, and no number twice (`Region.Sound`).
-/
import AdaptiveLoops.Proofs.Region.Calls
import AdaptiveLoops.Proofs.Region.Conservation

namespace AdaptiveLoops

open Device (Stream LaunchId Outcome)

variable {α : Type}

namespace Session.Turn

/-- A turn looks at the launches in flight, unless it is an event of the stream. -/
def polls (t : Turn α) : Bool :=
  match t.act with
  | .invoke _ _ _ _ _ => true
  | .drain _ => true
  | .stream _ => false

/-- The features of the loop that a turn invokes. -/
def features (t : Turn α) : Features :=
  match t.act with
  | .invoke _ space _ _ _ => Features.ofSpace space
  | _ => Features.ofSpace ⟨[]⟩

/-- The stream when an invocation puts its candidate into use. -/
def atChoice (t : Turn α) : Stream :=
  match t.act with
  | .invoke _ _ _ _ meanwhile => meanwhile.atChoice t.before.stream
  | _ => t.before.stream

/-- The stream when an invocation launches. -/
def atLaunch (t : Turn α) : Stream :=
  match t.act with
  | .invoke _ _ _ _ meanwhile => meanwhile.atLaunch t.before.stream
  | _ => t.before.stream

variable [Model α]

/-- What an invocation answers. -/
def answer? (t : Turn α) : Option (Except LoopError Dispatch) :=
  match t.act with
  | .invoke plugins space body now meanwhile =>
    some (t.before.region.invokeDuring t.before.stream meanwhile plugins space body now).result
  | _ => none

/-- The error that a call answers. -/
def error? (t : Turn α) : Option LoopError :=
  match t.answer?, t.act with
  | some (.error e), _ => some e
  | none, .drain _ =>
    match (t.before.region.drainSeeing t.seen).2 with
    | .error e => some e
    | .ok _ => none
  | _, _ => none

/-- The region after the turn's poll. -/
def polled (t : Turn α) : Region α :=
  (t.before.region.drainSeeing t.seen).1

/-- The candidate that is picked for an invocation which gets that far. -/
def picked? (t : Turn α) : Option Nat :=
  match t.act, t.before.region.drainSeeing t.seen with
  | .invoke _ _ _ _ _, (r, .ok _) => some (r.select t.features r.invocations).1
  | _, _ => none

/-- What an invocation reports of its own loop. -/
def own (t : Turn α) : List Report :=
  match t.act, t.before.region.drainSeeing t.seen with
  | .invoke _ space body now _, (r, .ok _) => r.reportsOf t.atChoice t.atLaunch space body now
  | _, _ => []

/-- What a turn reports: first what it collects, then its own loop. -/
def reports (t : Turn α) : List Report :=
  (t.before.region.pool.poll t.seen).1.map (·.report) ++ t.own

end Session.Turn

namespace Session

variable [Model α]

/-- The turns of a session in which these acts follow one another. -/
def turns (s : Session α) : List Act → List (Turn α)
  | [] => []
  | act :: acts => ⟨s, act⟩ :: turns (Turn.after ⟨s, act⟩) acts

end Session

/-! ## What is in flight between two turns -/

namespace Region

structure Sound (r : Region α) : Prop where
  pool : r.pool.Valid
  unreserved : .reserved ∉ r.pool.slots
  stats : r.stats.length = r.policies.length
  variants : r.variants.length = r.policies.length
  candidate : ∀ a ∈ r.pool.armed, a.context.candidate < r.policies.length
  invocation : ∀ a ∈ r.pool.armed, a.context.invocation < r.invocations
  distinct : (r.pool.armed.map (·.context.invocation)).Nodup

theorem slots_of_create {site : CallSite} {policies : List Policy} {model : α} {config : Config} {r : Region α}
    (h : create site policies model config = .ok r) : ∀ s ∈ r.pool.slots, s = .free := by
  obtain ⟨-, -, -, hpool, -, -⟩ := create_eq_ok h
  intro s hs
  rw [hpool] at hs
  exact (List.mem_replicate.1 hs).2

theorem armed_of_create {site : CallSite} {policies : List Policy} {model : α} {config : Config} {r : Region α}
    (h : create site policies model config = .ok r) : r.pool.armed = [] := by
  refine List.eq_nil_iff_forall_not_mem.2 fun a ha => ?_
  cases slots_of_create h _ (Pool.mem_armed.1 ha)

theorem create_sound {site : CallSite} {policies : List Policy} {model : α} {config : Config} {r : Region α}
    (h : create site policies model config = .ok r) : r.Sound := by
  obtain ⟨hpolicies, hvariants, hstats, hpool, -, -⟩ := create_eq_ok h
  have harmed := armed_of_create h
  exact {
    pool := hpool ▸ Pool.valid_ofCapacity ..
    unreserved := fun hs => nomatch slots_of_create h _ hs
    stats := by rw [hstats, hpolicies, List.length_map]
    variants := by rw [hvariants, hpolicies, List.length_map]
    candidate := by simp [harmed]
    invocation := by simp [harmed]
    distinct := by simp [harmed] }

theorem create_totals {site : CallSite} {policies : List Policy} {model : α} {config : Config} {r : Region α}
    (h : create site policies model config = .ok r) : r.totalSamples = 0 ∧ r.totalFailures = 0 := by
  obtain ⟨-, -, hstats, -, -, -⟩ := create_eq_ok h
  have hzero : ∀ policies : List Policy, (policies.map fun _ => 0).sum = 0 := fun policies => by simp
  rw [totalSamples_eq, totalFailures, hstats, List.map_map, List.map_map]
  exact ⟨hzero policies, hzero policies⟩

theorem create_policies {site : CallSite} {policies : List Policy} {model : α} {config : Config} {r : Region α}
    (h : create site policies model config = .ok r) : 0 < policies.length := by
  unfold create at h
  split at h
  · cases h
  · next hsome =>
    exact List.length_pos_iff.2 fun hnil => hsome (hnil ▸ rfl)

variable [Model α] {r r' : Region α} {reports : List Report} {left : List Armed} {counted : Nat}

/-- What was kept was sound before, and what is new in flight has the number that was taken. -/
theorem Sound.moves (h : r.Sound) {keep : Armed → Bool}
    (hmoves : Moves r r' reports (left ++ r.pool.armed.filter keep) counted)
    (hcandidate : ∀ a ∈ left, a.context.candidate < r.policies.length)
    (hinvocation : ∀ a ∈ left, a.context.invocation = r.invocations) (hlength : left.length ≤ counted)
    (hone : left.length ≤ 1) : r'.Sound := by
  have hmem : ∀ a ∈ r'.pool.armed, a ∈ left ∨ a ∈ r.pool.armed := by
    intro a ha
    rw [hmoves.armed.mem_iff, List.mem_append, List.mem_filter] at ha
    exact ha.imp_right And.left
  refine ⟨hmoves.pool, hmoves.unreserved, ?_, ?_, fun a ha => ?_, fun a ha => ?_, ?_⟩
  · rw [hmoves.stats, length_foldl_tally, h.stats, hmoves.policies]
  · rw [hmoves.variants, h.variants, hmoves.policies]
  · rw [hmoves.policies]
    exact (hmem a ha).elim (hcandidate a) (h.candidate a)
  · have hcounted := hmoves.invocations
    rcases hmem a ha with hnew | hold
    · have hpos := List.length_pos_of_mem hnew
      have hnumber := hinvocation a hnew
      omega
    · have hlt := h.invocation a hold
      omega
  · rw [(hmoves.armed.map _).nodup_iff, List.map_append, List.nodup_append]
    refine ⟨?_, (List.filter_sublist.map _).nodup h.distinct, ?_⟩
    · match left, hone with
      | [], _ => exact List.nodup_nil
      | [_], _ => exact List.nodup_singleton _
    · intro n hn n' hn' heq
      obtain ⟨a, ha, rfl⟩ := List.mem_map.1 hn
      obtain ⟨a', ha', rfl⟩ := List.mem_map.1 hn'
      have hlt := h.invocation a' (List.mem_of_mem_filter ha')
      have hnumber := hinvocation a ha
      omega

theorem Ends.fresh {features : Features} {chosen issued after : Stream} {result : Except LoopError Dispatch}
    (h : Ends r features chosen issued after result reports left) :
    (∀ report ∈ reports, r.Fresh features report.context) ∧ (∀ a ∈ left, r.Fresh features a.context) ∧
      reports.length + left.length ≤ 1 := by
  cases h with
  | finished hfresh _ elapsed => simp [hfresh]
  | left hfresh _ hlaunch => simp [hfresh]
  | failed hfresh _ he => simp [hfresh]
  | exhausted hfresh _ site capacity => simp
  | unavailable hfresh hunavailable => simp
  | outOfRange hpick hnone => simp

theorem Ends.isOfPool {features : Features} {chosen issued after : Stream} {e : LoopError}
    (h : Ends r features chosen issued after (.error e) reports left) :
    e.isOfPool = false ∨ e.isPoolExhausted = true := by
  cases h with
  | failed _ _ he => exact .inl he
  | exhausted _ _ _ _ => exact .inr rfl
  | unavailable _ _ => exact .inl rfl
  | outOfRange _ _ => exact .inl rfl

theorem Fresh.lt {features : Features} {context : Context} (h : r.Fresh features context) :
    context.candidate < r.policies.length :=
  (List.getElem?_eq_some_iff.1 h.policy).1

end Region

/-! ## What a turn does -/

namespace Session.Turn

variable [Model α] {t : Turn α}

/-- What a turn answers, where it leaves `left` in flight and takes `counted` numbers. -/
inductive Answers (t : Turn α) : (left : List Armed) → (counted : Nat) → Prop where
  | aside (hpicked : t.picked? = none) (hanswer : ∀ d, t.answer? ≠ some (.ok d))
      (herror : ∀ e ∈ t.error?, e.isOfPool = false) (hown : t.own = []) : Answers t [] 0
  | numbered (hpicked : t.picked? = some (t.polled.select t.features t.polled.invocations).1)
      {result : Except LoopError Dispatch} (hanswer : t.answer? = some result) {left : List Armed}
      (hends : t.polled.Ends t.features t.atChoice t.atLaunch t.after.stream result t.own left) :
    Answers t left 1

theorem error?_of_answer? {e : LoopError} (h : t.answer? = some (.error e)) : t.error? = some e := by
  rw [error?, h]

theorem drainSeeing_of_picked? {candidate : Nat} (h : t.picked? = some candidate) :
    ∃ n, (t.before.region.drainSeeing t.seen).2 = .ok n := by
  unfold picked? at h
  split at h
  · next heq =>
    rw [heq]
    exact ⟨_, rfl⟩
  · cases h

theorem reports_eq (t : Turn α) :
    t.reports = t.before.region.pool.armed.filterMap (Armed.report? t.seen) ++ t.own :=
  congrArg (· ++ t.own) (Pool.map_listed t.seen (fun context o => Report.mk context o.elapsed?)
    t.before.region.pool.slots 0)

theorem isOfPool_of_drainSeeing {r : Region α} {seen : LaunchId → Option Outcome} {e : LoopError}
    (h : (r.drainSeeing seen).2 = .error e) : e.isOfPool = false :=
  Region.isOfPool_of_collectedResult h

/-- It collects what it sees complete, keeps the rest, and may leave one launch more in flight. -/
def Does (t : Turn α) : Prop :=
  ∃ left counted, t.Answers left counted ∧
    Region.Moves t.before.region t.after.region t.reports
      (left ++ t.before.region.pool.armed.filter (Armed.isUnseen t.seen)) counted ∧
    t.before.stream.Reaches t.after.stream ∧
    ∀ id o, t.seen id = some o → t.after.stream.outcome? id = some o

section
variable {s : Session α} (h : s.region.Sound)
include h

theorem does_stream (e : Device.Event) : Does ⟨s, .stream e⟩ := by
  have hanswer : ∀ d, Turn.answer? ⟨s, .stream e⟩ ≠ some (.ok d) := by
    intro d hd
    cases hd
  have herror : ∀ e' ∈ Turn.error? ⟨s, .stream e⟩, e'.isOfPool = false := by
    intro e' he
    cases he
  refine ⟨[], 0, .aside rfl hanswer herror rfl, ?_, ⟨[e], rfl⟩, by simp [seen]⟩
  have hnone : s.region.pool.armed.filterMap (Armed.report? fun _ => none) = [] := by
    simp [Armed.report?]
  have hall : s.region.pool.armed.filter (Armed.isUnseen fun _ => none) = s.region.pool.armed := by
    simp [Armed.isUnseen]
  simp only [reports_eq, seen, own, hnone, hall]
  exact {
    policies := rfl
    variants := rfl
    stats := rfl
    model := .refl
    pool := h.pool
    unreserved := h.unreserved
    armed := .refl _
    invocations := rfl }

theorem does_drain (polling : Polling) : Does ⟨s, .drain polling⟩ := by
  have hpoll := Region.drainSeeing_moves h.pool h.unreserved (polling.seen s.stream)
  refine ⟨[], 0, .aside rfl ?_ ?_ rfl, ?_, polling.reaches_after s.stream,
    fun id o hseen => Polling.outcome?_of_seen hseen⟩
  · intro d hd
    cases hd
  · intro e he
    simp only [error?, answer?, seen] at he
    split at he
    · next herror =>
      cases he
      exact isOfPool_of_drainSeeing herror
    · cases he
  · rw [reports_eq, own, List.append_nil]
    exact hpoll

theorem does_failed {plugins : List Plugin} {space : IterationSpace} {body : Body} {now : Moment}
    {meanwhile : Meanwhile} {r : Region α} {e : LoopError}
    (hdrain : s.region.drainSeeing (meanwhile.polling.seen s.stream) = (r, .error e)) :
    Does ⟨s, .invoke plugins space body now meanwhile⟩ := by
  have hpoll := Region.drainSeeing_moves h.pool h.unreserved (meanwhile.polling.seen s.stream)
  have hreply : s.region.invokeDuring s.stream meanwhile plugins space body now =
      ⟨r, meanwhile.polling.after s.stream, [], none, .error e⟩ := by
    rw [Region.invokeDuring_eq, hdrain]
  rw [hdrain] at hpoll
  refine ⟨[], 0, .aside ?_ ?_ ?_ ?_, ?_, ?_, ?_⟩
  · simp only [picked?, seen, hdrain]
  · simp [answer?, hreply]
  · simp only [error?, answer?, hreply, Option.mem_some_iff, forall_eq']
    exact isOfPool_of_drainSeeing (congrArg Prod.snd hdrain)
  · simp only [own, seen, hdrain]
  · simp only [reports_eq, own, seen, after, hdrain, hreply, List.append_nil]
    exact hpoll
  · simp only [after, hreply]
    exact meanwhile.polling.reaches_after s.stream
  · intro id o hseen
    simp only [after, hreply]
    exact Polling.outcome?_of_seen hseen

theorem does_numbered {plugins : List Plugin} {space : IterationSpace} {body : Body} {now : Moment}
    {meanwhile : Meanwhile} {r : Region α} {n : Nat}
    (hdrain : s.region.drainSeeing (meanwhile.polling.seen s.stream) = (r, .ok n)) :
    Does ⟨s, .invoke plugins space body now meanwhile⟩ := by
  have hpoll := Region.drainSeeing_moves h.pool h.unreserved (meanwhile.polling.seen s.stream)
  have hreply : s.region.invokeDuring s.stream meanwhile plugins space body now =
      r.proceed (meanwhile.atChoice s.stream) (meanwhile.atLaunch s.stream) plugins space body now := by
    rw [Region.invokeDuring_eq, hdrain]
  rw [hdrain] at hpoll
  obtain ⟨left, hends, hmoves, hreaches⟩ := Region.proceed_ends hpoll.pool hpoll.unreserved
    (meanwhile.reaches_atLaunch s.stream) plugins space body now
  have hafter := (meanwhile.reaches_atChoice s.stream).trans hreaches
  refine ⟨left, 1, .numbered ?_ rfl ?_, ?_, ?_, ?_⟩
  · simp only [picked?, polled, seen, hdrain]
  · simp only [polled, seen, own, features, atChoice, atLaunch, after, hdrain, hreply]
    exact hends
  · simp only [reports_eq, seen, own, atChoice, atLaunch, after, hdrain, hreply]
    exact hpoll.trans hmoves
  · simp only [after, hreply]
    exact (meanwhile.polling.reaches_after s.stream).trans hafter
  · intro id o hseen
    simp only [after, hreply]
    exact hafter.outcome? (Polling.outcome?_of_seen hseen)

end

/-- **What a turn does** to a session whose region is sound. -/
theorem does (h : t.before.region.Sound) : t.Does := by
  obtain ⟨s, act⟩ := t
  cases act with
  | stream e => exact does_stream h e
  | drain polling => exact does_drain h polling
  | invoke plugins space body now meanwhile =>
    cases hdrain : s.region.drainSeeing (meanwhile.polling.seen s.stream) with
    | mk r result =>
      cases result with
      | error e => exact does_failed h hdrain
      | ok n => exact does_numbered h hdrain

theorem Answers.numbers (h : t.before.region.Sound) {left : List Armed} {counted : Nat}
    (hanswers : t.Answers left counted) :
    (∀ context, context ∈ t.own.map (·.context) ∨ context ∈ left.map (·.context) →
      context.invocation = t.before.region.invocations ∧
        context.candidate < t.before.region.policies.length) ∧
    t.own.length + left.length ≤ counted ∧ counted ≤ 1 := by
  cases hanswers with
  | aside _ _ _ hown => simp [hown]
  | numbered hpicked hanswer hends =>
    obtain ⟨hown, hleft, hone⟩ := hends.fresh
    have hpoll := Region.drainSeeing_moves h.pool h.unreserved t.seen
    have hnumber : t.polled.invocations = t.before.region.invocations := hpoll.invocations
    refine ⟨fun context hcontext => ?_, hone, Nat.le_refl 1⟩
    rw [← hnumber, ← hpoll.policies]
    rcases hcontext with hmem | hmem
    · obtain ⟨report, hreport, rfl⟩ := List.mem_map.1 hmem
      exact ⟨(hown report hreport).invocation, (hown report hreport).lt⟩
    · obtain ⟨a, ha, rfl⟩ := List.mem_map.1 hmem
      exact ⟨(hleft a ha).invocation, (hleft a ha).lt⟩

theorem own_numbers (h : t.before.region.Sound) {report : Report} (hown : report ∈ t.own) :
    report.context.invocation = t.before.region.invocations ∧
      report.context.candidate < t.before.region.policies.length := by
  obtain ⟨left, counted, hanswers, -⟩ := does h
  exact (hanswers.numbers h).1 report.context (.inl (List.mem_map_of_mem hown))

theorem isOfPool_of_error? (h : t.before.region.Sound) {e : LoopError} (he : t.error? = some e) :
    e.isOfPool = false ∨ e.isPoolExhausted = true := by
  obtain ⟨left, counted, hanswers, -⟩ := does h
  cases hanswers with
  | aside _ _ herror _ => exact .inl (herror e he)
  | @numbered hpicked result hanswer _ hends =>
    cases result with
    | ok d => simp [error?, hanswer] at he
    | error e' =>
      rw [error?_of_answer? hanswer, Option.some.injEq] at he
      exact he ▸ hends.isOfPool

/-- **Sound regions stay sound.** -/
theorem sound_after (h : t.before.region.Sound) : t.after.region.Sound := by
  obtain ⟨left, counted, hanswers, hmoves, -, -⟩ := does h
  obtain ⟨hnumbers, hcount, hone⟩ := hanswers.numbers h
  have hleft := fun a (ha : a ∈ left) => hnumbers a.context (.inr (List.mem_map_of_mem ha))
  exact h.moves hmoves (fun a ha => (hleft a ha).2) (fun a ha => (hleft a ha).1) (by omega) (by omega)

theorem mem_reports (h : t.before.region.Sound) {report : Report} (hreport : report ∈ t.reports) :
    (∃ a ∈ t.before.region.pool.armed, a.context = report.context) ∨
      report ∈ t.own ∧ report.context.invocation = t.before.region.invocations ∧
        report.context.candidate < t.before.region.policies.length := by
  rw [reports_eq, List.mem_append, List.mem_filterMap] at hreport
  rcases hreport with ⟨a, ha, hseen⟩ | hown
  · obtain ⟨o, -, rfl⟩ := Option.map_eq_some_iff.1 hseen
    exact .inl ⟨a, ha, rfl⟩
  · exact .inr ⟨hown, own_numbers h hown⟩

theorem candidate_of_mem_reports (h : t.before.region.Sound) {report : Report} (hreport : report ∈ t.reports) :
    report.context.candidate < t.before.region.stats.length := by
  rw [h.stats]
  rcases mem_reports h hreport with ⟨a, ha, hcontext⟩ | ⟨-, -, hlt⟩
  · rw [← hcontext]
    exact h.candidate a ha
  · exact hlt

theorem invocation_of_mem_reports (h : t.before.region.Sound) {report : Report} (hreport : report ∈ t.reports) :
    report.context.invocation < t.after.region.invocations := by
  obtain ⟨left, counted, hanswers, hmoves, -, -⟩ := does h
  have hcount := (hanswers.numbers h).2.1
  have hinvocations := hmoves.invocations
  rcases mem_reports h hreport with ⟨a, ha, hcontext⟩ | ⟨hown, hnumber, -⟩
  · rw [← hcontext]
    have hlt := h.invocation a ha
    omega
  · have hpos := List.length_pos_of_mem hown
    omega

end Session.Turn

/-! ## Runs of turns -/

namespace Session

variable [Model α]

/-- What is known of a turn of a session: the region it finds is sound, with the model told what was reported,
the numbers taken before it are below its own, and the turns behind it go on where it ends. -/
theorem turns_eq_append : ∀ {acts : List Act} {s : Session α} {earlier later : List (Turn α)} {t : Turn α},
    s.region.Sound → s.turns acts = earlier ++ t :: later →
      t.before.region.Sound ∧ t.before.region.policies = s.region.policies ∧
        Model.Told s.region.model (earlier.flatMap Turn.reports) t.before.region.model ∧
        s.region.invocations ≤ t.before.region.invocations ∧
        (∀ u ∈ earlier, ∀ report ∈ u.reports, report.context.invocation < t.before.region.invocations) ∧
        ∃ acts', later = t.after.turns acts'
  | [], s, earlier, later, t, _, heq => by simp [turns] at heq
  | act :: acts, s, [], later, t, h, heq => by
    rw [turns, List.nil_append, List.cons.injEq] at heq
    obtain ⟨rfl, rfl⟩ := heq
    exact ⟨h, rfl, .refl, Nat.le_refl _, by simp, acts, rfl⟩
  | act :: acts, s, u :: earlier, later, t, h, heq => by
    rw [turns, List.cons_append, List.cons.injEq] at heq
    obtain ⟨hu, hrest⟩ := heq
    have hsound : (Turn.after ⟨s, act⟩).region.Sound := Turn.sound_after (t := ⟨s, act⟩) h
    obtain ⟨left, counted, -, hmoves, -, -⟩ := Turn.does (t := ⟨s, act⟩) h
    have hinvocations : (Turn.after ⟨s, act⟩).region.invocations = s.region.invocations + counted :=
      hmoves.invocations
    obtain ⟨ht, hpolicies, htold, hle, hearlier, hlater⟩ := turns_eq_append hsound hrest
    refine ⟨ht, hpolicies.trans hmoves.policies, ?_, by omega, ?_, hlater⟩
    · rw [List.flatMap_cons, ← hu]
      exact hmoves.model.trans htold
    · rw [List.forall_mem_cons, ← hu]
      refine ⟨fun report hreport => ?_, hearlier⟩
      have hlt : report.context.invocation < (Turn.after ⟨s, act⟩).region.invocations :=
        Turn.invocation_of_mem_reports (t := ⟨s, act⟩) h hreport
      omega

end Session

end AdaptiveLoops
