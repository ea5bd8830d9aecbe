/-
What plugins are told.

A turn tells its plugins nothing, or of a launch that fails, or of one that
is answered (`Turn.Tells`). What one of them hears in a whole session is a
list of launches with rising numbers, each announced once and then, if it
was answered, told of once more before anything else (`Brackets`).

A plugin may also look at the region when it is told; `Turn.Finds` says what
it finds.
-/
import AdaptiveLoops.Proofs.Region.Feedback
import AdaptiveLoops.Proofs.Region.Setup
import Mathlib.Data.List.Induction

namespace AdaptiveLoops

open Device (Stream LaunchId Outcome)

variable {α : Type}

/-! ## One stage -/

theorem notify_filter_position (plugins : List Plugin) (stage : Stage) (site : CallSite) (context : Context)
    (pending : Bool) (i : Nat) :
    (notify plugins stage site context pending).filter (·.position == i) =
      (plugins[i]?).toList.map fun plugin => ⟨i, plugin, stage, site, context, pending⟩ := by
  induction plugins using List.reverseRecOn with
  | nil => rfl
  | append_singleton plugins plugin ih =>
    rw [notify, List.mapIdx_concat, List.filter_append, ← notify, ih]
    rcases Nat.lt_trichotomy i plugins.length with hlt | rfl | hgt
    · have hne : plugins.length ≠ i := by omega
      simp [List.getElem?_append_left hlt, hne]
    · simp
    · have hne : plugins.length ≠ i := by omega
      have hnone : (plugins ++ [plugin])[i]? = none := List.getElem?_eq_none (by simp; omega)
      simp [hnone, List.getElem?_eq_none (Nat.le_of_lt hgt), hne]

namespace Region

theorem map_notice_watch (r : Region α) (stream : Stream) (plugins : List Plugin) (stage : Stage)
    (site : CallSite) (context : Context) (pending : Bool) :
    (r.watch stream plugins stage site context pending).map (·.notice) =
      notify plugins stage site context pending := by
  rw [watch, List.map_map]
  exact List.map_id _

theorem of_mem_watch {r : Region α} {stream : Stream} {plugins : List Plugin} {stage : Stage}
    {site : CallSite} {context : Context} {pending : Bool} {s : Sighting α}
    (hs : s ∈ r.watch stream plugins stage site context pending) :
    s.notice.stage = stage ∧ s.region = r ∧ s.stream = stream := by
  simp only [watch, notify, List.mem_map, List.mem_mapIdx] at hs
  obtain ⟨_, ⟨i, hi, rfl⟩, rfl⟩ := hs
  exact ⟨rfl, rfl, rfl⟩

variable [Model α]

/-! ## One launch -/

variable {r : Region α}

/-- **The plugins are told of a launch** before it, and once more where it is answered. -/
theorem launch_tells (hpool : r.pool.Valid) (v : Variant) (context : Context) (issued : Stream)
    (plugins : List Plugin) (space : IterationSpace) (body : Body) (now : Moment) :
    (∃ e, (r.launch issued plugins ⟨context, v⟩ space body now).result = .error e ∧
      (r.launch issued plugins ⟨context, v⟩ space body now).notices =
        notify plugins .preLaunch r.site context false) ∨
    ∃ pending, (r.launch issued plugins ⟨context, v⟩ space body now).result =
        .ok ⟨context.invocation, context.candidate, context.policy, pending⟩ ∧
      (r.launch issued plugins ⟨context, v⟩ space body now).notices =
        notify plugins .preLaunch r.site context false ++
          notify plugins .postLaunch r.site context pending := by
  have hissue : Issues r issued v context.candidate (v.policy.Suits space)
      (r.issue v issued context.candidate space body now) := issue_cases hpool space body now
  simp only [Region.launch, Reply.notices]
  generalize r.issue v issued context.candidate space body now = i at hissue ⊢
  cases hissue with
  | refused hasync hfull hfail => exact .inl ⟨_, rfl, map_notice_watch ..⟩
  | failed hv he hreaches => exact .inl ⟨_, rfl, map_notice_watch ..⟩
  | finished hv hreaches => exact .inr ⟨false, rfl, by simp only [conclude, List.map_append, map_notice_watch]; rfl⟩
  | @left v' after work slot pool launch hv hp hlaunch =>
    obtain ⟨armed, hconclude, -⟩ := conclude_acquired hpool hp context v' launch
    simp only [hconclude]
    exact .inr ⟨true, rfl, by simp only [List.map_append, map_notice_watch]; rfl⟩

/--
What a plugin finds in a launch on `r`: nothing of it is reported and it is not in flight. It is not issued at
the first stage, and it is at the second.
-/
structure Shows (r : Region α) (issued after : Stream) (s : Sighting α) : Prop where
  invocations : s.region.invocations = r.invocations
  stats : s.region.stats = r.stats
  model : s.region.model = r.model
  armed : s.region.pool.armed = r.pool.armed
  before : s.notice.stage = .preLaunch → s.region = r ∧ s.stream = issued
  behind : s.notice.stage = .postLaunch → s.stream = after

section
omit [Model α]
variable {issued after : Stream} {plugins : List Plugin} {context : Context} {s : Sighting α}

/-- Before the launch the plugins find the region as it is. -/
theorem shows_of_found (hs : s ∈ r.watch issued plugins .preLaunch r.site context false) :
    r.Shows issued after s := by
  obtain ⟨hstage, rfl, hstream⟩ := of_mem_watch hs
  refine ⟨rfl, rfl, rfl, rfl, fun _ => ⟨rfl, hstream⟩, ?_⟩
  intro hbehind
  rw [hstage] at hbehind
  cases hbehind

theorem shows_of_issued {r' : Region α} {pending : Bool}
    (hs : s ∈ r'.watch after plugins .postLaunch r.site context pending) (hinvocations : r'.invocations = r.invocations)
    (hstats : r'.stats = r.stats) (hmodel : r'.model = r.model) (harmed : r'.pool.armed = r.pool.armed) :
    r.Shows issued after s := by
  obtain ⟨hstage, rfl, hstream⟩ := of_mem_watch hs
  refine ⟨hinvocations, hstats, hmodel, harmed, ?_, fun _ => hstream⟩
  intro hbefore
  rw [hstage] at hbefore
  cases hbefore

end

/-- **What the plugins find in a launch.** -/
theorem launch_shows (hpool : r.pool.Valid) (v : Variant) (context : Context) (issued : Stream)
    (plugins : List Plugin) (space : IterationSpace) (body : Body) (now : Moment) :
    ∀ s ∈ (r.launch issued plugins ⟨context, v⟩ space body now).sightings,
      r.Shows issued (r.launch issued plugins ⟨context, v⟩ space body now).stream s := by
  have hissue : Issues r issued v context.candidate (v.policy.Suits space)
      (r.issue v issued context.candidate space body now) := issue_cases hpool space body now
  intro s
  simp only [Region.launch]
  generalize r.issue v issued context.candidate space body now = i at hissue ⊢
  cases hissue with
  | refused hasync hfull hfail => exact fun hs => shows_of_found hs
  | failed hv he hreaches => exact fun hs => shows_of_found hs
  | finished hv hreaches =>
    simp only [conclude, List.mem_append]
    rintro (hs | hs)
    · exact shows_of_found hs
    · exact shows_of_issued hs rfl rfl rfl rfl
  | @left v' after work slot pool launch hv hp hlaunch =>
    obtain ⟨armed, hconclude, -⟩ := conclude_acquired hpool hp context v' launch
    simp only [hconclude, List.mem_append]
    rintro (hs | hs)
    · exact shows_of_found hs
    · exact shows_of_issued hs rfl rfl rfl (hpool.armed_acquired hp)

end Region

/-! ## One turn -/

namespace Session

namespace Turn

/-- The plugins of a turn. -/
def plugins (t : Turn α) : List Plugin :=
  match t.act with
  | .invoke plugins _ _ _ _ => plugins
  | _ => []

variable [Model α]

/-- What the plugins find in a turn when they are told. -/
def sightings (t : Turn α) : List (Sighting α) :=
  match t.act with
  | .invoke plugins space body now meanwhile =>
    (t.before.region.invokeDuring t.before.stream meanwhile plugins space body now).sightings
  | _ => []

/-- What the plugins are told in a turn. -/
def notices (t : Turn α) : List Notice :=
  match t.act with
  | .invoke plugins space body now meanwhile =>
    (t.before.region.invokeDuring t.before.stream meanwhile plugins space body now).notices
  | _ => []

/-- What one plugin is told in a turn. -/
def heard (t : Turn α) (position : Nat) : List Notice :=
  t.notices.filter (·.position == position)

/-- The context of an invocation whose poll succeeds, and whose candidate is put into use. -/
def chosen? (t : Turn α) : Option Context :=
  match t.act, t.before.region.drainSeeing t.seen with
  | .invoke _ space _ _ _, (r, .ok _) =>
    match r.pick t.atChoice space with
    | (_, .ok choice) => some choice.context
    | (_, .error _) => none
  | _, _ => none

/-- How far a turn gets: it launches nothing, or what it has put into use. -/
inductive Gets (t : Turn α) : Prop where
  | nowhere (hchosen : t.chosen? = none) (hanswer : ∀ d, t.answer? ≠ some (.ok d)) (hsightings : t.sightings = [])
  | launch {r : Region α} {variants : List (Option Variant)} {context : Context} {v : Variant}
    {space : IterationSpace} {body : Body} {now : Moment} {reply : Reply α}
    (hregion : r = { t.polled.asked t.features with variants }) (hfresh : t.polled.Fresh t.features context)
    (hreply : r.launch t.atLaunch t.plugins ⟨context, v⟩ space body now = reply)
    (hchosen : t.chosen? = some context) (hanswer : t.answer? = some reply.result)
    (hsightings : t.sightings = reply.sightings) (hstream : t.after.stream = reply.stream)

theorem gets {t : Turn α} (hequipped : t.before.region.Equipped) : t.Gets := by
  obtain ⟨s, act⟩ := t
  cases act with
  | stream e => exact .nowhere rfl nofun rfl
  | drain polling => exact .nowhere rfl nofun rfl
  | invoke plugins space body now meanwhile =>
    have hpolled := hequipped.drainSeeing (meanwhile.polling.seen s.stream)
    cases hdrain : s.region.drainSeeing (meanwhile.polling.seen s.stream) with
    | mk r result =>
      rw [hdrain] at hpolled
      cases result with
      | error e =>
        refine .nowhere ?_ ?_ ?_
        · simp only [chosen?, seen, hdrain]
        · simp [answer?, Region.invokeDuring_eq, hdrain]
        · simp only [sightings, Region.invokeDuring_eq, hdrain]
      | ok n =>
        have htakes := hpolled.takes (meanwhile.atChoice s.stream) space
        generalize hpick : r.pick (meanwhile.atChoice s.stream) space = p at htakes
        cases htakes with
        | nothing he hnone =>
          refine .nowhere ?_ ?_ ?_
          · simp only [chosen?, seen, atChoice, hdrain, hpick]
          · simp [answer?, Region.invokeDuring_eq, Region.proceed, hdrain, hpick]
          · simp only [sightings, Region.invokeDuring_eq, Region.proceed, hdrain, hpick]
        | @taken context v variants hfresh havailable hpolicy hprepared hequipped' hvariants =>
          have hreply : s.region.invokeDuring s.stream meanwhile plugins space body now =
              { r.asked (Features.ofSpace space) with variants }.launch (meanwhile.atLaunch s.stream) plugins
                ⟨context, v⟩ space body now := by
            simp only [Region.invokeDuring_eq, Region.proceed, hdrain, hpick]
          have hr : Turn.polled ⟨s, .invoke plugins space body now meanwhile⟩ = r := by
            simp only [polled, seen, hdrain]
          subst hr
          refine .launch rfl hfresh hreply.symm ?_ rfl rfl rfl
          simp only [chosen?, seen, atChoice, hdrain, hpick]

/--
What a turn tells its plugins, all of them in their order: nothing unless it puts a candidate into use, one
notice before the launch, and one behind it where the launch is answered.
-/
inductive Tells (site : CallSite) (t : Turn α) : Prop where
  | nothing (hchosen : t.chosen? = none) (hanswer : ∀ d, t.answer? ≠ some (.ok d)) (hnotices : t.notices = [])
  | failure {context : Context} {e : LoopError} (hchosen : t.chosen? = some context)
    (hfresh : t.polled.Fresh t.features context) (hanswer : t.answer? = some (.error e))
    (hnotices : t.notices = notify t.plugins .preLaunch site context false)
  | launch {d : Dispatch} (hchosen : t.chosen? = some (t.context d))
    (hfresh : t.polled.Fresh t.features (t.context d)) (hanswer : t.answer? = some (.ok d))
    (hnotices : t.notices = notify t.plugins .preLaunch site (t.context d) false ++
      notify t.plugins .postLaunch site (t.context d) d.pending)

/--
What a plugin finds when it is told. The invocation has its number and its pick; nothing of it is reported,
and it is not in flight. At the first stage the loop is not issued and no slot is reserved for it, and at the
second it is.
-/
structure Finds (t : Turn α) (s : Sighting α) : Prop where
  invocations : s.region.invocations = t.before.region.invocations + 1
  stats : s.region.stats = t.polled.stats
  model : s.region.model = (t.polled.asked t.features).model
  armed : s.region.pool.armed = t.polled.pool.armed
  before : s.notice.stage = .preLaunch → s.region.pool = t.polled.pool ∧ s.stream = t.atLaunch
  behind : s.notice.stage = .postLaunch → s.stream = t.after.stream

variable {t : Turn α}

theorem valid_polled (h : t.before.region.Sound) : t.polled.pool.Valid :=
  (Region.drainSeeing_moves h.pool h.unreserved t.seen).pool

theorem invocations_polled (h : t.before.region.Sound) : t.polled.invocations = t.before.region.invocations :=
  (Region.drainSeeing_moves h.pool h.unreserved t.seen).invocations

theorem site_polled (t : Turn α) : t.polled.site = t.before.region.site :=
  congrArg Region.Setup.site (Region.setup_drainSeeing t.before.region t.seen)

theorem map_notice_sightings (t : Turn α) : t.sightings.map (·.notice) = t.notices := by
  obtain ⟨s, act⟩ := t
  cases act <;> rfl

theorem chosen?_eq_none_of_picked? (h : t.picked? = none) : t.chosen? = none := by
  obtain ⟨s, act⟩ := t
  cases act with
  | stream e => rfl
  | drain polling => rfl
  | invoke plugins space body now meanwhile =>
    cases hdrain : s.region.drainSeeing (meanwhile.polling.seen s.stream) with
    | mk r result =>
      cases result with
      | error e => simp only [chosen?, seen, hdrain]
      | ok n =>
        simp only [picked?, seen, hdrain] at h
        cases h

/-- **What a turn tells its plugins.** -/
theorem tells (h : t.before.region.Sound) (hequipped : t.before.region.Equipped) :
    t.Tells t.before.region.site := by
  cases gets hequipped with
  | nowhere hchosen hanswer hsightings =>
    refine .nothing hchosen hanswer ?_
    rw [← map_notice_sightings, hsightings, List.map_nil]
  | @launch r variants context v space body now reply hregion hfresh hreply hchosen hanswer hsightings _ =>
    have hnotices : t.notices = reply.notices := by rw [← map_notice_sightings, hsightings]; rfl
    have hpool : r.pool.Valid := hregion ▸ valid_polled h
    have hsite : r.site = t.before.region.site := by
      rw [hregion]
      exact site_polled t
    have htells := Region.launch_tells hpool v context t.atLaunch t.plugins space body now
    rw [hreply, hsite, ← hnotices] at htells
    rcases htells with ⟨e, hresult, htold⟩ | ⟨pending, hresult, htold⟩
    · exact .failure hchosen hfresh (hresult ▸ hanswer) htold
    · have hcontext := context_eq_of_fresh hfresh pending
      exact .launch (hcontext.symm ▸ hchosen) (hcontext.symm ▸ hfresh) (hresult ▸ hanswer) (hcontext.symm ▸ htold)

/-- **What the plugins find when they are told.** -/
theorem finds (h : t.before.region.Sound) (hequipped : t.before.region.Equipped) : ∀ s ∈ t.sightings, t.Finds s := by
  cases gets hequipped with
  | nowhere _ _ hsightings => simp [hsightings]
  | @launch r variants context v space body now reply hregion _ hreply _ _ hsightings hstream =>
    have hpool : r.pool.Valid := hregion ▸ valid_polled h
    intro s hs
    rw [hsightings, ← hreply] at hs
    have hshows := Region.launch_shows hpool v context t.atLaunch t.plugins space body now s hs
    rw [hreply, ← hstream, hregion] at hshows
    refine { hshows with invocations := ?_, before := fun hstage => ?_ }
    · exact hshows.invocations.trans (congrArg (· + 1) (invocations_polled h))
    · obtain ⟨hfound, hstream⟩ := hshows.before hstage
      exact ⟨(congrArg Region.pool hfound).trans rfl, hstream⟩

theorem invocation_of_chosen? (h : t.before.region.Sound) (hequipped : t.before.region.Equipped)
    {context : Context} (hchosen : t.chosen? = some context) :
    context.invocation = t.before.region.invocations ∧
      t.after.region.invocations = context.invocation + 1 := by
  cases gets hequipped with
  | nowhere hnone _ _ =>
    rw [hnone] at hchosen
    cases hchosen
  | launch _ hfresh _ hsome _ _ _ =>
    rw [hsome, Option.some.injEq] at hchosen
    subst hchosen
    have hnumber := hfresh.invocation.trans (invocations_polled h)
    refine ⟨hnumber, ?_⟩
    obtain ⟨left, counted, hanswers, hmoves, -, -⟩ := does h
    have hinvocations := hmoves.invocations
    cases hanswers with
    | aside hpicked _ _ _ => rw [chosen?_eq_none_of_picked? hpicked] at hsome; cases hsome
    | numbered _ _ _ => omega

end Turn

/-! ## Whole sessions -/

/--
Notices of launches in order, whose numbers rise from `next` on: of each there is one before it, and perhaps
one behind it, which says the same but for whether the launch is pending.
-/
inductive Brackets : (next : Nat) → List Notice → Prop
  | nil (next : Nat) : Brackets next []
  | failure {next : Nat} {n : Notice} {rest : List Notice} (hstage : n.stage = .preLaunch)
    (hpending : n.pending = false) (hnext : next ≤ n.context.invocation)
    (hrest : Brackets (n.context.invocation + 1) rest) : Brackets next (n :: rest)
  | launch {next : Nat} {n : Notice} (pending : Bool) {rest : List Notice} (hstage : n.stage = .preLaunch)
    (hpending : n.pending = false) (hnext : next ≤ n.context.invocation)
    (hrest : Brackets (n.context.invocation + 1) rest) :
    Brackets next (n :: { n with stage := .postLaunch, pending } :: rest)

theorem Brackets.mono {next next' : Nat} {notices : List Notice} (h : Brackets next notices) (hle : next' ≤ next) :
    Brackets next' notices := by
  cases h with
  | nil => exact .nil next'
  | failure hstage hpending hnext hrest => exact .failure hstage hpending (Nat.le_trans hle hnext) hrest
  | launch pending hstage hpending hnext hrest => exact .launch pending hstage hpending (Nat.le_trans hle hnext) hrest

variable [Model α]

namespace Turn

variable {t : Turn α} {site : CallSite}

/-- **What one plugin hears of a turn** stands in brackets before what it hears later. -/
theorem heard_brackets (h : t.before.region.Sound) (hequipped : t.before.region.Equipped) (i : Nat)
    {later : List Notice} (hlater : Brackets t.after.region.invocations later) :
    Brackets t.before.region.invocations (t.heard i ++ later) := by
  have hnext := hlater.mono (invocations_le_after h)
  cases tells h hequipped with
  | nothing _ _ hnotices =>
    rwa [heard, hnotices]
  | @failure context e hchosen _ _ hnotices =>
    obtain ⟨hnumber, hafter⟩ := invocation_of_chosen? h hequipped hchosen
    rw [heard, hnotices, notify_filter_position]
    cases t.plugins[i]? with
    | none => exact hnext
    | some plugin => exact .failure rfl rfl (Nat.le_of_eq hnumber.symm) (hafter ▸ hlater)
  | @launch d hchosen _ _ hnotices =>
    obtain ⟨hnumber, hafter⟩ := invocation_of_chosen? h hequipped hchosen
    rw [heard, hnotices, List.filter_append, notify_filter_position, notify_filter_position]
    cases t.plugins[i]? with
    | none => exact hnext
    | some plugin => exact .launch d.pending rfl rfl (Nat.le_of_eq hnumber.symm) (hafter ▸ hlater)

/-- **A plugin is told behind a launch** exactly where the launch is answered. -/
theorem Tells.heard_postLaunch_iff (h : t.Tells site) (i k : Nat) :
    (∃ n ∈ t.heard i, n.stage = .postLaunch ∧ n.context.invocation = k) ↔
      i < t.plugins.length ∧ ∃ d, t.answer? = some (.ok d) ∧ d.invocation = k := by
  cases h with
  | nothing _ hanswer hnotices => simp [heard, hnotices, hanswer]
  | failure _ _ hanswer hnotices =>
    rw [heard, hnotices, notify_filter_position]
    simp [hanswer]
  | @launch d _ _ hanswer hnotices =>
    rw [heard, hnotices, List.filter_append, notify_filter_position, notify_filter_position]
    by_cases hi : i < t.plugins.length
    · simp [hanswer, hi, Turn.context]
    · simp [hi]

end Turn

/-- Sound and equipped regions of one site, which is what the turns of a session find. -/
structure OfSite (site : CallSite) (s : Session α) : Prop where
  sound : s.region.Sound
  equipped : s.region.Equipped
  site : s.region.site = site

theorem OfSite.after {site : CallSite} {t : Turn α} (h : t.before.OfSite site) : t.after.OfSite site := by
  obtain ⟨hsetup, hequipped⟩ := Turn.setup_after h.equipped
  exact ⟨Turn.sound_after h.sound, hequipped, (congrArg Region.Setup.site hsetup).trans h.site⟩

theorem OfSite.brackets {site : CallSite} (i : Nat) : ∀ {acts : List Act} {s : Session α}, s.OfSite site →
    Brackets s.region.invocations ((s.turns acts).flatMap (·.heard i))
  | [], s, _ => .nil _
  | act :: acts, s, h => by
    rw [turns, List.flatMap_cons]
    exact Turn.heard_brackets (t := ⟨s, act⟩) h.sound h.equipped i
      (OfSite.brackets i (OfSite.after (t := ⟨s, act⟩) h))

/--
**Notices bracket the launches that are answered**, in every session with a new region, whatever plugins each
call is given and whatever the stream does between the calls and during them.

A turn tells all its plugins, in their order, before anything else happens, under the context its dispatch has
to be reported under: before a launch, and behind it where the launch is answered. A turn that fails in its
poll or puts no candidate into use tells them nothing. What one plugin hears in the whole session are launches
with rising numbers, each in brackets of its own, and it is told behind launch `k` exactly where the
invocation of that number was answered and the plugin was there.
-/
theorem turns_bracketed {site : CallSite} {policies : List Policy} {model : α} {config : Config} {r : Region α}
    (hr : Region.create site policies model config = .ok r) (stream : Stream) (acts : List Act) :
    (∀ t ∈ turns ⟨r, stream⟩ acts,
      t.Tells site ∧ t.sightings.map (·.notice) = t.notices ∧ ∀ s ∈ t.sightings, t.Finds s) ∧
    ∀ i, Brackets 0 ((turns ⟨r, stream⟩ acts).flatMap (·.heard i)) ∧
      ∀ k, (∃ n ∈ (turns ⟨r, stream⟩ acts).flatMap (·.heard i), n.stage = .postLaunch ∧ n.context.invocation = k) ↔
        ∃ t ∈ turns ⟨r, stream⟩ acts, i < t.plugins.length ∧ ∃ d, t.answer? = some (.ok d) ∧ d.invocation = k := by
  have hstart : OfSite site ⟨r, stream⟩ :=
    ⟨Region.create_sound hr, Region.create_equipped hr, (Region.create_setup hr).1⟩
  have hturns : ∀ t ∈ turns ⟨r, stream⟩ acts, t.before.OfSite site := fun t ht =>
    (forall_turns (fun _ => OfSite.after) hstart t ht).1
  have htells : ∀ t ∈ turns ⟨r, stream⟩ acts, t.Tells site := fun t ht =>
    (hturns t ht).site ▸ Turn.tells (hturns t ht).sound (hturns t ht).equipped
  refine ⟨fun t ht => ⟨htells t ht, ?_, ?_⟩, fun i => ⟨?_, fun k => ?_⟩⟩
  · exact t.map_notice_sightings
  · exact Turn.finds (hturns t ht).sound (hturns t ht).equipped
  · obtain ⟨-, -, -, -, -, hinvocations⟩ := Region.create_eq_ok hr
    exact hinvocations ▸ hstart.brackets i
  · simp only [List.mem_flatMap]
    constructor
    · rintro ⟨n, ⟨t, ht, hn⟩, hstage, hk⟩
      exact ⟨t, ht, ((htells t ht).heard_postLaunch_iff i k).1 ⟨n, hn, hstage, hk⟩⟩
    · rintro ⟨t, ht, hanswer⟩
      obtain ⟨n, hn, hstage, hk⟩ := ((htells t ht).heard_postLaunch_iff i k).2 hanswer
      exact ⟨n, ⟨t, ht, hn⟩, hstage, hk⟩

/-- A loop in order, one that is queued, and one for which the stream is closed. -/
theorem turns_bracketed_shutdown :
    let plugins : List Plugin := [⟨"trace-launches"⟩, ⟨"counting"⟩]
    let loop : Act := .invoke plugins ⟨[⟨0, 8⟩]⟩ (fun _ => none) ⟨.serial, ⟨10⟩⟩ .still
    let acts := [loop, loop, .stream .shutdown, loop]
    ∃ r, Region.create (.named "saxpy") [.sequential, .device 4 .async] (Fixed.ofIndex 1) .default = .ok r ∧
      let heard := (turns ⟨r, .empty⟩ acts).flatMap (Turn.heard · 1)
      heard.map (fun n => (n.stage, n.context.invocation, n.pending)) =
        [(.preLaunch, 0, false), (.postLaunch, 0, false), (.preLaunch, 1, false), (.postLaunch, 1, true),
          (.preLaunch, 2, false)] ∧
        Brackets 0 heard ∧ ∃ n ∈ heard, n.stage = .postLaunch ∧ n.context.invocation = 1 := by
  intro plugins loop acts
  obtain ⟨r, hr⟩ : ∃ r, Region.create (.named "saxpy") [.sequential, .device 4 .async]
    (Fixed.ofIndex 1) .default = .ok r := ⟨_, rfl⟩
  let second : Turn Fixed := ⟨Turn.after ⟨⟨r, .empty⟩, loop⟩, loop⟩
  have hanswer : second.answer? = some (.ok ⟨1, 1, .device 4 .async, true⟩) := by
    cases hr
    decide +kernel
  have hsecond : second ∈ turns ⟨r, .empty⟩ acts := List.mem_cons_of_mem _ List.mem_cons_self
  obtain ⟨hbrackets, hbehind⟩ := (turns_bracketed hr .empty acts).2 1
  refine ⟨r, hr, ?_, hbrackets, (hbehind 1).2 ⟨second, hsecond, Nat.one_lt_two, _, hanswer, rfl⟩⟩
  cases hr
  decide +kernel

end Session

end AdaptiveLoops
