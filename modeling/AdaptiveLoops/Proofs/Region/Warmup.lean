/-
The warm-up of a region.

Invocations that get past their drain are numbered without a gap
(`map_invocations_counted`), and of samples there are never fewer than before
(`pairwise_turns`). So the warm-up ends once: from the invocation whose own
drain finds enough samples the model is asked, and before it never is
(`turns_warm_up`). Which candidate runs meanwhile depends on the number
alone, so candidates that take turns run equally often, but for one
(`countP_mod_le`).
-/
import AdaptiveLoops.Proofs.Region.Defects
import AdaptiveLoops.Proofs.Region.Exhaustion
import Mathlib.Data.Int.CardIntervalMod

namespace AdaptiveLoops

open Device (Stream LaunchId Outcome)

/-! ## Taking turns -/

/-- The numbers in a row that leave a remainder, counted up to both ends of the row. -/
theorem countP_mod {count i : Nat} (hi : i < count) (first length : Nat) :
    (List.range' first length).countP (· % count == i) + Nat.count (· ≡ i [MOD count]) first =
      Nat.count (· ≡ i [MOD count]) (first + length) := by
  have hmod : ∀ k, (k ≡ i [MOD count]) ↔ k % count = i := fun k => by rw [Nat.ModEq, Nat.mod_eq_of_lt hi]
  rw [Nat.count_add, Nat.add_comm, List.range'_eq_map_range, List.countP_map]
  congr 1
  simp only [Nat.count, hmod]
  rfl

/-- **Two remainders are equally frequent** among numbers in a row, but for one. -/
theorem countP_mod_le {count i j : Nat} (hi : i < count) (hj : j < count) (first length : Nat) :
    (List.range' first length).countP (· % count == i) ≤
      (List.range' first length).countP (· % count == j) + 1 := by
  have hcount : 0 < count := by omega
  have hci := countP_mod hi first length
  have hcj := countP_mod hj first length
  rw [Nat.count_modEq_card _ hcount, Nat.count_modEq_card _ hcount, Nat.mod_eq_of_lt hi] at hci
  rw [Nat.count_modEq_card _ hcount, Nat.count_modEq_card _ hcount, Nat.mod_eq_of_lt hj] at hcj
  generalize (first + length) / count = q at hci hcj
  generalize first / count = p at hci hcj
  split_ifs at hci hcj <;> omega

theorem eq_range'_of_infix {part : List Nat} {n : Nat} (h : part <:+: List.range n) :
    ∃ first, part = List.range' first part.length := by
  obtain ⟨before, after, heq⟩ := h
  rw [List.range_eq_range', eq_comm, List.append_assoc, List.range'_eq_append_iff] at heq
  obtain ⟨k, -, -, hrest⟩ := heq
  rw [eq_comm, List.range'_eq_append_iff] at hrest
  obtain ⟨length, -, hpart, -⟩ := hrest
  refine ⟨0 + k * 1, ?_⟩
  rw [hpart, List.length_range']

theorem exists_switch {β : Type} (f : β → Nat) (limit : Nat) : ∀ {l : List β}, l.Pairwise (fun a b => f a ≤ f b) →
    ∃ before behind, l = before ++ behind ∧ (∀ a ∈ before, f a < limit) ∧ ∀ a ∈ behind, limit ≤ f a
  | [], _ => ⟨[], [], rfl, by simp, by simp⟩
  | a :: l, h => by
    rw [List.pairwise_cons] at h
    by_cases ha : f a < limit
    · obtain ⟨before, behind, rfl, hbefore, hbehind⟩ := exists_switch f limit h.2
      exact ⟨a :: before, behind, rfl, List.forall_mem_cons.2 ⟨ha, hbefore⟩, hbehind⟩
    · have hle := Nat.not_lt.1 ha
      exact ⟨[], a :: l, rfl, by simp, List.forall_mem_cons.2 ⟨hle, fun b hb => hle.trans (h.1 b hb)⟩⟩

/-! ## Samples -/

theorem samples_le_tally (stats : List PolicyStats) (report : Report) :
    (stats.map (·.samples)).sum ≤ ((tally stats report).map (·.samples)).sum := by
  by_cases hlt : report.context.candidate < stats.length
  · have hsum := sum_map_modify (fun s => samples_tell s report) hlt
    rw [tally, hsum]
    exact Nat.le_add_right _ _
  · rw [tally, List.modify_eq_self (Nat.not_lt.1 hlt)]

theorem samples_le_foldl_tally : ∀ (reports : List Report) (stats : List PolicyStats),
    (stats.map (·.samples)).sum ≤ ((reports.foldl tally stats).map (·.samples)).sum
  | [], _ => Nat.le_refl _
  | report :: reports, stats =>
    (samples_le_tally stats report).trans (samples_le_foldl_tally reports (tally stats report))

variable {α : Type}

/-! ## The model of a region -/

namespace Region

variable {r : Region α}

theorem create_warmup {site : CallSite} {policies : List Policy} {model : α} {config : Config}
    (h : create site policies model config = .ok r) :
    r.warmup = config.warmup ∧ r.warmupSamples = config.warmupSamples.toNat := by
  unfold create at h
  split at h
  · cases h
  · split at h
    · cases h
    · cases h
      exact ⟨rfl, rfl⟩

theorem region_releasing (r : Region α) (stream : Stream) (slot : Nat) (work : Option Work)
    (result : Except LoopError Issued) :
    ∃ pool, (r.releasing stream slot work result).region = { r with pool } := by
  unfold releasing
  split
  · exact ⟨r.pool, rfl⟩
  · exact ⟨_, rfl⟩

theorem region_keep (r : Region α) (slot : Nat) (e : Execution) :
    ∃ pool, (r.keep slot e).region = { r with pool } := by
  unfold keep
  split
  · exact ⟨r.pool, rfl⟩
  · exact region_releasing ..
  · exact region_releasing ..

theorem region_issue (r : Region α) (v : Variant) (stream : Stream) (candidate : Nat) (space : IterationSpace)
    (body : Body) (now : Moment) :
    ∃ pool variants, (r.issue v stream candidate space body now).region = { r with pool, variants } := by
  unfold issue
  split
  · split
    · dsimp only
      obtain ⟨pool, heq⟩ := region_keep ({ r with pool := _ }.setVariant candidate _) _ _
      exact ⟨pool, _, heq⟩
    · split
      · exact ⟨r.pool, r.variants, rfl⟩
      · exact ⟨r.pool, _, region_settle _ _⟩
  · exact ⟨r.pool, _, region_settle _ _⟩

variable [Model α]

/-- **A launch tells the model what it reports**, and nothing else. -/
theorem model_launch (r : Region α) (stream : Stream) (plugins : List Plugin) (choice : Choice)
    (space : IterationSpace) (body : Body) (now : Moment) :
    (r.launch stream plugins choice space body now).region.model =
      (reportsAt choice.context
        (r.issue choice.variant stream choice.context.candidate space body now).result).foldl Model.tell r.model := by
  obtain ⟨pool, variants, hregion⟩ :=
    region_issue r choice.variant stream choice.context.candidate space body now
  simp only [Region.launch]
  cases hresult : (r.issue choice.variant stream choice.context.candidate space body now).result with
  | error e =>
    simp only [failUnlessExhausted, reportsAt, hregion]
    split <;> rfl
  | ok issued =>
    cases issued with
    | finished elapsed =>
      simp only [conclude, reportsAt, hregion]
      rfl
    | pending slot launch =>
      simp only [conclude, reportsAt, hregion]
      cases pool.arm slot choice.context launch <;> rfl

/-- **Behind an invocation's poll** the model is asked for the pick, if it is asked, and told what is reported. -/
theorem Equipped.model_proceed (h : r.Equipped) (chosen issued : Stream) (plugins : List Plugin)
    (space : IterationSpace) (body : Body) (now : Moment) :
    (r.proceed chosen issued plugins space body now).region.model =
      (r.reportsOf chosen issued space body now).foldl Model.tell (r.asked (Features.ofSpace space)).model := by
  have htakes := h.takes chosen space
  unfold Region.proceed reportsOf
  generalize r.pick chosen space = p at htakes ⊢
  cases htakes with
  | nothing _ _ => rfl
  | taken hfresh havailable hpolicy hprepared hequipped hvariants => exact model_launch ..

end Region

namespace Session

variable [Model α]

namespace Turn

variable {t : Turn α}

/-! ## Numbers -/

/-- An invocation takes a number, unless its drain fails; then it answers the failure. -/
theorem picked?_eq_none :
    t.picked? = none ↔ t.answer? = none ∨
      ∃ e, (t.before.region.drainSeeing t.seen).2 = .error e ∧ t.answer? = some (.error e) := by
  obtain ⟨s, act⟩ := t
  cases act with
  | stream e => simp [picked?, answer?]
  | drain polling => simp [picked?, answer?]
  | invoke plugins space body now meanwhile =>
    simp only [picked?, answer?, seen, Region.invokeDuring_eq]
    cases s.region.drainSeeing (meanwhile.polling.seen s.stream) with
    | mk r result => cases result <;> simp

theorem picked?_eq_select (h : t.before.region.Sound) (hpicked : t.picked?.isSome = true) :
    t.picked? = some (t.polled.select t.features t.before.region.invocations).1 := by
  obtain ⟨left, counted, hanswers, -⟩ := does h
  cases hanswers with
  | aside hnone _ _ _ => simp [hnone] at hpicked
  | numbered hselect _ _ =>
    have hnumber : t.polled.invocations = t.before.region.invocations :=
      (Region.drainSeeing_moves h.pool h.unreserved t.seen).invocations
    rwa [hnumber] at hselect

theorem picked?_of_ok (h : t.before.region.Sound) {d : Dispatch} (hanswer : t.answer? = some (.ok d)) :
    d.invocation = t.before.region.invocations ∧ t.picked? = some d.candidate := by
  obtain ⟨left, counted, hanswers, -⟩ := does h
  cases hanswers with
  | aside _ hnone _ _ => exact absurd hanswer (hnone d)
  | @numbered hpicked result hresult _ hends =>
    have hnumber : t.polled.invocations = t.before.region.invocations :=
      (Region.drainSeeing_moves h.pool h.unreserved t.seen).invocations
    rw [hanswer, Option.some.injEq] at hresult
    subst hresult
    generalize t.own = own at hends
    cases hends with
    | finished hfresh _ elapsed => exact ⟨hfresh.invocation.trans hnumber, by rw [hpicked, hfresh.pick]⟩
    | left hfresh _ hlaunch => exact ⟨hfresh.invocation.trans hnumber, by rw [hpicked, hfresh.pick]⟩

theorem invocations_after (h : t.before.region.Sound) :
    t.after.region.invocations = t.before.region.invocations + if t.picked?.isSome = true then 1 else 0 := by
  obtain ⟨left, counted, hanswers, hmoves, -, -⟩ := does h
  rw [hmoves.invocations]
  cases hanswers with
  | aside hpicked _ _ _ => simp [hpicked]
  | numbered hpicked _ _ => simp [hpicked]

/-! ## Samples -/

theorem samples_le_polled (h : t.before.region.Sound) : t.before.region.totalSamples ≤ t.polled.totalSamples := by
  have hstats : t.polled.stats = _ := (Region.drainSeeing_moves h.pool h.unreserved t.seen).stats
  rw [Region.totalSamples_eq, Region.totalSamples_eq, hstats]
  exact samples_le_foldl_tally ..

theorem samples_polled_le (h : t.before.region.Sound) : t.polled.totalSamples ≤ t.after.region.totalSamples := by
  have hstats : t.polled.stats = _ := (Region.drainSeeing_moves h.pool h.unreserved t.seen).stats
  obtain ⟨left, counted, -, hmoves, -, -⟩ := does h
  rw [Region.totalSamples_eq, Region.totalSamples_eq, hmoves.stats, reports_eq, List.foldl_append, ← hstats]
  exact samples_le_foldl_tally ..

/-! ## The model -/

theorem model_after (hequipped : t.before.region.Equipped) (hpicked : t.picked?.isSome = true) :
    t.after.region.model = t.own.foldl Model.tell (t.polled.asked t.features).model := by
  obtain ⟨s, act⟩ := t
  cases act with
  | stream e => cases hpicked
  | drain polling => simp [picked?] at hpicked
  | invoke plugins space body now meanwhile =>
    have hpolled := hequipped.drainSeeing (meanwhile.polling.seen s.stream)
    simp only [picked?, after, own, polled, seen, features, atChoice, atLaunch, Region.invokeDuring_eq]
      at hpicked hpolled ⊢
    cases hdrain : s.region.drainSeeing (meanwhile.polling.seen s.stream) with
    | mk r result =>
      rw [hdrain] at hpolled hpicked
      cases result with
      | error e => cases hpicked
      | ok n => exact hpolled.model_proceed ..

/-- An invocation during the warm-up: its candidate goes by its number, and the model is not asked. -/
structure WarmsUp (config : Config) (candidates : Nat) (t : Turn α) : Prop where
  samples : t.polled.totalSamples < config.warmupSamples.toNat
  picked : t.picked? =
    some (if config.warmup = .roundRobin then t.before.region.invocations % candidates else 0)
  model : t.after.region.model = t.own.foldl Model.tell t.polled.model

/-- An invocation behind the warm-up: its candidate is what the model says. -/
structure Asks (config : Config) (candidates : Nat) (t : Turn α) : Prop where
  samples : config.warmupSamples.toNat ≤ t.polled.totalSamples
  picked : t.picked? =
    some (Model.select t.polled.model t.features (t.polled.pool.pendingByCandidate candidates)).1
  model : t.after.region.model = t.own.foldl Model.tell
    (Model.select t.polled.model t.features (t.polled.pool.pendingByCandidate candidates)).2

theorem polled_of_setup {site : CallSite} {policies : List Policy} {model : α} {config : Config} {r : Region α}
    (hr : Region.create site policies model config = .ok r) (hsetup : t.before.region.setup = r.setup) :
    t.polled.warmup = config.warmup ∧ t.polled.warmupSamples = config.warmupSamples.toNat ∧
      t.polled.policies = policies := by
  have hpolled : t.polled.setup = r.setup := (Region.setup_drainSeeing _ _).trans hsetup
  obtain ⟨hwarmup, hsamples⟩ := Region.create_warmup hr
  exact ⟨(congrArg Region.Setup.warmup hpolled).trans hwarmup,
    (congrArg Region.Setup.warmupSamples hpolled).trans hsamples,
    (Region.policies_of_setup hpolled).trans (Region.create_eq_ok hr).1⟩

section
variable {site : CallSite} {policies : List Policy} {model : α} {config : Config} {r : Region α}
  (hr : Region.create site policies model config = .ok r) (h : t.before.region.Sound)
  (hequipped : t.before.region.Equipped) (hsetup : t.before.region.setup = r.setup)
  (hpicked : t.picked?.isSome = true)
include hr h hequipped hsetup hpicked

theorem warmsUp (hfew : t.polled.totalSamples < config.warmupSamples.toNat) : t.WarmsUp config policies.length := by
  obtain ⟨hkind, hlimit, hpolicies⟩ := polled_of_setup hr hsetup
  have hwarm : t.polled.isWarmingUp = true := decide_eq_true (hlimit ▸ hfew)
  refine ⟨hfew, ?_, ?_⟩
  · rw [picked?_eq_select h hpicked, Region.select, if_pos hwarm]
    simp only [Region.warmupPick, hkind, hpolicies]
    cases config.warmup <;> rfl
  · rw [model_after hequipped hpicked]
    simp only [Region.asked, Region.select, hwarm, if_true]

theorem asks (henough : config.warmupSamples.toNat ≤ t.polled.totalSamples) : t.Asks config policies.length := by
  obtain ⟨-, hlimit, hpolicies⟩ := polled_of_setup hr hsetup
  have hwarm : t.polled.isWarmingUp = false := decide_eq_false (hlimit ▸ Nat.not_lt.2 henough)
  refine ⟨henough, ?_, ?_⟩
  · rw [picked?_eq_select h hpicked, Region.select, hwarm, hpolicies]
    rfl
  · rw [model_after hequipped hpicked]
    simp only [Region.asked, Region.select, hwarm, hpolicies]
    rfl

end

end Turn

/-! ## Runs -/

/-- The turns that take a number. -/
def counted (s : Session α) (acts : List Act) : List (Turn α) :=
  (s.turns acts).filter (·.picked?.isSome)

theorem counted_cons (s : Session α) (act : Act) (acts : List Act) :
    s.counted (act :: acts) = if (Turn.picked? ⟨s, act⟩).isSome = true then
      ⟨s, act⟩ :: (Turn.after ⟨s, act⟩).counted acts else (Turn.after ⟨s, act⟩).counted acts := by
  rw [counted, turns, List.filter_cons]
  rfl

/-- **Numbers are taken without a gap.** -/
theorem map_invocations_counted : ∀ (acts : List Act) {s : Session α}, s.region.Sound →
    (s.counted acts).map (·.before.region.invocations) =
      List.range' s.region.invocations (s.counted acts).length
  | [], _, _ => rfl
  | act :: acts, s, h => by
    have hnumber := Turn.invocations_after (t := ⟨s, act⟩) h
    have hrest := map_invocations_counted acts (Turn.sound_after (t := ⟨s, act⟩) h)
    rw [hnumber] at hrest
    rw [counted_cons]
    split
    · next hpicked =>
      rw [if_pos hpicked] at hrest
      rw [List.map_cons, hrest, List.length_cons, List.range'_succ]
    · next hpicked =>
      rw [if_neg hpicked] at hrest
      exact hrest

theorem samples_le_turns : ∀ {acts : List Act} {s : Session α}, s.region.Sound →
    ∀ t ∈ s.turns acts, s.region.totalSamples ≤ t.polled.totalSamples
  | [], _, _ => by simp [turns]
  | act :: acts, s, h => by
    have hfirst := Turn.samples_le_polled (t := ⟨s, act⟩) h
    have hafter := hfirst.trans (Turn.samples_polled_le (t := ⟨s, act⟩) h)
    rw [turns, List.forall_mem_cons]
    exact ⟨hfirst, fun t ht => hafter.trans (samples_le_turns (Turn.sound_after (t := ⟨s, act⟩) h) t ht)⟩

/-- **Samples never get fewer** from one turn to the next. -/
theorem pairwise_turns : ∀ {acts : List Act} {s : Session α}, s.region.Sound →
    (s.turns acts).Pairwise fun t u => t.polled.totalSamples ≤ u.polled.totalSamples
  | [], _, _ => .nil
  | act :: acts, s, h => by
    have hsound := Turn.sound_after (t := ⟨s, act⟩) h
    rw [turns, List.pairwise_cons]
    exact ⟨fun u hu => (Turn.samples_polled_le (t := ⟨s, act⟩) h).trans (samples_le_turns hsound u hu),
      pairwise_turns hsound⟩

/-- **Where candidates take turns** none is picked twice more often than another. -/
theorem countP_picked_le {config : Config} {candidates : Nat} {warm window : List (Turn α)} {n : Nat}
    (hnumbers : warm.map (·.before.region.invocations) <+: List.range n)
    (hwarm : ∀ t ∈ warm, t.WarmsUp config candidates) (hkind : config.warmup = .roundRobin)
    (hwindow : window <:+: warm) {i j : Nat} (hi : i < candidates) (hj : j < candidates) :
    window.countP (·.picked? == some i) ≤ window.countP (·.picked? == some j) + 1 := by
  obtain ⟨first, hrow⟩ := eq_range'_of_infix ((hwindow.map _).trans hnumbers.isInfix)
  have hcount : ∀ k, window.countP (·.picked? == some k) =
      (window.map (·.before.region.invocations)).countP (· % candidates == k) := by
    intro k
    rw [List.countP_map]
    refine List.countP_congr fun t ht => ?_
    rw [(hwarm t (hwindow.subset ht)).picked, if_pos hkind]
    simp
  rw [hcount, hcount, hrow]
  exact countP_mod_le hi hj first _

/--
**The warm-up happens once, and is fair**, in every session with a new region, whatever fails and whenever
launches are complete.

The invocations that get past their own drain are numbered from 0 on without a gap, and one whose drain fails
answers that failure and takes no number. The first of them are the warm-up: as long as there are fewer samples
than the warm-up takes, those collected by the invocation's own drain included, it runs candidate 0, or the
candidate whose turn it is by its number, and the model is told of samples and not asked. All others run what the
model says. Of the candidates that take turns, two are picked equally often within any part of the warm-up, but
for one. And with a mean-time model no call is a defect.
-/
theorem turns_warm_up {site : CallSite} {policies : List Policy} {model : α} {config : Config} {r : Region α}
    (hr : Region.create site policies model config = .ok r) (stream : Stream) (acts : List Act) :
    let s : Session α := ⟨r, stream⟩
    (s.counted acts).map (·.before.region.invocations) = List.range (s.counted acts).length ∧
    (∀ t ∈ s.turns acts,
      (t.picked? = none ↔ t.answer? = none ∨
        ∃ e, (t.before.region.drainSeeing t.seen).2 = .error e ∧ t.answer? = some (.error e)) ∧
      (t.picked? = none → t.after.region.invocations = t.before.region.invocations) ∧
      ∀ d, t.answer? = some (.ok d) →
        d.invocation = t.before.region.invocations ∧ t.picked? = some d.candidate) ∧
    (∃ warm rest, s.counted acts = warm ++ rest ∧
      (∀ t ∈ warm, t.WarmsUp config policies.length) ∧ (∀ t ∈ rest, t.Asks config policies.length) ∧
      (config.warmup = .roundRobin → ∀ window, window <:+: warm →
        ∀ i < policies.length, ∀ j < policies.length,
          window.countP (·.picked? == some i) ≤ window.countP (·.picked? == some j) + 1)) ∧
    ∀ (m : MeanTime) (r' : Region MeanTime), Region.create site policies m config = .ok r' →
      ∀ acts', ∀ t ∈ Session.turns ⟨r', stream⟩ acts', ∀ e, t.error? = some e → e.isDefect = false := by
  intro s
  have hsound : s.region.Sound := Region.create_sound hr
  have hkept : ∀ t ∈ s.turns acts,
      t.before.region.Sound ∧ t.before.region.Equipped ∧ t.before.region.setup = r.setup := by
    let P : Session α → Prop := fun s' => s'.region.Sound ∧ s'.region.Equipped ∧ s'.region.setup = r.setup
    have hafter : ∀ t : Turn α, P t.before → P t.after := by
      rintro t ⟨h, hequipped, hsetup⟩
      obtain ⟨hsame, hnext⟩ := Turn.setup_after hequipped
      exact ⟨Turn.sound_after h, hnext, hsame.trans hsetup⟩
    exact fun t ht => (forall_turns hafter ⟨hsound, Region.create_equipped hr, rfl⟩ t ht).1
  have hnumbers : (s.counted acts).map (·.before.region.invocations) = List.range (s.counted acts).length := by
    have hzero : s.region.invocations = 0 := (Region.create_eq_ok hr).2.2.2.2.2
    rw [map_invocations_counted acts hsound, hzero, List.range_eq_range']
  refine ⟨hnumbers, fun t ht => ⟨Turn.picked?_eq_none, fun hnone => ?_, fun d hanswer => ?_⟩, ?_, ?_⟩
  · rw [Turn.invocations_after (hkept t ht).1, hnone]
    rfl
  · exact Turn.picked?_of_ok (hkept t ht).1 hanswer
  · obtain ⟨warm, rest, hsplit, hfew, henough⟩ := exists_switch (fun t : Turn α => t.polled.totalSamples)
      config.warmupSamples.toNat ((pairwise_turns hsound).filter (p := fun t : Turn α => t.picked?.isSome))
    have hcounted : s.counted acts = warm ++ rest := hsplit
    have hmem : ∀ t, t ∈ warm ∨ t ∈ rest → t ∈ s.turns acts ∧ t.picked?.isSome = true := fun t ht =>
      List.mem_filter.1 (hcounted ▸ List.mem_append.2 ht)
    have hwarm : ∀ t ∈ warm, t.WarmsUp config policies.length := by
      intro t ht
      obtain ⟨hturn, hpicked⟩ := hmem t (.inl ht)
      obtain ⟨h, hequipped, hsetup⟩ := hkept t hturn
      exact Turn.warmsUp hr h hequipped hsetup hpicked (hfew t ht)
    refine ⟨warm, rest, hcounted, hwarm, fun t ht => ?_, fun hkind window hwindow i hi j hj => ?_⟩
    · obtain ⟨hturn, hpicked⟩ := hmem t (.inr ht)
      obtain ⟨h, hequipped, hsetup⟩ := hkept t hturn
      exact Turn.asks hr h hequipped hsetup hpicked (henough t ht)
    · refine countP_picked_le (n := (s.counted acts).length) ?_ hwarm hkind hwindow hi hj
      rw [← hnumbers, hcounted, List.map_append]
      exact List.prefix_append ..
  · intro m r' hr' acts'
    obtain ⟨hpolicies, -, -, -, hmodel, -⟩ := Region.create_eq_ok hr'
    have hsome : 0 < r'.policies.length := hpolicies ▸ Region.create_policies hr'
    exact isDefect_of_turns (Region.create_sound hr') (MeanTime.inRange _ hsome) hsome

/-- Two candidates take turns, of which the second fails, until there are two samples; then the model picks it. -/
theorem turns_warm_up_in_turn :
    let config := { Config.default with warmup := .roundRobin, warmupSamples := 2 }
    let loop (body : Body) : Act := .invoke [] ⟨[⟨0, 8⟩]⟩ body ⟨.serial, ⟨10⟩⟩ .still
    let acts := [loop fun _ => none, loop fun _ => some (.literal "boom"), loop fun _ => none, loop fun _ => none]
    ∃ r, Region.create (.named "saxpy") [.sequential, .threaded 4] (Fixed.ofIndex 1) config = .ok r ∧
      let s : Session Fixed := ⟨r, .empty⟩
      (s.counted acts).map (·.picked?) = [some 0, some 1, some 0, some 1] ∧
        (s.counted acts).map (·.polled.totalSamples) = [0, 1, 1, 2] ∧
        (s.counted acts).map (·.before.region.invocations) = List.range (s.counted acts).length ∧
        ∃ warm rest, s.counted acts = warm ++ rest ∧
          (∀ t ∈ warm, t.WarmsUp config 2) ∧ (∀ t ∈ rest, t.Asks config 2) ∧
          warm.countP (·.picked? == some 0) ≤ warm.countP (·.picked? == some 1) + 1 := by
  intro config loop acts
  obtain ⟨r, hr⟩ : ∃ r, Region.create (.named "saxpy") [.sequential, .threaded 4] (Fixed.ofIndex 1) config = .ok r :=
    ⟨_, rfl⟩
  obtain ⟨hnumbers, -, ⟨warm, rest, hsplit, hwarm, hrest, hturns⟩, -⟩ := turns_warm_up hr .empty acts
  obtain ⟨hpicks, hsamples⟩ : ((Session.mk r .empty).counted acts).map (·.picked?) = [some 0, some 1, some 0, some 1] ∧
      ((Session.mk r .empty).counted acts).map (·.polled.totalSamples) = [0, 1, 1, 2] := by
    cases hr
    decide +kernel
  exact ⟨r, hr, hpicks, hsamples, hnumbers, warm, rest, hsplit, hwarm, hrest,
    hturns rfl warm (List.infix_refl warm) 0 (by decide) 1 (by decide)⟩

end Session

end AdaptiveLoops
