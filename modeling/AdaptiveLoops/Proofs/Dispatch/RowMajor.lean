/-
Loops in order.

A nest of loops that all run in order passes the tuples of its space to the
body one by one, as they are listed, and its first panic ends all of it
(`run_nestFrom_inOrder`). The induction is on the loops still to come. While
one of them goes on, what lies inside it may leave indices of larger
dimensions behind, and none of those matters to its next step.

The tuples are listed in row-major order, so what was called and where it
stopped can be said without the list (`Execution.RowMajor`).
-/
import AdaptiveLoops.Proofs.Dispatch.Coverage
import AdaptiveLoops.Proofs.IterationSpace.RowMajor

namespace AdaptiveLoops

open Device (Stream)

namespace Progress

/-- A walk that passes `ts` to the body in this order, up to the first tuple on which it panics. -/
inductive InOrder (body : LoopBody) (ts : List Tuple) (p : Progress) : Prop where
  | whole (hquiet : ∀ t ∈ ts, body t = none) (hvisits : p.visits.toList = ts) (hfault : p.fault = none)
  | cut (before after : List Tuple) {t : Tuple} {payload : Payload} (hts : ts = before ++ t :: after)
      (hbefore : ∀ u ∈ before, body u = none) (hpanic : body t = some payload)
      (hvisits : p.visits.toList = before ++ [t]) (hfault : p.fault = some (.panic payload))

namespace InOrder

variable {body : LoopBody} {ts ts' : List Tuple} {p : Progress}

theorem start (body : LoopBody) (f : Frame) : InOrder body [] (start f) :=
  .whole (by simp) (by simp) rfl

theorem andThen {next : Frame → Progress} (h : InOrder body ts p)
    (hnext : p.fault = none → InOrder body ts' (next p.frame)) : InOrder body (ts ++ ts') (p.andThen next) := by
  cases h with
  | whole hquiet hvisits hfault =>
    have hboth : ∀ {us}, (next p.frame).visits.toList = us → (p.andThen next).visits.toList = ts ++ us := by
      rintro _ rfl
      rw [visits_andThen hfault, Array.toList_append, hvisits]
    cases hnext hfault with
    | whole hquiet' hvisits' hfault' =>
      refine .whole ?_ (hboth hvisits') ((fault_andThen hfault).trans hfault')
      exact List.forall_mem_append.2 ⟨hquiet, hquiet'⟩
    | cut before after hts hbefore hpanic hvisits' hfault' =>
      refine .cut (ts ++ before) after ?_ ?_ hpanic ?_ ((fault_andThen hfault).trans hfault')
      · rw [hts, List.append_assoc]
      · exact List.forall_mem_append.2 ⟨hquiet, hbefore⟩
      · rw [hboth hvisits', List.append_assoc]
  | cut before after hts hbefore hpanic hvisits hfault =>
    rw [andThen_of_fault hfault]
    refine .cut before (after ++ ts') ?_ hbefore hpanic hvisits hfault
    rw [hts, List.append_assoc, List.cons_append]

theorem iterate {P : Frame → Prop} {F : Nat → List Tuple} {step : Nat → Frame → Progress}
    (hstep : ∀ k g, P g → InOrder body (F k) (step k g))
    (hframe : ∀ k g, P g → (step k g).fault = none → P (step k g).frame) :
    ∀ (n first : Nat) {f : Frame}, P f →
      InOrder body ((List.range' first n).flatMap F) (iterate step n first (.start f))
  | 0, _, f, _ => start body f
  | n + 1, first, f, hf => by
    rw [iterate_succ, start_andThen, iterate_eq_andThen, List.range'_succ, List.flatMap_cons]
    exact (hstep first f hf).andThen fun hnone => iterate hstep hframe n (first + 1) (hframe first f hf hnone)

/-! ## In row-major order -/

section

variable (h : InOrder body ts p) (hts : ts.Pairwise Tuple.Before)

include h hts

theorem pairwise : p.visits.toList.Pairwise Tuple.Before := by
  cases h with
  | whole _ hvisits _ => rwa [hvisits]
  | cut _ _ hcut _ _ hvisits _ =>
    rw [hvisits]
    rw [hcut, ← List.singleton_append, ← List.append_assoc] at hts
    exact (List.pairwise_append.1 hts).1

/-- **A tuple is called where none before it panics.** -/
theorem mem_visits_iff {t : Tuple} :
    t ∈ p.visits ↔ t ∈ ts ∧ ∀ u ∈ ts, u.Before t → body u = none := by
  rw [← Array.mem_toList_iff]
  cases h with
  | whole hquiet hvisits _ =>
    rw [hvisits]
    exact ⟨fun ht => ⟨ht, fun u hu _ => hquiet u hu⟩, And.left⟩
  | @cut before _ x payload hcut hbefore hpanic hvisits _ =>
    rw [hvisits]
    subst hcut
    obtain ⟨-, hafter, hacross⟩ := List.pairwise_append.1 hts
    rw [List.pairwise_cons] at hafter
    constructor
    · intro ht
      refine ⟨?_, fun u hu hut => ?_⟩
      · simp only [List.mem_append, List.mem_cons, List.not_mem_nil, or_false] at ht ⊢
        exact ht.imp_right .inl
      · -- Only tuples before the panic are before a tuple up to the panic.
        refine hbefore u ((List.mem_append.1 hu).resolve_right fun hu => t.not_before_self (.trans ?_ hut))
        rcases List.mem_append.1 ht with ht | ht
        · exact hacross t ht u hu
        · obtain rfl := List.mem_singleton.1 ht
          rcases List.mem_cons.1 hu with rfl | hu
          · exact absurd hut u.not_before_self
          · exact hafter.1 u hu
    · rintro ⟨ht, hquiet⟩
      rcases List.mem_append.1 ht with ht | ht
      · exact List.mem_append_left _ ht
      · rcases List.mem_cons.1 ht with rfl | ht
        · simp
        · have hx := hquiet x (by simp) (hafter.1 t ht)
          rw [hpanic] at hx
          cases hx

end

end InOrder

end Progress

/-! ## Nests of loops -/

theorem IterationSpace.map_product_drop {ranges : List Segment} {dim : Nat} {s : Segment}
    (hs : ranges[dim]? = some s) (front : Tuple) :
    (product (ranges.drop dim)).map (front ++ ·) = (List.range' 0 s.length).flatMap fun k =>
      (product (ranges.drop (dim + 1))).map ((front ++ [s.index k]) ++ ·) := by
  obtain ⟨hdim, hs⟩ := List.getElem?_eq_some_iff.1 hs
  rw [List.drop_eq_getElem_cons hdim, hs]
  simp [product, Segment.indices, List.map_flatMap, List.flatMap_map, List.range_eq_range', Function.comp_def]

/-- What is kept of all dimensions below `dim` is the front of the tuple. -/
theorem Frame.Keeps.take {changed : Nat → Prop} {f g : Frame} (h : Keeps changed f g) {dim : Nat}
    (hdim : ∀ d < dim, ¬ changed d) : g.index.take dim = f.index.take dim := by
  refine List.ext_getElem? fun d => ?_
  by_cases hd : d < dim
  · rw [List.getElem?_take_of_lt hd, List.getElem?_take_of_lt hd, h.index d (hdim d hd)]
  · rw [List.getElem?_take_eq_none (Nat.not_lt.1 hd), List.getElem?_take_eq_none (Nat.not_lt.1 hd)]

namespace Walker

open Progress

variable (w : Walker)

theorem runAll_singleton (path : Path) (position : Nat) (t : Statement) (f : Frame) :
    w.runAll path position [t] f = w.run (position :: path) t f := by
  rw [runAll]
  exact (congrArg _ (funext fun g => by rw [runAll])).trans (andThen_start _)

/-- **A nest of loops in order** calls its body on the tuples below the indices that are already set. -/
theorem run_nestFrom_inOrder {body : LoopBody} (hbody : w.body = body) : ∀ (count dim : Nat) (path : Path) (f : Frame),
    f.ranges.length = dim + count → f.index.length = dim + count →
      InOrder body ((IterationSpace.product (f.ranges.drop dim)).map (f.index.take dim ++ ·))
        (w.run path (Statement.nestFrom .sequential dim count) f)
  | 0, dim, path, f, hr, hi => by
    have hts : (IterationSpace.product (f.ranges.drop dim)).map (f.index.take dim ++ ·) = [f.index] := by
      rw [List.drop_eq_nil_of_le (by omega), List.take_of_length_le (by omega)]
      simp [IterationSpace.product]
    rw [hts, Statement.nestFrom, run]
    cases hpanic : body f.index with
    | none => exact .whole (by simpa using hpanic) (by simp) (by simp [call, hbody, hpanic])
    | some payload => exact .cut [] [] rfl (by simp) hpanic (by simp) (by simp [call, hbody, hpanic])
  | count + 1, dim, path, f, hr, hi => by
    obtain ⟨s, hs⟩ : ∃ s, f.ranges[dim]? = some s := ⟨_, List.getElem?_eq_getElem (by omega)⟩
    have hinner : ∀ k (g : Frame), Frame.Keeps (dim ≤ ·) f g →
        Frame.Keeps (dim ≤ ·) f (g.setIndex dim (s.index k)) := fun k g hg =>
      hg.trans ((Frame.Keeps.setIndex g dim _).mono fun d hd => Nat.le_of_eq hd)
    simp only [IterationSpace.map_product_drop hs, Statement.nestFrom, run, hs, loop, grain?, runAll_singleton]
    refine InOrder.iterate (P := Frame.Keeps (dim ≤ ·) f) (fun k g hg => ?_) (fun k g hg hnone => ?_) _ _ (.refl f)
    · have hk := hinner k g hg
      have hnest := run_nestFrom_inOrder hbody count (dim + 1) (0 :: k :: path) (g.setIndex dim (s.index k))
        (by rw [hk.ranges]; omega) (by rw [hk.length]; omega)
      have hfront : (g.setIndex dim (s.index k)).index.take (dim + 1) = f.index.take dim ++ [s.index k] := by
        rw [Frame.setIndex, Statement.take_set_self (by rw [hg.length]; omega), hg.take fun d hd => Nat.not_le.2 hd]
      rwa [hfront, hk.ranges] at hnest
    · -- The loops inside set indices of larger dimensions only.
      have hvalid : Statement.checkBelow (dim + 1 + count) (some dim)
          (Statement.nestFrom .sequential (dim + 1) count) = .ok () :=
        Statement.checkBelow_nestFrom (Statement.inside_some.2 (Nat.lt_succ_self dim))
      refine (hinner k g hg).trans ((w.run_keeps _ _ _ hnone).mono fun d hd => ?_)
      exact Nat.le_of_lt (Statement.inside_some.1 (Statement.leaves_inside hvalid hd))

theorem run_nest_inOrder (body : LoopBody) (hbody : w.body = body) (space : IterationSpace) :
    InOrder body space.tuples (w.run [] (.nest .sequential space.rank) (.ofSpace space)) := by
  have h := w.run_nestFrom_inOrder hbody space.rank 0 [] (.ofSpace space)
    (by simp [Frame.ofSpace, IterationSpace.rank]) (by simp [Frame.ofSpace, IterationSpace.rank])
  simpa [IterationSpace.tuples, Frame.ofSpace, Statement.nest] using h

end Walker

/-! ## Execution -/

/-- The body panics on `t` with `payload`, and on no tuple of the space before `t`. -/
structure IterationSpace.FirstPanic (space : IterationSpace) (body : LoopBody) (t : Tuple) (payload : Payload) :
    Prop where
  contains : space.Contains t
  panics : body t = some payload
  quiet : ∀ u, space.Contains u → u.Before t → body u = none

/-- A loop that ran over the space in row-major order, up to its first panic. -/
structure Execution.RowMajor (e : Execution) (stream : Stream) (space : IterationSpace) (body : LoopBody)
    (work : Work) : Prop where
  issued : e.work = some work
  stream : e.stream = stream
  sorted : work.visits.toList.Pairwise Tuple.Before
  called : ∀ t, t ∈ work.visits ↔ space.Contains t ∧ ∀ u, space.Contains u → u.Before t → body u = none
  complete : (∃ elapsed, e.result = .ok (.complete elapsed)) ↔ ∀ t, space.Contains t → body t = none
  failed : (∃ t, space.Contains t ∧ body t ≠ none) → ∃ t payload, space.FirstPanic body t payload ∧
    work.visits.toList.getLast? = some t ∧ e.result = .error (.backendFailure .sequential payload.message)

namespace Statement

open Progress

variable {space : IterationSpace} {body : LoopBody}

theorem runHost_rowMajor {p : Progress} (h : p.InOrder body space.tuples) (stream : Stream) (elapsed : Duration) :
    (runHost stream .sequential (.ofProgress p elapsed)).RowMajor stream space body (.ofProgress p elapsed) where
  issued := rfl
  stream := rfl
  sorted := h.pairwise space.pairwise_tuples
  called t := by
    simp only [← IterationSpace.mem_tuples]
    exact h.mem_visits_iff space.pairwise_tuples
  complete := by
    simp only [← IterationSpace.mem_tuples]
    cases h with
    | whole hquiet _ hfault =>
      have hnone : (Work.ofProgress p elapsed).failure? = none := Option.map_eq_none_iff.2 hfault
      simpa [result_runHost_complete hnone] using hquiet
    | @cut _ _ t payload hts _ hpanic _ hfault =>
      simp only [result_runHost_failed (Work.failure?_ofProgress hfault elapsed), reduceCtorEq, exists_false, false_iff]
      intro hquiet
      rw [hquiet t (by simp [hts])] at hpanic
      cases hpanic
  failed := by
    rintro ⟨u, hu, hpanics⟩
    rw [← IterationSpace.mem_tuples] at hu
    have hcalled := fun t => h.mem_visits_iff space.pairwise_tuples (t := t)
    cases h with
    | whole hquiet _ _ => exact absurd (hquiet u hu) hpanics
    | @cut _ _ t payload _ _ hpanic hvisits hfault =>
      have hfirst := (hcalled t).1 (Array.mem_toList_iff.1 (by simp [hvisits]))
      simp only [IterationSpace.mem_tuples] at hfirst
      refine ⟨t, payload, ⟨hfirst.1, hpanic, hfirst.2⟩, ?_,
        result_runHost_failed (Work.failure?_ofProgress hfault elapsed)⟩
      show p.visits.toList.getLast? = some t
      rw [hvisits, List.getLast?_concat]

/--
**A sequential loop runs in row-major order, up to its first panic**: every
space has a tree, that without dimensions as well. Each tuple is called once
none before it panicked, in ascending order, and the first one to panic is
the last one to be called. Its message is the failure's: a payload that is a
text is passed on as it is, and any other as one fixed text.
-/
theorem execute_sequential (space : IterationSpace) (body : LoopBody) (stream : Stream) (now : Moment) :
    (∃ tree work, build space .sequential = .ok tree ∧
      (tree.execute stream .sequential space body now).RowMajor stream space body work) ∧
    (∀ text, (Payload.literal text).message = text ∧ (Payload.text text).message = text) ∧
    Payload.other.message = "loop body panicked" := by
  have hvalid : (ofPolicy .sequential space.rank).validate space.rank = .ok () :=
    validate_eq_ok.2 checkBelow_nest
  have hwalk := (Walker.mk body now.schedule false).run_nest_inOrder body rfl space
  refine ⟨⟨_, _, by rw [build, hvalid]; rfl, runHost_rowMajor hwalk stream now.elapsed⟩, fun _ => ⟨rfl, rfl⟩, rfl⟩

end Statement

end AdaptiveLoops
