/-
Walks whose body panics.

A walk is compared with the walk of the same tree whose body never panics,
the quiet one. `CutShort` says what a panic can change: the walk ends where
the quiet one does, or at the panic of a call that it made, and no call is
made that the quiet walk does not make. Each way of putting walks together
keeps this, and so does every tree (`run_cutShort`).

For a body that goes by the tuple, what follows depends on the tuples of the
tree alone (`Attempts`). A walk has no fault exactly where there is room and
none of its tuples panics, however its parallel loops are split.
-/
import AdaptiveLoops.Proofs.Walk.Scheduling

namespace AdaptiveLoops

namespace Progress

/-! ## Parts of a walk -/

theorem mem_calls_andThen {p : Progress} {next : Frame → Progress} {c : Call} (hc : c ∈ p.calls) :
    c ∈ (p.andThen next).calls := by
  cases hp : p.fault with
  | none =>
    rw [calls_andThen hp]
    exact Array.mem_append_left _ hc
  | some fault => rwa [andThen_of_fault hp]

theorem mem_calls_parallel {step : Nat → Frame → Progress} {f : Frame} {runs : List Run} {c : Call} :
    c ∈ (parallel step f runs).calls ↔
      ∃ r ∈ runs, c ∈ (iterate step r.size r.first (.start f)).calls := by
  rw [← Array.mem_toList_iff, calls_parallel]
  simp

/-! ## Cutting short -/

/-- What panics of the body make of the walk `quiet`. -/
structure CutShort (body : Body) (p quiet : Progress) : Prop where
  within : ∀ c ∈ p.calls, c ∈ quiet.calls
  whole : p.fault = none → p = quiet ∧ ∀ c ∈ p.calls, body c = none
  fault : ∀ fault, p.fault = some fault →
    quiet.fault = some fault ∨ ∃ c ∈ p.calls, (body c).map Fault.panic = some fault

namespace CutShort

variable {body : Body} {p quiet : Progress}

theorem of_empty (h : p.calls = #[]) : CutShort body p p where
  within _ hc := hc
  whole _ := ⟨rfl, by simp [h]⟩
  fault _ hf := .inl hf

theorem andThen {next next' : Frame → Progress} (h : CutShort body p quiet)
    (hnext : ∀ f, CutShort body (next f) (next' f)) :
    CutShort body (p.andThen next) (quiet.andThen next') := by
  cases hp : p.fault with
  | none =>
    -- Up to here nothing was cut short, so both go on from one frame.
    obtain ⟨rfl, hquiet⟩ := h.whole hp
    have hn := hnext p.frame
    refine ⟨fun c hc => ?_, fun hf => ?_, fun fault hf => ?_⟩
    · rw [calls_andThen hp, Array.mem_append] at hc ⊢
      exact hc.imp_right (hn.within c)
    · rw [fault_andThen hp] at hf
      obtain ⟨heq, hrest⟩ := hn.whole hf
      refine ⟨andThen_congr fun _ => heq, fun c hc => ?_⟩
      rw [calls_andThen hp, Array.mem_append] at hc
      exact hc.elim (hquiet c) (hrest c)
    · rw [fault_andThen hp] at hf ⊢
      rcases hn.fault fault hf with hsame | ⟨c, hc, hpanic⟩
      · exact .inl hsame
      · refine .inr ⟨c, ?_, hpanic⟩
        rw [calls_andThen hp]
        exact Array.mem_append_right _ hc
  | some fault =>
    rw [andThen_of_fault hp]
    refine ⟨fun c hc => mem_calls_andThen (h.within c hc), fun hf => ?_, fun fault' hf => ?_⟩
    · rw [hp] at hf
      cases hf
    · exact (h.fault fault' hf).imp_left fun hsame => by rw [andThen_of_fault hsame, hsame]

theorem mapFrame (h : CutShort body p quiet) (change : Frame → Frame) :
    CutShort body (p.mapFrame change) (quiet.mapFrame change) := by
  refine ⟨?_, fun hf => ?_, ?_⟩
  · simpa using h.within
  · rw [fault_mapFrame] at hf
    obtain ⟨rfl, hquiet⟩ := h.whole hf
    exact ⟨rfl, by simpa using hquiet⟩
  · simpa using h.fault

theorem iterate {step step' : Nat → Frame → Progress}
    (hstep : ∀ k f, CutShort body (step k f) (step' k f)) :
    ∀ (n first : Nat) {p quiet : Progress}, CutShort body p quiet →
      CutShort body (Progress.iterate step n first p) (Progress.iterate step' n first quiet) :=
  iterate_rel andThen hstep

theorem parallel {step step' : Nat → Frame → Progress}
    (hstep : ∀ k f, CutShort body (step k f) (step' k f)) (f : Frame) (runs : List Run) :
    CutShort body (parallel step f runs) (parallel step' f runs) := by
  have hrun : ∀ r : Run, CutShort body (Progress.iterate step r.size r.first (.start f))
      (Progress.iterate step' r.size r.first (.start f)) := fun r =>
    iterate hstep r.size r.first (of_empty rfl)
  refine ⟨fun c hc => ?_, fun hf => ?_, fun fault hf => ?_⟩
  · rw [mem_calls_parallel] at hc ⊢
    obtain ⟨r, hr, hc⟩ := hc
    exact ⟨r, hr, (hrun r).within c hc⟩
  · simp only [Progress.parallel, List.findSome?_map, List.findSome?_eq_none_iff] at hf
    have hparts : (runs.map fun r => Progress.iterate step r.size r.first (.start f)) =
        runs.map fun r => Progress.iterate step' r.size r.first (.start f) :=
      List.map_congr_left fun r hr => ((hrun r).whole (hf r hr)).1
    refine ⟨by simp only [Progress.parallel, hparts], fun c hc => ?_⟩
    obtain ⟨r, hr, hc⟩ := mem_calls_parallel.1 hc
    exact ((hrun r).whole (hf r hr)).2 c hc
  · -- The runs before the first one with a fault are those of the quiet walk.
    simp only [Progress.parallel, List.findSome?_map, List.findSome?_eq_some_iff] at hf
    obtain ⟨before, r, after, rfl, hr, hbefore⟩ := hf
    rcases (hrun r).fault fault hr with hsame | ⟨c, hc, hpanic⟩
    · left
      simp only [Progress.parallel, List.findSome?_map, List.findSome?_eq_some_iff]
      refine ⟨before, r, after, rfl, hsame, fun r' hr' => ?_⟩
      have hnone := hbefore r' hr'
      rwa [Function.comp_apply, ((hrun r').whole hnone).1] at hnone
    · exact .inr ⟨c, mem_calls_parallel.2 ⟨r, by simp, hc⟩, hpanic⟩

end CutShort

/-! ## Attempts -/

/-- What a walk comes to that passes `ts` to the body, where there is room, and ends at a panic. -/
structure Attempts (body : LoopBody) (room : Prop) (ts : List Tuple) (p : Progress) : Prop where
  perm : p.fault = none → p.visits.toList.Perm ts
  fault_eq_none_iff : p.fault = none ↔ room ∧ ∀ x ∈ ts, body x = none
  fault : ∀ fault, p.fault = some fault →
    (¬ room ∧ fault = .noRoom) ∨ ∃ x ∈ p.visits, (body x).map Fault.panic = some fault

/-- **A walk that is cut short attempts** what the quiet one does. -/
theorem CutShort.attempts {body : LoopBody} {room : Prop} {ts : List Tuple} {p quiet : Progress}
    (h : CutShort body p quiet) (hyields : Yields room ts quiet) : Attempts body room ts p := by
  have hsilent : (∀ c ∈ p.calls, body c.index = none) ↔ ∀ x ∈ p.visits, body x = none := by
    simp only [mem_visits, forall_exists_index, and_imp, forall_apply_eq_imp_iff₂]
  refine ⟨fun hf => ?_, ⟨fun hf => ?_, fun ⟨hroom, hnone⟩ => ?_⟩, fun fault hf => ?_⟩
  · obtain ⟨rfl, -⟩ := h.whole hf
    exact (hyields.done (hyields.room hf)).2
  · obtain ⟨rfl, hnone⟩ := h.whole hf
    have hroom := hyields.room hf
    exact ⟨hroom, fun x hx => hsilent.1 hnone x (Array.mem_toList_iff.1 ((hyields.done hroom).2.mem_iff.2 hx))⟩
  · obtain ⟨hquiet, hperm⟩ := hyields.done hroom
    by_contra hf
    obtain ⟨fault, hfault⟩ := Option.ne_none_iff_exists'.1 hf
    rcases h.fault fault hfault with hsame | ⟨c, hc, hpanic⟩
    · rw [hquiet] at hsame
      cases hsame
    · have hx : c.index ∈ ts :=
        hperm.mem_iff.1 (Array.mem_toList_iff.2 (mem_visits.2 ⟨c, h.within c hc, rfl⟩))
      rw [hnone _ hx] at hpanic
      cases hpanic
  · rcases h.fault fault hf with hsame | ⟨c, hc, hpanic⟩
    · refine .inl ⟨fun hroom => ?_, hyields.eq_noRoom hsame⟩
      rw [(hyields.done hroom).1] at hsame
      cases hsame
    · exact .inr ⟨c.index, mem_visits.2 ⟨c, hc, rfl⟩, hpanic⟩

end Progress

namespace Walker

open Progress

/-- The walker of a body that never panics. -/
def quiet (w : Walker) : Walker := { w with body := fun _ => none }

variable (w : Walker)

theorem call_cutShort (path : Path) (f : Frame) : CutShort w.body (w.call path f) (w.quiet.call path f) := by
  refine ⟨fun c hc => hc, fun hf => ?_, fun fault hf => .inr ⟨⟨path, f.index⟩, by simp [call], hf⟩⟩
  have hnone : w.body ⟨path, f.index⟩ = none := Option.map_eq_none_iff.1 hf
  refine ⟨?_, by simpa [call] using hnone⟩
  rw [call, hnone]
  rfl

theorem loop_cutShort {path : Path} {dim : Nat} {policy : Policy} {s : Segment}
    {body body' : Path → Frame → Progress} (h : ∀ path f, CutShort w.body (body path f) (body' path f))
    (f : Frame) :
    CutShort w.body (w.loop path dim policy s body f) (w.quiet.loop path dim policy s body' f) := by
  rw [loop, loop]
  split
  · exact CutShort.iterate (fun k g => h _ _) _ _ (.of_empty rfl)
  · refine CutShort.parallel (fun k g => ?_) f _
    split
    · exact h _ _
    · exact .of_empty rfl

theorem pieces_cutShort {path : Path} {dim : Nat} {length : UInt64} {s : Segment}
    {body body' : Path → Frame → Progress} (h : ∀ path f, CutShort w.body (body path f) (body' path f))
    (f : Frame) :
    CutShort w.body (w.pieces path dim length s body f) (w.quiet.pieces path dim length s body' f) := by
  cases hdev : w.onDevice with
  | true =>
    simp only [pieces, quiet, hdev, if_true]
    split
    · exact .of_empty rfl
    · exact CutShort.parallel (fun k g => h _ _) f _
  | false =>
    simp only [pieces, quiet, hdev, Bool.false_eq_true, if_false]
    exact (CutShort.iterate (fun k g => h _ _) _ _ (.of_empty (p := .start f) rfl)).mapFrame _

mutual

/-- **A walk is what its panics make of the quiet one**, whatever the tree. -/
theorem run_cutShort : ∀ (t : Statement) (path : Path) (f : Frame),
    CutShort w.body (w.run path t f) (w.quiet.run path t f)
  | .loop dim policy body, path, f => by
    rw [run, run]
    split
    · exact .of_empty rfl
    · exact w.loop_cutShort (fun path f => runAll_cutShort body path 0 f) f
  | .kernel _ body, path, f => by
    rw [run, run]
    exact runAll_cutShort body path 0 f
  | .segments dim length body, path, f => by
    rw [run, run]
    split
    · exact .of_empty rfl
    · exact w.pieces_cutShort (fun path f => runAll_cutShort body path 0 f) f
  | .barrier, path, f => by
    rw [run, run]
    exact .of_empty rfl
  | .call, path, f => by
    rw [run, run]
    exact w.call_cutShort path f

theorem runAll_cutShort : ∀ (ss : List Statement) (path : Path) (position : Nat) (f : Frame),
    CutShort w.body (w.runAll path position ss f) (w.quiet.runAll path position ss f)
  | [], path, position, f => by
    rw [runAll, runAll]
    exact .of_empty rfl
  | s :: rest, path, position, f => by
    rw [runAll, runAll]
    exact (run_cutShort s (position :: path) f).andThen fun f => runAll_cutShort rest path (position + 1) f

end

theorem run_ofSpace_attempts (body : LoopBody) (hbody : w.body = body) {t : Statement} {space : IterationSpace}
    (hvalid : t.validate space.rank = .ok ()) (hbound : t.CallsBound space.rank [])
    (haddr : t.Threaded → space.Addressable) (path : Path) :
    Attempts body (w.onDevice = true → t.Fits space.segments)
      (t.tuples space.segments (Frame.ofSpace space).index) (w.run path t (.ofSpace space)) :=
  CutShort.attempts (hbody ▸ w.run_cutShort t path _)
    (w.quiet.run_ofSpace_yields_of_threaded (fun _ => rfl) hvalid hbound haddr path)

end Walker

end AdaptiveLoops
