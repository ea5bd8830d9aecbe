/-
What can stop a walk of a valid tree: the body, and on the device want of
room for a list of pieces (`run_faultsByBody`).

Calls need not stand below a loop over every dimension here, so the tuples of
a walk are not those that are read off its tree. With its calls left out a
tree has no tuples at all and is still as valid (`Statement.muted`), and a
walk whose body never panics ends alike with them and without (`SameEnd`).
-/
import AdaptiveLoops.Proofs.Walk.Panics

namespace AdaptiveLoops

/-! ## Trees without calls -/

namespace Statement

mutual

/-- The tree with a barrier in the place of every call. -/
def muted : Statement → Statement
  | .loop dim policy body => .loop dim policy (mutedAll body)
  | .kernel policy body => .kernel policy (mutedAll body)
  | .segments dim length body => .segments dim length (mutedAll body)
  | .barrier => .barrier
  | .call => .barrier

def mutedAll : List Statement → List Statement
  | [] => []
  | s :: rest => muted s :: mutedAll rest

end

mutual

theorem checkBelow_muted (rank : Nat) : ∀ (s : Statement) (enclosing : Option Nat),
    checkBelow rank enclosing s.muted = checkBelow rank enclosing s
  | .loop dim _ body, enclosing => by
    simp only [muted, checkBelow, checkAllBelow_muted rank body]
  | .kernel _ body, enclosing => by
    simp only [muted, checkBelow, checkAllBelow_muted rank body]
  | .segments dim length body, enclosing => by
    simp only [muted, checkBelow, checkAllBelow_muted rank body]
  | .barrier, _ => rfl
  | .call, _ => rfl

theorem checkAllBelow_muted (rank : Nat) : ∀ (ss : List Statement) (enclosing : Option Nat),
    checkAllBelow rank enclosing (mutedAll ss) = checkAllBelow rank enclosing ss
  | [], _ => rfl
  | s :: rest, enclosing => by
    simp only [mutedAll, checkAllBelow, checkBelow_muted rank s, checkAllBelow_muted rank rest]

end

theorem validate_muted (s : Statement) (rank : Nat) : s.muted.validate rank = s.validate rank := by
  rw [validate, validate, check, check, checkBelow_muted]

mutual

theorem callsBound_muted (rank : Nat) : ∀ (s : Statement) (bound : List Nat), s.muted.CallsBound rank bound
  | .loop dim _ body, bound => by
    simp only [muted, CallsBound, callsBoundAll_muted rank body]
  | .kernel _ body, bound => by
    simp only [muted, CallsBound, callsBoundAll_muted rank body]
  | .segments dim length body, bound => by
    simp only [muted, CallsBound, callsBoundAll_muted rank body]
  | .barrier, _ => trivial
  | .call, _ => trivial

theorem callsBoundAll_muted (rank : Nat) : ∀ (ss : List Statement) (bound : List Nat),
    CallsBoundAll rank bound (mutedAll ss)
  | [], _ => trivial
  | s :: rest, bound => ⟨callsBound_muted rank s bound, callsBoundAll_muted rank rest bound⟩

end

mutual

theorem fits_muted : ∀ (t : Statement) (ranges : List Segment), t.muted.Fits ranges ↔ t.Fits ranges
  | .loop dim _ body, ranges => by
    simp only [muted, Fits, fitsAll_muted body]
  | .kernel _ body, ranges => by
    simp only [muted, Fits, fitsAll_muted body]
  | .segments dim length body, ranges => by
    simp only [muted, Fits, fitsAll_muted body]
  | .barrier, _ => Iff.rfl
  | .call, _ => Iff.rfl

theorem fitsAll_muted : ∀ (ss : List Statement) (ranges : List Segment),
    FitsAll ranges (mutedAll ss) ↔ FitsAll ranges ss
  | [], _ => Iff.rfl
  | s :: rest, ranges => by
    simp only [mutedAll, FitsAll, fits_muted s, fitsAll_muted rest]

end

end Statement

/-! ## Walks that end alike -/

namespace Progress

/-- The two walks leave one frame, and the same fault. -/
structure SameEnd (p q : Progress) : Prop where
  frame : p.frame = q.frame
  fault : p.fault = q.fault

namespace SameEnd

theorem refl (p : Progress) : SameEnd p p := ⟨rfl, rfl⟩

theorem andThen {p q : Progress} {next next' : Frame → Progress} (h : SameEnd p q)
    (hnext : ∀ f, SameEnd (next f) (next' f)) : SameEnd (p.andThen next) (q.andThen next') := by
  cases hp : p.fault with
  | none =>
    have hq : q.fault = none := h.fault ▸ hp
    have hn := hnext p.frame
    refine ⟨?_, ?_⟩
    · rw [frame_andThen hp, frame_andThen hq, hn.frame, h.frame]
    · rw [fault_andThen hp, fault_andThen hq, hn.fault, h.frame]
  | some fault =>
    rwa [andThen_of_fault hp, andThen_of_fault (h.fault ▸ hp)]

theorem mapFrame {p q : Progress} (h : SameEnd p q) (change : Frame → Frame) :
    SameEnd (p.mapFrame change) (q.mapFrame change) := by
  rw [mapFrame_eq_andThen, mapFrame_eq_andThen]
  exact h.andThen fun f => .refl _

variable {step step' : Nat → Frame → Progress}

theorem iterate (hstep : ∀ k f, SameEnd (step k f) (step' k f)) : ∀ (n first : Nat) {p q : Progress},
    SameEnd p q → SameEnd (iterate step n first p) (iterate step' n first q) :=
  iterate_rel andThen hstep

theorem parallel (hstep : ∀ k f, SameEnd (step k f) (step' k f)) (f : Frame) (runs : List Run) :
    SameEnd (parallel step f runs) (parallel step' f runs) := by
  refine ⟨rfl, ?_⟩
  have hfault : ∀ r : Run, (Progress.iterate step r.size r.first (start f)).fault =
      (Progress.iterate step' r.size r.first (start f)).fault := fun r =>
    (iterate hstep r.size r.first (.refl _)).fault
  simp only [Progress.parallel, List.findSome?_map, Function.comp_def, hfault]

end SameEnd

end Progress

namespace Walker

open Progress

variable (w : Walker)

mutual

/-- **Calls that never panic do not show** in the frame and the fault of a walk. -/
theorem run_muted (hbody : ∀ x, w.body x = none) : ∀ (t : Statement) (path : Path) (f : Frame),
    SameEnd (w.run path t f) (w.run path t.muted f)
  | .loop dim policy body, path, f => by
    rw [Statement.muted, run, run]
    split
    · exact .refl _
    · rw [loop, loop]
      cases grain? policy with
      | none => exact .iterate (fun k g => runAll_muted hbody body _ _ _) _ _ (.refl _)
      | some grain =>
        refine .parallel (fun k g => ?_) f _
        split
        · exact runAll_muted hbody body _ _ _
        · exact .refl _
  | .kernel _ body, path, f => by
    rw [Statement.muted, run, run]
    exact runAll_muted hbody body path 0 f
  | .segments dim length body, path, f => by
    rw [Statement.muted, run, run]
    split
    · exact .refl _
    · simp only [pieces]
      split
      · split
        · exact .refl _
        · exact .parallel (fun k g => runAll_muted hbody body _ _ _) f _
      · exact (SameEnd.iterate (fun k g => runAll_muted hbody body _ _ _) _ _ (.refl _)).mapFrame _
  | .barrier, path, f => .refl _
  | .call, path, f => by
    rw [Statement.muted, run, run, call, hbody]
    exact ⟨rfl, rfl⟩

theorem runAll_muted (hbody : ∀ x, w.body x = none) : ∀ (ss : List Statement) (path : Path) (position : Nat)
    (f : Frame), SameEnd (w.runAll path position ss f) (w.runAll path position (Statement.mutedAll ss) f)
  | [], path, position, f => .refl _
  | s :: rest, path, position, f => by
    rw [Statement.mutedAll, runAll, runAll]
    exact (run_muted hbody s (position :: path) f).andThen fun f => runAll_muted hbody rest path (position + 1) f

end

variable {t : Statement} {space : IterationSpace}

/-- Without panics a walk of a valid tree wants nothing but room. -/
theorem quiet_run_fault (hvalid : t.validate space.rank = .ok ()) (haddr : space.Addressable) (path : Path) :
    ((w.onDevice = true → t.Fits space.segments) → (w.quiet.run path t (.ofSpace space)).fault = none) ∧
    (¬ (w.onDevice = true → t.Fits space.segments) →
      (w.quiet.run path t (.ofSpace space)).fault = some .noRoom) := by
  have hmuted := w.quiet.run_ofSpace_yields (fun _ => rfl) ((t.validate_muted space.rank).trans hvalid)
    (Statement.callsBound_muted space.rank t []) haddr path
  rw [Statement.fits_muted] at hmuted
  rw [(w.quiet.run_muted (fun _ => rfl) t path (.ofSpace space)).fault]
  exact ⟨fun hroom => (hmuted.done hroom).1, hmuted.full⟩

end Walker

/-! ## Walks with any body -/

namespace Progress

/-- A walk that stops for a panic of its body, or for want of room, and for nothing else. -/
structure FaultsByBody (body : Body) (room : Prop) (p : Progress) : Prop where
  fault_eq_none_iff : p.fault = none ↔ room ∧ ∀ c ∈ p.calls, body c = none
  fault : ∀ fault, p.fault = some fault →
    (¬ room ∧ fault = .noRoom) ∨ ∃ c ∈ p.calls, ∃ payload, body c = some payload ∧ fault = .panic payload

/-- Panics add nothing but themselves to what stops the quiet walk. -/
theorem CutShort.faultsByBody {body : Body} {room : Prop} {p quiet : Progress} (h : CutShort body p quiet)
    (hdone : room → quiet.fault = none) (hfull : ¬ room → quiet.fault = some .noRoom) :
    FaultsByBody body room p := by
  have hfault : ∀ fault, p.fault = some fault →
      (¬ room ∧ fault = .noRoom) ∨ ∃ c ∈ p.calls, ∃ payload, body c = some payload ∧ fault = .panic payload := by
    intro fault hf
    rcases h.fault fault hf with hsame | ⟨c, hc, hpanic⟩
    · have hno : ¬ room := fun hroom => by
        rw [hdone hroom] at hsame
        cases hsame
      rw [hfull hno] at hsame
      exact .inl ⟨hno, (Option.some.inj hsame).symm⟩
    · obtain ⟨payload, hpayload, rfl⟩ := Option.map_eq_some_iff.1 hpanic
      exact .inr ⟨c, hc, payload, hpayload, rfl⟩
  refine ⟨⟨fun hnone => ?_, fun ⟨hroom, hquiet⟩ => ?_⟩, hfault⟩
  · obtain ⟨rfl, hquiet⟩ := h.whole hnone
    refine ⟨by_contra fun hno => ?_, hquiet⟩
    rw [hfull hno] at hnone
    cases hnone
  · by_contra hf
    obtain ⟨fault, hf⟩ := Option.ne_none_iff_exists'.1 hf
    rcases hfault fault hf with ⟨hno, -⟩ | ⟨c, hc, payload, hpayload, -⟩
    · exact hno hroom
    · rw [hquiet c hc] at hpayload
      cases hpayload

end Progress

/-- **Only its body can stop a walk of a valid tree**, once there is room for its pieces. -/
theorem Walker.run_faultsByBody (w : Walker) {t : Statement} {space : IterationSpace}
    (hvalid : t.validate space.rank = .ok ()) (haddr : space.Addressable) (path : Path) :
    Progress.FaultsByBody w.body (w.onDevice = true → t.Fits space.segments) (w.run path t (.ofSpace space)) :=
  have hquiet := w.quiet_run_fault hvalid haddr path
  (w.run_cutShort t path _).faultsByBody hquiet.1 hquiet.2

end AdaptiveLoops
