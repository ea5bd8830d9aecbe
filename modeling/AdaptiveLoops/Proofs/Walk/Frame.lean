/-
What a walk leaves of its frame.

`run_keeps`: a walk without a fault ends with the ranges it began with, and
with every index but those of the loops that leave theirs behind
(`Statement.Leaves`). It holds of every tree, validated or not.
-/
import AdaptiveLoops.Proofs.Statement.Nesting
import AdaptiveLoops.Proofs.Walk.Progress

namespace AdaptiveLoops

/-- `g` has the ranges of `f`, and its indices but for the dimensions in `changed`. -/
structure Frame.Keeps (changed : Nat → Prop) (f g : Frame) : Prop where
  ranges : g.ranges = f.ranges
  index : ∀ d, ¬ changed d → g.index[d]? = f.index[d]?
  length : g.index.length = f.index.length

namespace Frame

theorem Keeps.refl {changed : Nat → Prop} (f : Frame) : Keeps changed f f :=
  ⟨rfl, fun _ _ => rfl, rfl⟩

theorem Keeps.trans {changed : Nat → Prop} {f g h : Frame} (hfg : Keeps changed f g)
    (hgh : Keeps changed g h) : Keeps changed f h :=
  ⟨hgh.ranges.trans hfg.ranges, fun d hd => (hgh.index d hd).trans (hfg.index d hd),
    hgh.length.trans hfg.length⟩

theorem Keeps.mono {changed changed' : Nat → Prop} {f g : Frame} (h : Keeps changed f g)
    (himp : ∀ d, changed d → changed' d) : Keeps changed' f g :=
  ⟨h.ranges, fun d hd => h.index d fun hc => hd (himp d hc), h.length⟩

theorem Keeps.setIndex (f : Frame) (dim : Nat) (i : Int) : Keeps (dim = ·) f (f.setIndex dim i) :=
  ⟨rfl, fun _ hd => List.getElem?_set_ne hd, List.length_set⟩

theorem setRange_self {f : Frame} {dim : Nat} {s : Segment} (hs : f.ranges[dim]? = some s) :
    f.setRange dim s = f := by
  obtain ⟨hlt, rfl⟩ := List.getElem?_eq_some_iff.1 hs
  simp [setRange]

theorem setRange_setRange (f : Frame) (dim : Nat) (s t : Segment) :
    (f.setRange dim s).setRange dim t = f.setRange dim t := by
  simp [setRange]

theorem setRange_comm (f : Frame) {dim d : Nat} (hne : d ≠ dim) (s t : Segment) :
    (f.setRange dim s).setRange d t = (f.setRange d t).setRange dim s := by
  simp only [setRange, List.set_comm _ _ (Ne.symm hne)]

theorem getElem?_setRange_of_ne (f : Frame) {dim d : Nat} (hne : d ≠ dim) (s : Segment) :
    (f.setRange dim s).ranges[d]? = f.ranges[d]? :=
  List.getElem?_set_ne (Ne.symm hne)

theorem getElem?_setRange_self {f : Frame} {dim : Nat} (hdim : dim < f.ranges.length) (s : Segment) :
    (f.setRange dim s).ranges[dim]? = some s :=
  List.getElem?_set_self hdim

/-- What a walk keeps of a narrowed frame it keeps of the frame, once the range is put back. -/
theorem Keeps.setRange {changed : Nat → Prop} {f g : Frame} {dim : Nat} {piece : Segment}
    (h : Keeps changed (f.setRange dim piece) g) (s : Segment) :
    Keeps changed (f.setRange dim s) (g.setRange dim s) := by
  refine ⟨?_, h.index, h.length⟩
  simp only [Frame.setRange, h.ranges, List.set_set]

end Frame

namespace Walker

open Progress

variable (w : Walker)

mutual

/-- **A walk keeps the ranges**, and the indices of all loops but those that leave theirs behind. -/
theorem run_keeps : ∀ (t : Statement) (path : Path) (f : Frame), (w.run path t f).fault = none →
    Frame.Keeps (t.Leaves w.onDevice) f (w.run path t f).frame
  | .loop dim policy body, path, f, h => by
    rw [run] at h ⊢
    split at h
    · cases h
    · next s hs =>
      rw [loop] at h ⊢
      split at h
      · next hgrain =>
        refine frame_iterate (P := Frame.Keeps (Statement.Leaves w.onDevice · (.loop dim policy body)) f)
          (fun k g hg hk => hg.trans ?_) _ _ (Frame.Keeps.refl f) h
        have hbody := runAll_keeps body (k :: path) 0 (g.setIndex dim (s.index k)) hk
        refine ((Frame.Keeps.setIndex g dim (s.index k)).mono ?_).trans (hbody.mono ?_)
        · exact fun d hd => ⟨hgrain, .inl hd⟩
        · exact fun d hd => ⟨hgrain, .inr hd⟩
      · next grain hgrain =>
        exact Frame.Keeps.refl f
  | .kernel _ body, path, f, h => by
    rw [run] at h ⊢
    exact runAll_keeps body path 0 f h
  | .segments dim length body, path, f, h => by
    rw [run] at h ⊢
    split at h
    · cases h
    · next s hs =>
      rw [pieces] at h ⊢
      split at h
      · next hdev =>
        split at h
        · cases h
        · next hroom =>
          rw [if_pos hdev, if_neg hroom]
          exact Frame.Keeps.refl f
      · next hdev =>
        have hhost : w.onDevice = false := by simpa using hdev
        rw [if_neg hdev]
        rw [fault_mapFrame] at h
        rw [frame_mapFrame h]
        -- Between two pieces the frame is the one before them, but for the range.
        refine frame_iterate
          (P := fun g =>
            Frame.Keeps (Statement.Leaves w.onDevice · (.segments dim length body)) f (g.setRange dim s))
          (fun k g hg hk => hg.trans ?_) _ _ ?_ h
        · have hbody := runAll_keeps body (k :: path) 0 (g.setRange dim (s.chunk length k)) hk
          exact (hbody.setRange s).mono fun d hd => ⟨hhost, hd⟩
        · rw [Progress.start, Frame.setRange_self hs]
          exact Frame.Keeps.refl f
  | .barrier, path, f, _ => by
    rw [run]
    exact Frame.Keeps.refl f
  | .call, path, f, _ => by
    rw [run]
    exact Frame.Keeps.refl f

theorem runAll_keeps : ∀ (ss : List Statement) (path : Path) (position : Nat) (f : Frame),
    (w.runAll path position ss f).fault = none →
      Frame.Keeps (Statement.LeavesAny w.onDevice · ss) f (w.runAll path position ss f).frame
  | [], path, position, f, _ => by
    rw [runAll]
    exact Frame.Keeps.refl f
  | s :: rest, path, position, f, h => by
    rw [runAll] at h ⊢
    have hs := fault_eq_none_of_andThen h
    rw [fault_andThen hs] at h
    rw [frame_andThen hs]
    refine ((run_keeps s _ f hs).mono ?_).trans ((runAll_keeps rest path _ _ h).mono ?_)
    · exact fun d hd => .inl hd
    · exact fun d hd => .inr hd

end

end Walker

end AdaptiveLoops
