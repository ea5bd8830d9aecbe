/-
What a walk can change of the frame that it is given.

A node that `Splits` works on copies of the frame. Its own frame comes back
as it was, and so nothing below it reaches the frame of the whole walk: the
walk ends in the same frame when all that stands below such nodes is taken
away (`run_hollow`). What is left are the loops in order, which set their
index, and pieces on the host, which put their range back (`run_restores`).
-/
import AdaptiveLoops.Proofs.Statement.Positions
import AdaptiveLoops.Proofs.Walk.Frame

namespace AdaptiveLoops

/-! ## Nodes that work on copies -/

namespace Statement

/-- The node runs its body on copies of the frame. -/
def Splits (onDevice : Bool) : Statement → Prop
  | .loop _ policy _ => policy.backend = .threaded
  | .segments _ _ _ => onDevice = true
  | _ => False

/-- The node is a loop over `d` that runs in order. -/
def Sets (d : Nat) : Statement → Prop
  | .loop dim policy _ => dim = d ∧ policy.backend ≠ .threaded
  | _ => False

theorem grain?_eq_none_iff {policy : Policy} : Walker.grain? policy = none ↔ policy.backend ≠ .threaded := by
  cases policy <;> simp [Walker.grain?, Policy.backend]

/-- A node leaves an index behind by itself, or by what stands below it unless it works on copies. -/
theorem leaves_iff_or {onDevice : Bool} {d : Nat} (s : Statement) :
    s.Leaves onDevice d ↔ s.Sets d ∨ ¬ s.Splits onDevice ∧ LeavesAny onDevice d s.children := by
  cases s with
  | loop dim policy body =>
    rw [Leaves, grain?_eq_none_iff, Sets, Splits, children]
    tauto
  | kernel policy body => simp [Leaves, Sets, Splits, children]
  | segments dim length body => simp [Leaves, Sets, Splits, children]
  | barrier => simp [Leaves, Sets, Splits, children, LeavesAny]
  | call => simp [Leaves, Sets, Splits, children, LeavesAny]

theorem mem_above {above ss : List Statement} {p : Position} (hp : p ∈ positionsOfAll above ss) {a : Statement}
    (ha : a ∈ above) : a ∈ p.above := by
  induction ss using forest_induction generalizing above with
  | nil => cases hp
  | cons s rest hchildren hrest =>
    rw [positionsOfAll, positionsBelow_eq, List.mem_append, List.mem_cons] at hp
    rcases hp with (rfl | hp) | hp
    · exact ha
    · exact hchildren hp (List.mem_cons_of_mem s ha)
    · exact hrest hp ha

theorem leavesAny_iff {onDevice : Bool} {d : Nat} {above ss : List Statement}
    (habove : ∀ a ∈ above, ¬ a.Splits onDevice) :
    LeavesAny onDevice d ss ↔
      ∃ p ∈ positionsOfAll above ss, p.node.Sets d ∧ ∀ a ∈ p.above, ¬ a.Splits onDevice := by
  induction ss using forest_induction generalizing above with
  | nil => simp [LeavesAny, positionsOfAll]
  | cons s rest hchildren hrest =>
    have hbelow : (¬ s.Splits onDevice ∧ LeavesAny onDevice d s.children) ↔
        ∃ p ∈ positionsOfAll (s :: above) s.children, p.node.Sets d ∧ ∀ a ∈ p.above, ¬ a.Splits onDevice := by
      constructor
      · exact fun ⟨hs, hleaves⟩ => (hchildren (List.forall_mem_cons.2 ⟨hs, habove⟩)).1 hleaves
      · rintro ⟨p, hp, hsets, hcopies⟩
        have hs := hcopies s (mem_above hp List.mem_cons_self)
        exact ⟨hs, (hchildren (List.forall_mem_cons.2 ⟨hs, habove⟩)).2 ⟨p, hp, hsets, hcopies⟩⟩
    rw [LeavesAny, leaves_iff_or, hbelow, hrest habove, positionsOfAll, positionsBelow_eq]
    simp only [List.mem_append, List.mem_cons, or_and_right, exists_or, exists_eq_left]
    exact or_congr_left (or_congr_left (and_iff_left habove).symm)

/-- **A loop leaves its index behind** where it runs in order and stands below no node that works on copies. -/
theorem leaves_iff {onDevice : Bool} {d : Nat} (s : Statement) :
    s.Leaves onDevice d ↔ ∃ p ∈ s.positions, p.node.Sets d ∧ ∀ a ∈ p.above, ¬ a.Splits onDevice := by
  have hforest := @leavesAny_iff onDevice d [] [s] (by simp)
  rwa [LeavesAny, LeavesAny, or_false, positionsOfAll, positionsOfAll, List.append_nil] at hforest

/-! ## Trees without what runs on copies -/

mutual

/-- The tree with nothing left below the nodes that work on copies of the frame. -/
def hollow (onDevice : Bool) : Statement → Statement
  | .loop dim policy body =>
    .loop dim policy (if policy.backend = .threaded then [] else hollowAll onDevice body)
  | .kernel policy body => .kernel policy (hollowAll onDevice body)
  | .segments dim length body => .segments dim length (if onDevice then [] else hollowAll onDevice body)
  | .barrier => .barrier
  | .call => .call

def hollowAll (onDevice : Bool) : List Statement → List Statement
  | [] => []
  | s :: rest => hollow onDevice s :: hollowAll onDevice rest

end

end Statement

/-! ## Walks that end where another does -/

namespace Progress

/-- Where `p` comes to its end, `q` does, and in the same frame. -/
def EndsWith (p q : Progress) : Prop :=
  p.fault = none → q.fault = none ∧ q.frame = p.frame

namespace EndsWith

variable {p q : Progress} {step step' : Nat → Frame → Progress}

theorem refl (p : Progress) : EndsWith p p :=
  fun hp => ⟨hp, rfl⟩

theorem andThen {next next' : Frame → Progress} (h : EndsWith p q)
    (hnext : ∀ f, EndsWith (next f) (next' f)) : EndsWith (p.andThen next) (q.andThen next') := by
  intro hf
  have hp := fault_eq_none_of_andThen hf
  obtain ⟨hq, hframe⟩ := h hp
  rw [fault_andThen hp] at hf
  rw [fault_andThen hq, frame_andThen hq, frame_andThen hp, hframe]
  exact hnext p.frame hf

theorem mapFrame (h : EndsWith p q) (change : Frame → Frame) : EndsWith (p.mapFrame change) (q.mapFrame change) := by
  rw [mapFrame_eq_andThen, mapFrame_eq_andThen]
  exact h.andThen fun f => .refl _

theorem iterate (hstep : ∀ k f, EndsWith (step k f) (step' k f)) : ∀ (n first : Nat) {p q : Progress},
    EndsWith p q → EndsWith (iterate step n first p) (iterate step' n first q) :=
  iterate_rel andThen hstep

end EndsWith

theorem fault_iterate_eq_none {step step' : Nat → Frame → Progress}
    (hstep : ∀ k f g, (step k f).fault = none → (step' k g).fault = none) : ∀ (n first : Nat) {p q : Progress},
    (p.fault = none → q.fault = none) →
      (iterate step n first p).fault = none → (iterate step' n first q).fault = none
  | 0, _, _, _, himp => himp
  | n + 1, first, p, q, himp => by
    rw [iterate_succ, iterate_succ]
    refine fault_iterate_eq_none hstep n (first + 1) fun hf => ?_
    have hp := fault_eq_none_of_andThen hf
    rw [fault_andThen hp] at hf
    rw [fault_andThen (himp hp)]
    exact hstep first p.frame q.frame hf

/-- The frame of parallel runs is that of the caller, whatever their steps do to the copies. -/
theorem EndsWith.parallel {step step' : Nat → Frame → Progress}
    (hstep : ∀ k f g, (step k f).fault = none → (step' k g).fault = none) (f : Frame) (runs : List Run) :
    EndsWith (parallel step f runs) (parallel step' f runs) := by
  intro hf
  simp only [Progress.parallel, List.findSome?_eq_none_iff, List.forall_mem_map] at hf
  refine ⟨?_, rfl⟩
  simp only [Progress.parallel, List.findSome?_eq_none_iff, List.forall_mem_map]
  exact fun r hr => fault_iterate_eq_none hstep r.size r.first id (hf r hr)

end Progress

namespace Walker

open Progress

variable (w : Walker)

/-- **A node that works on copies** leaves the frame of its caller as it was, also where it stops for a fault. -/
theorem frame_run_of_splits {s : Statement} (hs : s.Splits w.onDevice) (path : Path) (f : Frame) :
    (w.run path s f).frame = f := by
  cases s with
  | loop dim policy body =>
    rw [run]
    split
    · rfl
    · have hgrain : grain? policy ≠ none := fun hnone => Statement.grain?_eq_none_iff.1 hnone hs
      rw [loop]
      split
      · next hnone => exact absurd hnone hgrain
      · rfl
  | segments dim length body =>
    have hdev : w.onDevice = true := hs
    rw [run]
    split
    · rfl
    · simp only [pieces, hdev, if_true]
      split <;> rfl
  | kernel policy body => exact hs.elim
  | barrier => exact hs.elim
  | call => exact hs.elim

mutual

/-- **Nothing below a node that works on copies** has to do with where a walk ends. -/
theorem run_hollow : ∀ (t : Statement) (path : Path) (f : Frame),
    EndsWith (w.run path t f) (w.run path (t.hollow w.onDevice) f)
  | .loop dim policy body, path, f => by
    rw [Statement.hollow, run, run]
    split
    · exact .refl _
    · rw [loop, loop]
      cases hgrain : grain? policy with
      | none =>
        rw [if_neg (Statement.grain?_eq_none_iff.1 hgrain)]
        exact .iterate (fun k g => runAll_hollow body _ _ _) _ _ (.refl _)
      | some grain =>
        refine .parallel (fun k g g' hstep => ?_) f _
        have hthreaded : policy.backend = .threaded := by
          by_contra hne
          rw [Statement.grain?_eq_none_iff.2 hne] at hgrain
          cases hgrain
        rw [if_pos hthreaded]
        split at hstep
        · rfl
        · cases hstep
  | .kernel _ body, path, f => by
    rw [Statement.hollow, run, run]
    exact runAll_hollow body path 0 f
  | .segments dim length body, path, f => by
    rw [Statement.hollow, run, run]
    split
    · exact .refl _
    · simp only [pieces]
      split
      · split
        · exact .refl _
        · exact .parallel (fun k g g' _ => rfl) f _
      · exact (EndsWith.iterate (fun k g => runAll_hollow body _ _ _) _ _ (.refl _)).mapFrame _
  | .barrier, path, f => .refl _
  | .call, path, f => .refl _

theorem runAll_hollow : ∀ (ss : List Statement) (path : Path) (position : Nat) (f : Frame),
    EndsWith (w.runAll path position ss f) (w.runAll path position (Statement.hollowAll w.onDevice ss) f)
  | [], path, position, f => .refl _
  | s :: rest, path, position, f => by
    rw [Statement.hollowAll, runAll, runAll]
    exact (run_hollow s (position :: path) f).andThen fun f => runAll_hollow rest path (position + 1) f

end

/--
**A walk gives the ranges back, and touches the indices of its own loops alone.** When a walk comes to its
end, whatever the tree, the frame and the splitting of its parallel nodes, every range is what it was, and an
index that is not belongs to a loop that runs in order and stands below no node that works on copies. Such
nodes leave their caller's frame as it was, and where the walk ends is the same with nothing left below them.
-/
theorem run_restores {path : Path} {t : Statement} {f : Frame} (h : (w.run path t f).fault = none) :
    (w.run path t f).frame.ranges = f.ranges ∧
    (w.run path t f).frame.index.length = f.index.length ∧
    (∀ d, (w.run path t f).frame.index[d]? ≠ f.index[d]? →
      ∃ p ∈ t.positions, p.node.Sets d ∧ ∀ a ∈ p.above, ¬ a.Splits w.onDevice) ∧
    (∀ p ∈ t.positions, p.node.Splits w.onDevice → ∀ path g, (w.run path p.node g).frame = g) ∧
    (w.run path (t.hollow w.onDevice) f).fault = none ∧
    (w.run path (t.hollow w.onDevice) f).frame = (w.run path t f).frame := by
  have hkeeps := w.run_keeps t path f h
  refine ⟨hkeeps.ranges, hkeeps.length, fun d hne => ?_, fun p _ hs => w.frame_run_of_splits hs,
    w.run_hollow t path f h⟩
  by_contra hno
  exact hne (hkeeps.index d fun hleaves => hno ((Statement.leaves_iff t).1 hleaves))

/-- A piece narrowed again inside its own loop, with a loop on several threads beside it. -/
theorem run_restores_narrowed :
    let w : Walker := ⟨fun _ => none, .halving 4, false⟩
    let inner : Statement := .segments 0 1 [.loop 0 (.device 64 .sync) [.call]]
    let t : Statement := .segments 0 2 [.loop 0 .sequential [inner], .loop 1 (.threaded 1) [.loop 0 .sequential [.call]]]
    let f : Frame := ⟨[⟨0, 5⟩, ⟨7, 9⟩], [0, 7]⟩
    let g := (w.run [] t f).frame
    (w.run [] t f).fault = none ∧ g.index = [4, 7] ∧ g.ranges = f.ranges ∧
      (∃ p ∈ t.positions, p.node.Sets 0 ∧ ∀ a ∈ p.above, ¬ a.Splits false) ∧
      (w.run [] (t.hollow false) f).frame = g := by
  intro w inner t f g
  have hfault : (w.run [] t f).fault = none := by decide +kernel
  have hindex : g.index = [4, 7] := by decide +kernel
  obtain ⟨hranges, -, hchanged, -, -, hhollow⟩ := w.run_restores hfault
  refine ⟨hfault, hindex, hranges, hchanged 0 ?_, hhollow⟩
  rw [hindex]
  decide

end Walker

end AdaptiveLoops
