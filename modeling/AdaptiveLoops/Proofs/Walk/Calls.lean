/-
Where a walk makes its calls.

A statement is found at its position among its siblings, an iteration and a
piece at its number. So no two calls of a walk have one path
(`Walker.run_apart`), and a body that goes by the path may do at each of them
what it likes. Walks that are put together keep apart what the parts keep
apart as long as the parts have scopes of their own (`Apart`).
-/
import AdaptiveLoops.Proofs.Walk.Progress
import Mathlib.Data.List.Infix
import Mathlib.Data.List.Nodup

namespace AdaptiveLoops

namespace Path

/-- The paths that go down through `path`. -/
def Below (path : Path) (q : Path) : Prop :=
  path <:+ q

/-- The paths that go down through `path` and then through one of `steps`. -/
def Under (path : Path) (steps : List Nat) (q : Path) : Prop :=
  ∃ k ∈ steps, Below (k :: path) q

variable {path q : Path} {steps steps' : List Nat}

theorem Under.below (h : Under path steps q) : Below path q := by
  obtain ⟨k, -, h⟩ := h
  exact (List.suffix_cons k path).trans h

theorem Below.under {k : Nat} (h : Below (k :: path) q) (hk : k ∈ steps) : Under path steps q :=
  ⟨k, hk, h⟩

theorem Under.mono (h : Under path steps q) (hsteps : ∀ k ∈ steps, k ∈ steps') : Under path steps' q :=
  h.imp fun _ hk => hk.imp_left (hsteps _)

/-- From one place a path goes down by one step. -/
theorem eq_of_below {k k' : Nat} (h : Below (k :: path) q) (h' : Below (k' :: path) q) : k = k' := by
  have hsame := (List.suffix_of_suffix_length_le h h' (Nat.le_refl _)).eq_of_length rfl
  exact (List.cons.inj hsame).1

theorem under_disjoint (h : ∀ k ∈ steps, k ∉ steps') (hq : Under path steps q) : ¬ Under path steps' q := by
  rintro ⟨k', hk', hbelow'⟩
  obtain ⟨k, hk, hbelow⟩ := hq
  exact h k hk (eq_of_below hbelow hbelow' ▸ hk')

end Path

namespace Progress

open AdaptiveLoops.Path

/-- No two calls have one path, and all paths lie in a scope. -/
structure Apart (scope : Path → Prop) (p : Progress) : Prop where
  nodup : (p.calls.toList.map (·.path)).Nodup
  inside : ∀ c ∈ p.calls, scope c.path

namespace Apart

variable {scope scope' : Path → Prop} {p : Progress} {path : Path}

theorem of_empty (h : p.calls = #[]) : Apart scope p where
  nodup := by simp [h]
  inside := by simp [h]

theorem mono (h : Apart scope p) (hscope : ∀ q, scope q → scope' q) : Apart scope' p :=
  ⟨h.nodup, fun c hc => hscope _ (h.inside c hc)⟩

theorem andThen {next : Frame → Progress} (h : Apart scope p) (hnext : ∀ f, Apart scope' (next f))
    (hdisjoint : ∀ q, scope q → ¬ scope' q) : Apart (fun q => scope q ∨ scope' q) (p.andThen next) := by
  cases hp : p.fault with
  | none =>
    have hn := hnext p.frame
    refine ⟨?_, fun c hc => ?_⟩
    · rw [calls_andThen hp, Array.toList_append, List.map_append, List.nodup_append']
      refine ⟨h.nodup, hn.nodup, fun q hq hq' => ?_⟩
      obtain ⟨c, hc, rfl⟩ := List.mem_map.1 hq
      obtain ⟨c', hc', heq⟩ := List.mem_map.1 hq'
      refine hdisjoint c.path (h.inside c (Array.mem_toList_iff.1 hc)) ?_
      exact heq ▸ hn.inside c' (Array.mem_toList_iff.1 hc')
    · rw [calls_andThen hp, Array.mem_append] at hc
      exact hc.imp (h.inside c) (hn.inside c)
  | some fault =>
    rw [andThen_of_fault hp]
    exact h.mono fun _ => .inl

theorem mapFrame (h : Apart scope p) (change : Frame → Frame) : Apart scope (p.mapFrame change) := by
  refine ⟨?_, ?_⟩ <;> rw [calls_mapFrame]
  · exact h.nodup
  · exact h.inside

theorem iterate {step : Nat → Frame → Progress} (hstep : ∀ k f, Apart (Below (k :: path)) (step k f)) :
    ∀ (n first : Nat) {p : Progress} {steps : List Nat}, Apart (Under path steps) p →
      (∀ k ∈ steps, k ∉ List.range' first n) →
        Apart (Under path (steps ++ List.range' first n)) (Progress.iterate step n first p)
  | 0, _, p, steps, h, _ => h.mono fun _ hq => hq.mono fun _ hk => List.mem_append_left _ hk
  | n + 1, first, p, steps, h, hsteps => by
    have hnew : first ∉ steps := fun hk => hsteps first hk (by simp)
    have hfirst : Apart (Under path (steps ++ [first])) (p.andThen (step first)) := by
      refine (h.andThen (hstep first) fun q hq hbelow => ?_).mono fun q hq => ?_
      · have hother : ∀ k ∈ steps, k ∉ [first] := fun k hk hk' => hnew (by rwa [List.mem_singleton.1 hk'] at hk)
        exact under_disjoint hother hq (hbelow.under (List.mem_singleton_self first))
      · rcases hq with hq | hbelow
        · exact hq.mono fun k hk => List.mem_append_left _ hk
        · exact hbelow.under (by simp)
    have hrest := iterate hstep n (first + 1) hfirst fun k hk hmem => by
      rcases List.mem_append.1 hk with hk | hk
      · refine hsteps k hk ?_
        rw [List.range'_succ]
        exact List.mem_cons_of_mem _ hmem
      · obtain rfl := List.mem_singleton.1 hk
        exact absurd (List.mem_range'_1.1 hmem).1 (by omega)
    rwa [List.append_assoc, List.singleton_append, ← List.range'_succ, ← iterate_succ] at hrest

theorem iterate_start {step : Nat → Frame → Progress} (hstep : ∀ k f, Apart (Below (k :: path)) (step k f))
    (n first : Nat) (f : Frame) : Apart (Under path (List.range' first n)) (Progress.iterate step n first (.start f)) :=
  iterate hstep n first (of_empty (by rfl : (start f).calls = #[])) fun _ hk => absurd hk List.not_mem_nil

/-- **Parallel runs keep apart** what their offsets keep apart. -/
theorem parallel {step : Nat → Frame → Progress} (hstep : ∀ k f, Apart (Below (k :: path)) (step k f)) (f : Frame)
    {runs : List Run} (hruns : (runs.flatMap Run.offsets).Nodup) :
    Apart (Under path (runs.flatMap Run.offsets)) (parallel step f runs) := by
  have hrun : ∀ r : Run, Apart (Under path r.offsets) (Progress.iterate step r.size r.first (.start f)) := fun r =>
    iterate_start hstep r.size r.first f
  have hinside : ∀ {r : Run} {q : Path},
      q ∈ (Progress.iterate step r.size r.first (.start f)).calls.toList.map (·.path) → Under path r.offsets q := by
    intro r q hq
    obtain ⟨c, hc, rfl⟩ := List.mem_map.1 hq
    exact (hrun r).inside c (Array.mem_toList_iff.1 hc)
  refine ⟨?_, fun c hc => ?_⟩
  · rw [List.nodup_flatMap] at hruns
    rw [calls_parallel, List.map_flatMap, List.nodup_flatMap]
    refine ⟨fun r _ => (hrun r).nodup, hruns.2.imp fun hdisjoint q hq hq' => ?_⟩
    exact under_disjoint (fun k hk hk' => hdisjoint hk hk') (hinside hq) (hinside hq')
  · rw [← Array.mem_toList_iff, calls_parallel, List.mem_flatMap] at hc
    obtain ⟨r, hr, hc⟩ := hc
    exact ((hrun r).inside c (Array.mem_toList_iff.1 hc)).mono fun k hk => List.mem_flatMap.2 ⟨r, hr, hk⟩

end Apart

end Progress

namespace Walker

open AdaptiveLoops.Path Progress

variable (w : Walker)

theorem nodup_offsets (path : Path) (grain count : Nat) :
    ((w.schedule.runs path grain count).flatMap Run.offsets).Nodup :=
  (w.schedule.covers path grain count).nodup_iff.2 List.nodup_range

theorem loop_apart {path : Path} {dim : Nat} {policy : Policy} {s : Segment} {body : Path → Frame → Progress}
    (h : ∀ path f, Apart (Below path) (body path f)) (f : Frame) :
    Apart (Below path) (w.loop path dim policy s body f) := by
  rw [loop]
  split
  · exact (Apart.iterate_start (fun k g => h _ _) _ _ f).mono fun _ => Under.below
  · refine (Apart.parallel (fun k g => ?_) f (w.nodup_offsets ..)).mono fun _ => Under.below
    split
    · exact h _ _
    · exact .of_empty rfl

theorem pieces_apart {path : Path} {dim : Nat} {length : UInt64} {s : Segment} {body : Path → Frame → Progress}
    (h : ∀ path f, Apart (Below path) (body path f)) (f : Frame) :
    Apart (Below path) (w.pieces path dim length s body f) := by
  rw [pieces]
  split
  · split
    · exact .of_empty rfl
    · exact (Apart.parallel (fun k g => h _ _) f (w.nodup_offsets ..)).mono fun _ => Under.below
  · exact ((Apart.iterate_start (fun k g => h _ _) _ _ f).mono fun _ => Under.below).mapFrame _

mutual

/-- **A walk makes each of its calls at a path of its own**, below the path of its tree. -/
theorem run_apart : ∀ (t : Statement) (path : Path) (f : Frame), Apart (Below path) (w.run path t f)
  | .loop dim policy body, path, f => by
    rw [run]
    split
    · exact .of_empty rfl
    · exact w.loop_apart (fun path f => (runAll_apart body path 0 f).mono fun _ => Under.below) f
  | .kernel _ body, path, f => by
    rw [run]
    exact (runAll_apart body path 0 f).mono fun _ => Under.below
  | .segments dim length body, path, f => by
    rw [run]
    split
    · exact .of_empty rfl
    · exact w.pieces_apart (fun path f => (runAll_apart body path 0 f).mono fun _ => Under.below) f
  | .barrier, path, f => by
    rw [run]
    exact .of_empty rfl
  | .call, path, f => by
    rw [run]
    exact ⟨by simp [call], by simp [call, Below]⟩

theorem runAll_apart : ∀ (ss : List Statement) (path : Path) (position : Nat) (f : Frame),
    Apart (Under path (List.range' position ss.length)) (w.runAll path position ss f)
  | [], path, position, f => by
    rw [runAll]
    exact .of_empty rfl
  | s :: rest, path, position, f => by
    rw [runAll]
    refine ((run_apart s (position :: path) f).andThen (runAll_apart rest path (position + 1)) ?_).mono fun q hq => ?_
    · rintro q hbelow hq
      refine under_disjoint (fun k hk hk' => ?_) (hbelow.under (List.mem_singleton_self position)) hq
      obtain rfl := List.mem_singleton.1 hk
      exact absurd (List.mem_range'_1.1 hk').1 (by omega)
    · rw [List.length_cons, List.range'_succ]
      rcases hq with hbelow | hq
      · exact hbelow.under (by simp)
      · exact hq.mono fun k hk => List.mem_cons_of_mem _ hk

end

end Walker

end AdaptiveLoops
