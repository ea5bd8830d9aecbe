/-
Loops cut into tiles: pieces of a dimension with a loop over the same
dimension inside.

On the host a tiled loop is the plain one (`tiled_loop_agrees`). Both take
the same steps, the tiled loop tile by tile: the steps of all tiles are those
of the whole range, one after the other (`iterate_tiles`). Only the ways down
to the calls differ, so walks are compared without these
(`Progress.pathless`), and the two bodies at the calls that answer to each
other (`Alike`). Between two tiles the frames of the two walks differ in the
range of that dimension alone, which nothing inside the loop reads or
changes (`runAll_setRange`), and the range is put back at the end.
-/
import AdaptiveLoops.Proofs.Dispatch.RowMajor
import AdaptiveLoops.Proofs.Segment.Partition

namespace AdaptiveLoops

namespace Progress

/-! ## Walks without the ways down -/

/-- The walk as it would be with all its calls in one place. -/
def pathless (p : Progress) : Progress :=
  { p with calls := p.calls.map fun c => { c with path := [] } }

@[simp] theorem fault_pathless (p : Progress) : p.pathless.fault = p.fault := rfl

@[simp] theorem frame_pathless (p : Progress) : p.pathless.frame = p.frame := rfl

@[simp] theorem visits_pathless (p : Progress) : p.pathless.visits = p.visits := by
  simp [pathless, visits, Function.comp_def]

@[simp] theorem pathless_start (f : Frame) : (start f).pathless = start f := by
  simp [pathless, start]

theorem pathless_andThen (p : Progress) (next : Frame → Progress) :
    (p.andThen next).pathless = p.pathless.andThen fun f => (next f).pathless := by
  obtain ⟨frame, calls, _ | _⟩ := p
  · simp [pathless, Progress.andThen]
  · rfl

theorem pathless_iterate (step : Nat → Frame → Progress) : ∀ (n first : Nat) (p : Progress),
    (iterate step n first p).pathless = iterate (fun k f => (step k f).pathless) n first p.pathless
  | 0, _, _ => rfl
  | n + 1, first, p => by
    rw [iterate_succ, iterate_succ, pathless_iterate step n, pathless_andThen]

theorem pathless_mapFrame (change : Frame → Frame) (p : Progress) :
    (p.mapFrame change).pathless = p.pathless.mapFrame change := by
  obtain ⟨frame, calls, _ | _⟩ := p <;> rfl

/-! ## Walks from another frame -/

/-- Changes the frame of a walk, also where it had a fault. -/
def reframe (change : Frame → Frame) (p : Progress) : Progress :=
  { p with frame := change p.frame }

theorem reframe_andThen_of_none {p : Progress} {change change' : Frame → Frame} {next next' : Frame → Progress}
    (hp : p.fault = none) (h : next (change p.frame) = (next' p.frame).reframe change') :
    (p.reframe change).andThen next = (p.andThen next').reframe change' := by
  obtain ⟨frame, calls, _ | _⟩ := p
  · simp only [reframe, Progress.andThen] at h ⊢
    rw [h]
  · cases hp

theorem reframe_andThen_of_fault {p : Progress} {change : Frame → Frame} {next next' : Frame → Progress}
    (hp : p.fault ≠ none) : (p.reframe change).andThen next = (p.andThen next').reframe change := by
  obtain ⟨frame, calls, _ | _⟩ := p
  · exact absurd rfl hp
  · rfl

theorem reframe_andThen {p : Progress} {change : Frame → Frame} {next next' : Frame → Progress}
    (h : next (change p.frame) = (next' p.frame).reframe change) :
    (p.reframe change).andThen next = (p.andThen next').reframe change := by
  by_cases hp : p.fault = none
  · exact reframe_andThen_of_none hp h
  · exact reframe_andThen_of_fault hp

theorem reframe_iterate (change : Frame → Frame) {step step' : Nat → Frame → Progress} :
    ∀ (n first : Nat) (p : Progress),
      (∀ k ∈ List.range' first n, ∀ f, step k (change f) = (step' k f).reframe change) →
        iterate step n first (p.reframe change) = (iterate step' n first p).reframe change
  | 0, _, _, _ => rfl
  | n + 1, first, p, h => by
    rw [List.range'_succ, List.forall_mem_cons] at h
    rw [iterate_succ, iterate_succ, reframe_andThen (h.1 p.frame), reframe_iterate change n _ _ h.2]

theorem reframe_mapFrame {change change' : Frame → Frame} (h : ∀ f, change' (change f) = change (change' f))
    (p : Progress) : (p.reframe change).mapFrame change' = (p.mapFrame change').reframe change := by
  obtain ⟨frame, calls, _ | _⟩ := p
  · simp only [reframe, Progress.mapFrame, h]
    rfl
  · rfl

end Progress

namespace Walker

open Progress

variable {w w' : Walker} {dim : Nat}

/-- The two bodies do alike at a call below `path` and the call that is as far below `path'`. -/
def Alike (w : Walker) (path : Path) (w' : Walker) (path' : Path) : Prop :=
  ∀ below x, w.body ⟨below ++ path, x⟩ = w'.body ⟨below ++ path', x⟩

theorem Alike.cons {path path' : Path} (h : w.Alike path w' path') (k : Nat) :
    w.Alike (k :: path) w' (k :: path') := fun below x => by
  simpa using h (below ++ [k]) x

/-! ## What does not read a range -/

mutual

/-- **What does not go over a dimension takes no notice of its range**, nor of the way down to it. -/
theorem run_setRange (hhost : w.onDevice = false) (hhost' : w'.onDevice = false) (s : Segment) :
    ∀ (t : Statement) (path path' : Path) (f : Frame), w.Alike path w' path' → ¬ t.Over dim → ¬ t.Threaded →
      (w.run path t (f.setRange dim s)).pathless = (w'.run path' t f).pathless.reframe (·.setRange dim s)
  | .loop d policy body, path, path', f, halike, hover, hthreads => by
    simp only [Statement.Over, Statement.Threaded, not_or] at hover hthreads
    have hgrain : grain? policy = none := by simpa using hthreads.1
    simp only [run, Frame.getElem?_setRange_of_ne f hover.1]
    cases f.ranges[d]? with
    | none => simp [stop, pathless, reframe, Frame.setRange]
    | some range =>
      simp only [loop, hgrain, pathless_iterate, pathless_start]
      exact reframe_iterate (·.setRange dim s) range.length 0 (.start f) fun k _ g => runAll_setRange hhost hhost' s
        body (k :: path) (k :: path') 0 (g.setIndex d (range.index k)) (halike.cons k) hover.2 hthreads.2
  | .kernel _ body, path, path', f, halike, hover, hthreads => by
    simp only [run]
    exact runAll_setRange hhost hhost' s body path path' 0 f halike hover hthreads
  | .segments d length body, path, path', f, halike, hover, hthreads => by
    simp only [Statement.Over, not_or] at hover
    simp only [run, Frame.getElem?_setRange_of_ne f hover.1]
    cases f.ranges[d]? with
    | none => simp [stop, pathless, reframe, Frame.setRange]
    | some range =>
      simp only [pieces, hhost, hhost', Bool.false_eq_true, if_false, pathless_mapFrame, pathless_iterate,
        pathless_start]
      rw [← reframe_mapFrame fun g => g.setRange_comm hover.1 s range]
      refine congrArg _ (reframe_iterate (·.setRange dim s) (range.chunkCount length) 0 (.start f) fun k _ g => ?_)
      rw [g.setRange_comm hover.1]
      exact runAll_setRange hhost hhost' s body (k :: path) (k :: path') 0 _ (halike.cons k) hover.2 hthreads
  | .barrier, _, _, _, _, _, _ => by
    simp [run, start, pathless, reframe]
  | .call, _, _, f, halike, _, _ => by
    have hcall := halike [] f.index
    rw [List.nil_append, List.nil_append] at hcall
    simp [run, call, hcall, pathless, reframe, Frame.setRange]

theorem runAll_setRange (hhost : w.onDevice = false) (hhost' : w'.onDevice = false) (s : Segment) :
    ∀ (ss : List Statement) (path path' : Path) (position : Nat) (f : Frame), w.Alike path w' path' →
      ¬ Statement.OverAny dim ss → ¬ Statement.ThreadedAny ss →
        (w.runAll path position ss (f.setRange dim s)).pathless =
          (w'.runAll path' position ss f).pathless.reframe (·.setRange dim s)
  | [], _, _, _, _, _, _, _ => by
    simp [runAll, start, pathless, reframe]
  | t :: rest, path, path', position, f, halike, hover, hthreads => by
    simp only [Statement.OverAny, Statement.ThreadedAny, not_or] at hover hthreads
    simp only [runAll, pathless_andThen]
    rw [run_setRange hhost hhost' s t (position :: path) (position :: path') f (halike.cons position) hover.1
      hthreads.1]
    exact reframe_andThen (runAll_setRange hhost hhost' s rest path path' (position + 1) _ halike hover.2 hthreads.2)

end

/-! ## Tiles -/

/-- The step at its `k`-th index of a loop over `s` that stands at `path`. -/
def stepOver (w : Walker) (path : Path) (dim : Nat) (s : Segment) (body : List Statement) (k : Nat) (f : Frame) :
    Progress :=
  (w.runAll (k :: path) 0 body (f.setIndex dim (s.index k))).pathless

/-- The `m`-th tile of `s`: the loop over its `m`-th piece. -/
def tile (w : Walker) (path : Path) (dim : Nat) (policy : Policy) (body : List Statement) (s : Segment) (len : UInt64)
    (m : Nat) (f : Frame) : Progress :=
  (w.runAll (m :: path) 0 [.loop dim policy body] (f.setRange dim (s.chunk len m))).pathless

/-- The way down to the `k`-th step of the whole loop where the loop is tiled. -/
def tilePath (len : UInt64) (path : Path) (k : Nat) : Path :=
  k % (Segment.step len).toNat :: 0 :: k / (Segment.step len).toNat :: path

theorem tilePath_eq {len : UInt64} {k : Nat} (hk : k < (Segment.step len).toNat) (path : Path) (m : Nat) :
    tilePath len path (m * (Segment.step len).toNat + k) = k :: 0 :: m :: path := by
  rw [tilePath, Nat.mul_comm, Nat.mul_add_mod, Nat.mul_add_div (Segment.step_pos len), Nat.mod_eq_of_lt hk,
    Nat.div_eq_of_lt hk, Nat.add_zero]

/-- A body of the tiled loop, whatever it does, has its fellow in the plain loop. -/
theorem exists_alike (w : Walker) (len : UInt64) (path path' : Path) :
    ∃ body, ∀ k, w.Alike (tilePath len path k) { w with body } (k :: path') := by
  let depth (c : Call) : Nat := c.path.length - (path'.length + 1)
  refine ⟨fun c => w.body ⟨c.path.take (depth c) ++ tilePath len path (c.path.getD (depth c) 0), c.index⟩, ?_⟩
  intro k below x
  have hdepth : depth ⟨below ++ k :: path', x⟩ = below.length := by
    simp only [depth, List.length_append, List.length_cons]
    omega
  simp [hdepth]

theorem tile_setRange (path : Path) (policy : Policy) (body : List Statement) (s t : Segment) (len : UInt64) (m : Nat)
    (f : Frame) : w.tile path dim policy body s len m (f.setRange dim t) = w.tile path dim policy body s len m f := by
  rw [tile, tile, Frame.setRange_setRange]

theorem ranges_stepOver {path : Path} {s : Segment} {body : List Statement} {f : Frame} {n : Nat}
    (h : (iterate (w.stepOver path dim s body) n 0 (.start f)).fault = none) :
    (iterate (w.stepOver path dim s body) n 0 (.start f)).frame.ranges = f.ranges := by
  have hstep : ∀ k g, g.ranges = f.ranges → (w.stepOver path dim s body k g).fault = none →
      (w.stepOver path dim s body k g).frame.ranges = f.ranges := fun k g hg hk =>
    (w.runAll_keeps body (k :: path) 0 (g.setIndex dim (s.index k)) hk).ranges.trans hg
  exact frame_iterate (P := (·.ranges = f.ranges)) hstep n 0 (p := .start f) rfl h

theorem run_loop_eq {policy : Policy} (hgrain : grain? policy = none) (body : List Statement) (path : Path)
    {s : Segment} {f : Frame} (hs : f.ranges[dim]? = some s) :
    (w.run path (.loop dim policy body) f).pathless = iterate (w.stepOver path dim s body) s.length 0 (.start f) := by
  simp only [run, hs, loop, hgrain, pathless_iterate, pathless_start]
  rfl

section

variable (hhost : w.onDevice = false) (hhost' : w'.onDevice = false) {policy : Policy} {body : List Statement}
  (hover : ¬ Statement.OverAny dim body) (hthreads : ¬ Statement.Threaded (.loop dim policy body))
  {s : Segment} {len : UInt64} (hlen : (len.toNat : Int) ≤ Int64.maxValue.toInt) {path path' : Path}
  (halike : ∀ k, w.Alike (tilePath len path k) w' (k :: path'))

include hhost hhost' hover hthreads hlen halike

/-- A tile takes the steps of the whole loop from its own first index on. -/
theorem tile_eq {m : Nat} (hm : m * (Segment.step len).toNat < s.length) {f : Frame}
    (hdim : dim < f.ranges.length) :
    w.tile path dim policy body s len m f =
      (iterate (w'.stepOver path' dim s body)
        (min (Segment.step len).toNat (s.length - m * (Segment.step len).toNat)) (m * (Segment.step len).toNat)
        (.start f)).reframe (·.setRange dim (s.chunk len m)) := by
  simp only [Statement.Threaded, not_or] at hthreads
  have hgrain : grain? policy = none := by simpa using hthreads.1
  have hbegin : (s.chunk len m).begin.toInt = _ := Segment.toInt_chunkBegin hm
  have hindex : ∀ k, (s.chunk len m).index k = s.index (m * (Segment.step len).toNat + k) := fun k => by
    rw [Segment.index, Segment.index, hbegin]
    omega
  have hshift := iterate_shift (w'.stepOver path' dim s body) (m * (Segment.step len).toNat)
    (min (Segment.step len).toNat (s.length - m * (Segment.step len).toNat)) 0 (.start f)
  rw [Nat.add_zero] at hshift
  rw [tile, runAll_singleton, run_loop_eq hgrain _ _ (Frame.getElem?_setRange_self hdim _),
    Segment.length_chunk hlen hm, ← hshift]
  refine reframe_iterate (·.setRange dim (s.chunk len m)) _ _ (.start f) fun k hk g => ?_
  have hk : k < (Segment.step len).toNat := by
    have hmem := (List.mem_range'_1.1 hk).2
    omega
  have hcalls := halike (m * (Segment.step len).toNat + k)
  rw [tilePath_eq hk] at hcalls
  rw [stepOver, stepOver, hindex]
  exact runAll_setRange hhost hhost' _ body _ _ 0 (g.setIndex dim _) hcalls hover hthreads.2

/-- **The first tiles take the first steps of the whole loop**, and leave a range of their own in its dimension. -/
theorem iterate_tiles {f : Frame} (hs : f.ranges[dim]? = some s) :
    ∀ m ≤ s.chunkCount len, ∃ t, iterate (w.tile path dim policy body s len) m 0 (.start f) =
      (iterate (w'.stepOver path' dim s body) (min s.length (m * (Segment.step len).toNat)) 0 (.start f)).reframe
        (·.setRange dim t)
  | 0, _ => by
    refine ⟨s, ?_⟩
    simp [iterate, reframe, start, Frame.setRange_self hs]
  | m + 1, hm => by
    obtain ⟨t, ht⟩ := iterate_tiles hs m (Nat.le_of_succ_le hm)
    have hfirst := Segment.lt_chunkCount_iff.1 hm
    have hsteps : min s.length ((m + 1) * (Segment.step len).toNat) = m * (Segment.step len).toNat +
        min (Segment.step len).toNat (s.length - m * (Segment.step len).toNat) := by
      rw [Nat.succ_mul]
      omega
    rw [iterate_add, ht, iterate_succ, hsteps, iterate_add, Nat.min_eq_right (Nat.le_of_lt hfirst),
      iterate_eq_andThen _ (min _ _), Nat.zero_add, Nat.zero_add]
    by_cases hnone : (iterate (w'.stepOver path' dim s body) (m * (Segment.step len).toNat) 0 (.start f)).fault = none
    · refine ⟨s.chunk len m, reframe_andThen_of_none hnone ?_⟩
      have hdim := (List.getElem?_eq_some_iff.1 hs).1
      rw [tile_setRange]
      exact tile_eq hhost hhost' hover hthreads hlen halike hfirst (by rwa [ranges_stepOver hnone])
    · exact ⟨t, reframe_andThen_of_fault hnone⟩

end

/--
**On the host a loop cut into tiles is the plain loop**: where no loop goes
to several threads and nothing inside goes over the same dimension, pieces of
any length that is a signed 64-bit number give the same tuples in the same
order, the same fault and the same frame, wherever the two loops stand.

The body may do at each call what it likes, as long as it does so in both
loops; `tilePath` says which calls answer to each other. A body that goes by
the tuple does, and any other has its fellow (`exists_alike`).

A walk that is stopped leaves its frame to nobody. There the range of the
dimension may still be a piece, and all else is as the plain loop has it.
-/
theorem tiled_loop_agrees (hhost : w.onDevice = false) (hhost' : w'.onDevice = false) {policy : Policy}
    {body : List Statement} (hover : ¬ Statement.OverAny dim body)
    (hthreads : ¬ Statement.Threaded (.loop dim policy body)) {len : UInt64}
    (hlen : (len.toNat : Int) ≤ Int64.maxValue.toInt) (path path' : Path)
    (halike : ∀ k, w.Alike (tilePath len path k) w' (k :: path')) (f : Frame) :
    let tiled := w.run path (.segments dim len [.loop dim policy body]) f
    let plain := w'.run path' (.loop dim policy body) f
    tiled.visits = plain.visits ∧ tiled.fault = plain.fault ∧ (plain.fault = none → tiled.frame = plain.frame) ∧
      ∀ t, tiled.frame.setRange dim t = plain.frame.setRange dim t := by
  intro tiled plain
  cases hs : f.ranges[dim]? with
  | none =>
    have htiled : tiled = .stop f (.noDimension f.ranges.length dim) := by simp only [tiled, run, hs]
    have hplain : plain = .stop f (.noDimension f.ranges.length dim) := by simp only [plain, run, hs]
    rw [htiled, hplain]
    exact ⟨rfl, rfl, fun _ => rfl, fun _ => rfl⟩
  | some s =>
    have hgrain : grain? policy = none := by
      simp only [Statement.Threaded, not_or] at hthreads
      simpa using hthreads.1
    obtain ⟨last, hlast⟩ := iterate_tiles hhost hhost' hover hthreads hlen halike hs _ le_rfl
    have hall := mt Segment.lt_chunkCount_iff.2 (Nat.lt_irrefl (s.chunkCount len))
    have hplain : plain.pathless = iterate (w'.stepOver path' dim s body) s.length 0 (.start f) :=
      run_loop_eq hgrain body path' hs
    have htiled : tiled.pathless = (plain.pathless.reframe (·.setRange dim last)).mapFrame (·.setRange dim s) := by
      rw [Nat.min_eq_left (Nat.not_lt.1 hall), ← hplain] at hlast
      simp only [tiled, run, hs, pieces, hhost, Bool.false_eq_true, if_false, pathless_mapFrame, pathless_iterate,
        pathless_start]
      exact congrArg (mapFrame (·.setRange dim s)) hlast
    have hkeeps : plain.fault = none → plain.frame.setRange dim s = plain.frame := fun hnone => by
      rw [← fault_pathless, hplain] at hnone
      rw [← frame_pathless, hplain]
      exact Frame.setRange_self (by rw [ranges_stepOver hnone, hs])
    rw [← visits_pathless tiled, ← fault_pathless tiled, ← frame_pathless tiled, htiled]
    refine ⟨?_, by simp [reframe], fun hnone => ?_, fun t => ?_⟩
    · rw [visits_mapFrame]
      exact visits_pathless plain
    · rw [frame_mapFrame (by exact hnone), reframe, frame_pathless, Frame.setRange_setRange, hkeeps hnone]
    · unfold mapFrame
      split <;> simp only [reframe, frame_pathless, Frame.setRange_setRange]

/-- Five indices up to the last one, in tiles of two, with a loop over another dimension inside. -/
theorem tiled_loop_agrees_uneven :
    let w : Walker := ⟨fun _ => none, .serial, false⟩
    let s : Segment := ⟨9223372036854775802, 9223372036854775807⟩
    let f : Frame := ⟨[s, ⟨0, 2⟩], [0, 0]⟩
    let body : List Statement := [.loop 1 .sequential [.call]]
    let tiled := w.run [] (.segments 0 2 [.loop 0 .sequential body]) f
    let plain := w.run [] (.loop 0 .sequential body) f
    s.chunkCount 2 = 3 ∧ plain.visits.size = 10 ∧ tiled.visits = plain.visits ∧ tiled.frame = plain.frame := by
  intro w s f body tiled plain
  have hover : ¬ Statement.OverAny 0 body := by simp [body, Statement.OverAny, Statement.Over]
  have hthreads : ¬ Statement.Threaded (.loop 0 .sequential body) := by
    simp [body, Statement.Threaded, Statement.ThreadedAny, grain?]
  have hagrees := @tiled_loop_agrees w w 0 rfl rfl .sequential body hover hthreads 2 (by decide) [] []
    (fun _ _ _ => rfl) f
  exact ⟨by decide, by decide +kernel, hagrees.1, hagrees.2.2.1 (by decide +kernel)⟩

end Walker

end AdaptiveLoops
