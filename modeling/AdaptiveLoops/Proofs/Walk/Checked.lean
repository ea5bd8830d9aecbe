/-
Walks with every access checked.

A walk writes to its frame and cuts pieces without looking whether it may:
a dimension that is not there is not written, and a number that is no 64-bit
number stays at the last one that is. The checked walk stops instead, at a
write outside of the frame, at an index or a begin of a piece that is no
64-bit number, and at pieces with a step of zero. Below a tree that is valid
for the rank of its frame no check ever fails (`checkedRun_eq`).
-/
import AdaptiveLoops.Proofs.Segment.Pieces
import AdaptiveLoops.Proofs.Walk.Frame

namespace AdaptiveLoops

/-! ## Checked accesses -/

/-- A number where it is a 64-bit number. -/
def checkedIndex (i : Int) : Except Fault Int :=
  if Int64.minValue.toInt ≤ i ∧ i ≤ Int64.maxValue.toInt then .ok i else .error .overflow

namespace Segment

/-- Piece `k`, where the pieces get on at all and it begins at a 64-bit number. -/
def chunk? (s : Segment) (len : UInt64) (k : Nat) : Except Fault Segment :=
  if step len = 0 then .error (.panic (.literal "assertion failed: step != 0"))
  else (checkedIndex (s.begin.toInt + k * (step len).toNat)).map fun _ => s.chunk len k

theorem checkedIndex_index {s : Segment} {k : Nat} (hk : k < s.length) :
    checkedIndex (s.index k) = .ok (s.index k) := by
  have hlo := s.begin.minValue_le_toInt
  have hhi := s.stop.toInt_le
  have hend := begin_add_length (s := s) (by omega)
  refine if_pos ?_
  simp only [index]
  omega

theorem checkedIndex_indexAtOffset? {s : Segment} {k : Nat} {i : Int} (hi : s.indexAtOffset? k = some i) :
    checkedIndex i = .ok i := by
  simp only [indexAtOffset?] at hi
  split at hi
  · next h =>
    cases hi
    exact if_pos h
  · cases hi

/-- **Pieces get on, and none begins past the last index.** -/
theorem chunk?_eq_ok {s : Segment} {len : UInt64} {k : Nat} (hk : k < s.chunkCount len) :
    s.chunk? len k = .ok (s.chunk len k) := by
  have hpos := step_pos len
  have hne : step len ≠ 0 := by
    intro h
    rw [h] at hpos
    exact absurd hpos (by decide)
  have hbegin := toInt_chunkBegin (lt_chunkCount_iff.1 hk)
  have hlo := (s.chunkBegin len k).minValue_le_toInt
  have hhi := (s.chunkBegin len k).toInt_le
  push_cast at hbegin
  rw [hbegin] at hlo hhi
  rw [chunk?, if_neg hne, checkedIndex, if_pos ⟨hlo, hhi⟩]
  rfl

end Segment

namespace Frame

def setIndex? (f : Frame) (dim : Nat) (i : Int) : Except Fault Frame :=
  if dim < f.index.length then (checkedIndex i).map (f.setIndex dim)
  else .error (.noDimension f.index.length dim)

def setRange? (f : Frame) (dim : Nat) (s : Segment) : Except Fault Frame :=
  if dim < f.ranges.length then .ok (f.setRange dim s) else .error (.noDimension f.ranges.length dim)

/-- The frame of a space of the rank. -/
structure OfRank (rank : Nat) (f : Frame) : Prop where
  ranges : f.ranges.length = rank
  index : f.index.length = rank

namespace OfRank

variable {rank dim : Nat} {f g : Frame}

theorem ofSpace (space : IterationSpace) : (ofSpace space).OfRank space.rank :=
  ⟨rfl, by simp [Frame.ofSpace, IterationSpace.rank]⟩

theorem exists_range (h : f.OfRank rank) (hdim : dim < rank) : ∃ s, f.ranges[dim]? = some s :=
  ⟨_, List.getElem?_eq_getElem (by rw [h.ranges]; exact hdim)⟩

theorem keeps {changed : Nat → Prop} (h : f.OfRank rank) (hk : Keeps changed f g) : g.OfRank rank :=
  ⟨by rw [hk.ranges, h.ranges], by rw [hk.length, h.index]⟩

theorem setIndex (h : f.OfRank rank) (dim : Nat) (i : Int) : (f.setIndex dim i).OfRank rank :=
  h.keeps (.setIndex f dim i)

theorem setRange (h : f.OfRank rank) (dim : Nat) (s : Segment) : (f.setRange dim s).OfRank rank :=
  ⟨by simp [Frame.setRange, h.ranges], h.index⟩

theorem setIndex?_eq_ok (h : f.OfRank rank) (hdim : dim < rank) {i : Int} (hi : checkedIndex i = .ok i) :
    f.setIndex? dim i = .ok (f.setIndex dim i) := by
  rw [setIndex?, if_pos (by rw [h.index]; exact hdim), hi]
  rfl

theorem setRange?_eq_ok (h : f.OfRank rank) (hdim : dim < rank) (s : Segment) :
    f.setRange? dim s = .ok (f.setRange dim s) :=
  if_pos (by rw [h.ranges]; exact hdim)

end OfRank

end Frame

/-! ## The checked walk -/

/-- Goes on with what a check gives, or stops at `f`. -/
def Progress.check {α : Type} (f : Frame) (checked : Except Fault α) (next : α → Progress) : Progress :=
  match checked with
  | .error fault => .stop f fault
  | .ok a => next a

namespace Walker

open Progress

variable (w : Walker)

def checkedLoop (path : Path) (dim : Nat) (policy : Policy) (s : Segment) (body : Path → Frame → Progress)
    (f : Frame) : Progress :=
  match grain? policy with
  | none =>
    iterate (fun k f => check f (f.setIndex? dim (s.index k)) (body (k :: path))) s.length 0 (.start f)
  | some grain =>
    parallel
      (fun k f =>
        match s.indexAtOffset? k with
        | some i => check f (f.setIndex? dim i) (body (k :: path))
        | none => .stop f .overflow)
      f (w.schedule.runs path grain s.length)

def checkedPieces (path : Path) (dim : Nat) (length : UInt64) (s : Segment) (body : Path → Frame → Progress)
    (f : Frame) : Progress :=
  let step := fun k f =>
    check f (s.chunk? length k) fun piece => check f (f.setRange? dim piece) (body (k :: path))
  if w.onDevice then
    if Memory.capacity 16 < s.chunkCount length then .stop f .noRoom
    else parallel step f (w.schedule.runs path 1 (s.chunkCount length))
  else
    (iterate step (s.chunkCount length) 0 (.start f)).andThen fun g => check g (g.setRange? dim s) .start

mutual

/-- The walk of a tree that stops at the first access that is out of bounds. -/
def checkedRun (path : Path) : Statement → Frame → Progress
  | .loop dim policy body, f =>
    match f.ranges[dim]? with
    | none => .stop f (.noDimension f.ranges.length dim)
    | some s => checkedLoop w path dim policy s (fun path f => checkedRunAll path 0 body f) f
  | .kernel _ body, f => checkedRunAll path 0 body f
  | .segments dim length body, f =>
    match f.ranges[dim]? with
    | none => .stop f (.noDimension f.ranges.length dim)
    | some s => checkedPieces w path dim length s (fun path f => checkedRunAll path 0 body f) f
  | .barrier, f => .start f
  | .call, f => w.call path f

def checkedRunAll (path : Path) (position : Nat) : List Statement → Frame → Progress
  | [], f => .start f
  | s :: rest, f => (checkedRun (position :: path) s f).andThen (checkedRunAll path (position + 1) rest)

end

section

variable {rank dim : Nat} {path : Path} {s : Segment} {body body' : Path → Frame → Progress}

theorem checkedLoop_eq {policy : Policy} (hdim : dim < rank)
    (hbody : ∀ path g, g.OfRank rank → body path g = body' path g)
    (hrank : ∀ path g, g.OfRank rank → (body' path g).fault = none → (body' path g).frame.OfRank rank)
    {f : Frame} (hf : f.OfRank rank) :
    w.checkedLoop path dim policy s body f = w.loop path dim policy s body' f := by
  simp only [checkedLoop, loop]
  cases grain? policy with
  | none =>
    refine iterate_congr (P := Frame.OfRank rank) (fun k g hg => hrank _ _ (hg.setIndex dim _)) _ _ hf ?_
    intro k hk g hg
    have hindex := Segment.checkedIndex_index (s := s) (k := k) (by simpa using hk)
    rw [hg.setIndex?_eq_ok hdim hindex]
    exact hbody _ _ (hg.setIndex dim _)
  | some grain =>
    refine parallel_congr (P := Frame.OfRank rank) (fun k g hg hnone => ?_) hf (fun k _ g hg => ?_)
    · split at hnone
      · exact hrank _ _ (hg.setIndex dim _) hnone
      · cases hnone
    · cases hi : s.indexAtOffset? k with
      | none => rfl
      | some i =>
        simp only [hg.setIndex?_eq_ok hdim (Segment.checkedIndex_indexAtOffset? hi)]
        exact hbody _ _ (hg.setIndex dim i)

theorem checkedPieces_eq {length : UInt64} (hdim : dim < rank)
    (hbody : ∀ path g, g.OfRank rank → body path g = body' path g)
    (hrank : ∀ path g, g.OfRank rank → (body' path g).fault = none → (body' path g).frame.OfRank rank)
    {f : Frame} (hf : f.OfRank rank) :
    w.checkedPieces path dim length s body f = w.pieces path dim length s body' f := by
  have hstep : ∀ k < s.chunkCount length, ∀ g : Frame, g.OfRank rank →
      (check g (s.chunk? length k) fun piece => check g (g.setRange? dim piece) (body (k :: path))) =
        body' (k :: path) (g.setRange dim (s.chunk length k)) := by
    intro k hk g hg
    rw [Segment.chunk?_eq_ok hk, check, hg.setRange?_eq_ok hdim]
    exact hbody _ _ (hg.setRange dim _)
  have hframe : ∀ k (g : Frame), g.OfRank rank → (body' (k :: path) (g.setRange dim (s.chunk length k))).fault = none →
      (body' (k :: path) (g.setRange dim (s.chunk length k))).frame.OfRank rank :=
    fun k g hg => hrank _ _ (hg.setRange dim _)
  simp only [checkedPieces, pieces]
  split
  · split
    · rfl
    · refine parallel_congr hframe hf fun k hk => hstep k ?_
      exact List.mem_range.1 ((w.schedule.covers path 1 (s.chunkCount length)).mem_iff.1 hk)
  · rw [iterate_congr hframe _ _ hf fun k hk => hstep k (by simpa using hk), mapFrame_eq_andThen]
    refine andThen_congr fun hnone => ?_
    have hlast := frame_iterate hframe _ _ (p := .start f) hf hnone
    rw [hlast.setRange?_eq_ok hdim]
    rfl

end

section

variable {rank : Nat}

theorem runAll_ofRank (ss : List Statement) (path : Path) (f : Frame) (hf : f.OfRank rank)
    (hnone : (w.runAll path 0 ss f).fault = none) : (w.runAll path 0 ss f).frame.OfRank rank :=
  hf.keeps (w.runAll_keeps ss path 0 f hnone)

mutual

/-- **Below a valid tree no check fails**: nothing is read or written outside of the frame. -/
theorem checkedRun_eq : ∀ (t : Statement) (path : Path) {enclosing : Option Nat} {f : Frame},
    Statement.checkBelow rank enclosing t = .ok () → f.OfRank rank → w.checkedRun path t f = w.run path t f
  | .loop dim policy body, path, enclosing, f, hc, hf => by
    obtain ⟨⟨hdim, -⟩, hbelow⟩ := Statement.checkBelow_loop.1 hc
    obtain ⟨s, hs⟩ := hf.exists_range hdim
    simp only [checkedRun, run, hs]
    exact w.checkedLoop_eq hdim (fun path g hg => checkedRunAll_eq body path 0 hbelow hg)
      (fun path => w.runAll_ofRank body path) hf
  | .kernel _ body, path, enclosing, f, hc, hf => by
    simp only [Statement.checkBelow] at hc
    simp only [checkedRun, run]
    exact checkedRunAll_eq body path 0 hc hf
  | .segments dim length body, path, enclosing, f, hc, hf => by
    obtain ⟨⟨hdim, -⟩, hbelow⟩ := Statement.checkBelow_segments.1 hc
    obtain ⟨s, hs⟩ := hf.exists_range hdim
    simp only [checkedRun, run, hs]
    exact w.checkedPieces_eq hdim (fun path g hg => checkedRunAll_eq body path 0 hbelow hg)
      (fun path => w.runAll_ofRank body path) hf
  | .barrier, path, enclosing, f, _, _ => by
    rw [checkedRun, run]
  | .call, path, enclosing, f, _, _ => by
    rw [checkedRun, run]

theorem checkedRunAll_eq : ∀ (ss : List Statement) (path : Path) (position : Nat) {enclosing : Option Nat}
    {f : Frame}, Statement.checkAllBelow rank enclosing ss = .ok () → f.OfRank rank →
      w.checkedRunAll path position ss f = w.runAll path position ss f
  | [], path, position, enclosing, f, _, _ => by
    rw [checkedRunAll, runAll]
  | s :: rest, path, position, enclosing, f, hc, hf => by
    obtain ⟨hs, hrest⟩ := Statement.checkAllBelow_cons.1 hc
    rw [checkedRunAll, runAll, checkedRun_eq s (position :: path) hs hf]
    refine andThen_congr fun hnone => ?_
    exact checkedRunAll_eq rest path (position + 1) hrest (hf.keeps (w.run_keeps s _ f hnone))

end

end

end Walker

end AdaptiveLoops
