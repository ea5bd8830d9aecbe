/-
Policies in a tree are pure scheduling.

A validated tree whose calls are all bound passes one multiset of tuples to
the body, however its loops and kernels are labelled, however the parallel
loops are split, and on either side. On the device that takes room for the
lists of pieces, and a walk that finds none says so (`run_noRoom`).
-/
import AdaptiveLoops.Proofs.Statement.Build
import AdaptiveLoops.Proofs.Walk.Tuples

namespace AdaptiveLoops

open Progress IterationSpace

theorem Frame.ofSpace_agrees (space : IterationSpace) :
    (ofSpace space).Agrees space.rank [] (ofSpace space).index where
  ranges := rfl
  length := by simp [ofSpace, IterationSpace.rank]
  same := by simp
  length_index := by simp [ofSpace, IterationSpace.rank]

namespace Walker

theorem run_ofSpace_yields_of_threaded (w : Walker) (hbody : ∀ x, w.body x = none) {t : Statement}
    {space : IterationSpace} (hvalid : t.validate space.rank = .ok ())
    (hbound : t.CallsBound space.rank []) (haddr : t.Threaded → space.Addressable) (path : Path) :
    Yields (w.onDevice = true → t.Fits space.segments)
      (t.tuples space.segments (Frame.ofSpace space).index) (w.run path t (.ofSpace space)) :=
  w.run_yields (f := .ofSpace space) hbody t path (Statement.validate_eq_ok.1 hvalid) hbound haddr (by simp)
    (Frame.ofSpace_agrees space)

theorem run_ofSpace_yields (w : Walker) (hbody : ∀ x, w.body x = none) {t : Statement}
    {space : IterationSpace} (hvalid : t.validate space.rank = .ok ())
    (hbound : t.CallsBound space.rank []) (haddr : space.Addressable) (path : Path) :
    Yields (w.onDevice = true → t.Fits space.segments)
      (t.tuples space.segments (Frame.ofSpace space).index) (w.run path t (.ofSpace space)) :=
  w.run_ofSpace_yields_of_threaded hbody hvalid hbound (fun _ => haddr) path

/-- A device kernel that begins with more pieces than can be listed passes nothing to the body. -/
theorem run_noRoom {w : Walker} (hdevice : w.onDevice = true) {f : Frame} {dim : Nat} {s : Segment}
    (hs : f.ranges[dim]? = some s) {length : UInt64} (hmany : Memory.capacity 16 < s.chunkCount length)
    {path : Path} {policy : Policy} {body rest : List Statement} :
    w.run path (.kernel policy (.segments dim length body :: rest)) f = .stop f .noRoom := by
  have hpieces : w.run (0 :: path) (.segments dim length body) f = .stop f .noRoom := by
    simp only [run, hs, pieces]
    rw [if_pos hdevice, if_pos hmany]
  rw [run, runAll, hpieces]
  rfl

/--
**Policies are pure scheduling**: all walks of relabelled copies of a tree
pass the same tuples to the body, each the same number of times. A device
walk does so exactly where it has room for its pieces.
-/
theorem relabelled_walks_agree {t : Statement} {space : IterationSpace}
    (hvalid : t.validate space.rank = .ok ()) (hbound : t.CallsBound space.rank [])
    (haddr : space.Addressable) :
    ∃ ts : List Tuple, ∀ (t' : Statement) (w : Walker) (path : Path),
      t'.unlabelled = t.unlabelled → (∀ x, w.body x = none) →
        let p := w.run path t' (.ofSpace space)
        ((w.onDevice = true → t.Fits space.segments) → p.fault = none ∧ p.visits.toList.Perm ts) ∧
        (¬ (w.onDevice = true → t.Fits space.segments) → p.fault = some .noRoom) := by
  refine ⟨t.tuples space.segments (Frame.ofSpace space).index, fun t' w path hlabels hbody => ?_⟩
  have hvalid' : t'.validate space.rank = .ok () := by
    rw [Statement.validate_eq_ok] at hvalid ⊢
    rw [← Statement.checkBelow_unlabelled, hlabels, Statement.checkBelow_unlabelled, hvalid]
  have hbound' : t'.CallsBound space.rank [] := by
    rw [← Statement.callsBound_unlabelled, hlabels, Statement.callsBound_unlabelled]
    exact hbound
  have h := w.run_ofSpace_yields hbody hvalid' hbound' haddr path
  rw [← Statement.fits_unlabelled, ← Statement.tuples_unlabelled, hlabels,
    Statement.fits_unlabelled, Statement.tuples_unlabelled] at h
  exact ⟨h.done, h.full⟩

/-- A kernel over pieces of dimension 0 of the given length, with a threaded loop inside. -/
def tiledTree (length : UInt64) : Statement :=
  .kernel .sequential [.segments 0 length [.loop 0 (.threaded 1) [.call]], .barrier]

theorem relabelled_walks_agree_tiled : ∃ ts : List Tuple, ∀ (t' : Statement) (w : Walker) (path : Path),
    t'.unlabelled = (tiledTree 2).unlabelled → (∀ x, w.body x = none) →
      let p := w.run path t' (.ofSpace ⟨[⟨-1, 4⟩]⟩)
      ((w.onDevice = true → (tiledTree 2).Fits [⟨-1, 4⟩]) → p.fault = none ∧ p.visits.toList.Perm ts) ∧
      (¬ (w.onDevice = true → (tiledTree 2).Fits [⟨-1, 4⟩]) → p.fault = some .noRoom) :=
  @relabelled_walks_agree (tiledTree 2) ⟨[⟨-1, 4⟩]⟩ rfl
    (by simp [tiledTree, Statement.CallsBound, Statement.CallsBoundAll, IterationSpace.rank])
    (by simp [IterationSpace.Addressable, Segment.Addressable]; decide)

/-- In pieces of a single index, the device has no room for a long dimension, and the host needs none. -/
theorem device_walk_without_room :
    (tiledTree 1).validate longest.rank = .ok () ∧ (tiledTree 1).CallsBound longest.rank [] ∧
    longest.Addressable ∧ ∃ w w' : Walker, (∀ x, w.body x = none) ∧ (∀ x, w'.body x = none) ∧
      ¬ (w.run [] (tiledTree 1) (.ofSpace longest)).visits.toList.Perm
        (w'.run [] (tiledTree 1) (.ofSpace longest)).visits.toList := by
  have hbound : (tiledTree 1).CallsBound longest.rank [] := by
    simp [tiledTree, longest, Statement.CallsBound, Statement.CallsBoundAll, rank]
  refine ⟨rfl, hbound, longest_addressable, ⟨fun _ => none, .serial, true⟩,
    ⟨fun _ => none, .serial, false⟩, fun _ => rfl, fun _ => rfl, fun hperm => ?_⟩
  have htuples : (tiledTree 1).tuples longest.segments (Frame.ofSpace longest).index = longest.tuples := by
    have h : (Statement.ofPolicy (.device 1 .sync) 1).unlabelled.tuples longest.segments
        (Frame.ofSpace longest).index = longest.tuples := by
      rw [Statement.tuples_unlabelled]
      exact Statement.tuples_ofPolicy rfl (by decide) (by rintro _ ⟨⟩; decide)
    rwa [← Statement.tuples_unlabelled]
  have hdevice : (Walker.mk (fun _ => none) .serial true).run [] (tiledTree 1) (.ofSpace longest) =
      .stop (.ofSpace longest) .noRoom := run_noRoom rfl rfl (by decide)
  have hhost := (Walker.mk (fun _ => none) .serial false).run_ofSpace_yields (fun _ => rfl) rfl hbound
    longest_addressable []
  rw [htuples] at hhost
  rw [hdevice, visits_stop] at hperm
  have hnil : longest.tuples = [] := (hperm.trans (hhost.done (by simp)).2).nil_eq.symm
  have hzero := zero_mem_tuples_longest
  rw [hnil] at hzero
  exact List.not_mem_nil hzero

end Walker

end AdaptiveLoops
