/-
Walks and the tuples read off a tree.

`run_yields` is the simulation: a walk of a validated tree whose calls are
all bound passes exactly the tuples of the tree to the body, in some order,
whatever the policies, the schedule and the side it runs on. The invariant
is `Frame.Agrees`: a walk's frame may differ from the one the tuples are
read with, but only in dimensions that are still to be bound.

The one thing that can stop such a walk is room: on the device the pieces of
a dimension are listed before any of them runs. Segments have to be
addressable only for loops that go to several threads, which reach their
indices by offsets.
-/
import AdaptiveLoops.Proofs.Statement.Tuples
import AdaptiveLoops.Proofs.Walk.Frame

namespace AdaptiveLoops

/-! ## Frames that agree where it matters -/

/-- A frame of a space of `rank` that has the indices of `index` in the dimensions in `bound`. -/
structure Frame.Agrees (rank : Nat) (bound : List Nat) (index : Tuple) (f : Frame) : Prop where
  ranges : f.ranges.length = rank
  length : f.index.length = rank
  same : ∀ d ∈ bound, f.index[d]? = index[d]?
  length_index : index.length = rank

namespace Frame.Agrees

variable {rank : Nat} {bound : List Nat} {index : Tuple} {f g : Frame}

theorem keeps {changed : Nat → Prop} (h : f.Agrees rank bound index) (hk : Keeps changed f g)
    (hbound : ∀ d ∈ bound, ¬ changed d) : g.Agrees rank bound index where
  ranges := by rw [hk.ranges, h.ranges]
  length := by rw [hk.length, h.length]
  same d hd := by rw [hk.index d (hbound d hd), h.same d hd]
  length_index := h.length_index

theorem setIndex (h : f.Agrees rank bound index) (dim : Nat) (i : Int) :
    (f.setIndex dim i).Agrees rank (dim :: bound) (index.set dim i) where
  ranges := h.ranges
  length := by simp [Frame.setIndex, h.length]
  same d hd := by
    simp only [Frame.setIndex, List.getElem?_set, h.length, h.length_index]
    split
    · rfl
    · next hne =>
      rcases List.mem_cons.1 hd with rfl | hd
      · exact absurd rfl hne
      · exact h.same d hd
  length_index := by simp [h.length_index]

theorem setRange (h : f.Agrees rank bound index) (dim : Nat) (s : Segment) :
    (f.setRange dim s).Agrees rank bound index where
  ranges := by simp [Frame.setRange, h.ranges]
  length := h.length
  same := h.same
  length_index := h.length_index

/-- Where every dimension is bound, the frame's tuple is the one read off the tree. -/
theorem index_eq (h : f.Agrees rank bound index) (hbound : ∀ d < rank, d ∈ bound) : f.index = index := by
  refine List.ext_getElem? fun d => ?_
  by_cases hd : d < rank
  · exact h.same d (hbound d hd)
  · rw [List.getElem?_eq_none (by have := h.length; omega),
      List.getElem?_eq_none (by have := h.length_index; omega)]

end Frame.Agrees

namespace Walker

open Progress

variable (w : Walker) {rank : Nat}

theorem loop_yields {P : Frame → Prop} {path : Path} {dim : Nat} {policy : Policy} {s : Segment}
    {body : Path → Frame → Progress} {f : Frame} {room : Prop} {F : Int → List Tuple}
    (hs : (grain? policy).isSome = true → s.Addressable)
    (hstep : ∀ path g i, P g →
      Yields (w.onDevice = true → room) (F i) (body path (g.setIndex dim i)))
    (hframe : ∀ path g i, P g → (body path (g.setIndex dim i)).fault = none →
      P (body path (g.setIndex dim i)).frame)
    (hf : P f) :
    Yields (w.onDevice = true → 0 < s.length → room) (s.indices.flatMap F)
      (w.loop path dim policy s body f) := by
  have htuples : (List.range s.length).flatMap (fun k => F (s.index k)) = s.indices.flatMap F := by
    rw [Segment.indices, List.flatMap_map]
  have hroom : (w.onDevice = true → 0 < s.length → room) ↔ ∀ k < s.length, w.onDevice = true → room :=
    ⟨fun h k hk hdev => h hdev (by omega), fun h hdev hpos => h 0 hpos hdev⟩
  rw [loop]
  split
  · have h := Yields.iterate (fun k g hg => hframe (k :: path) g (s.index k) hg)
      (fun k (_ : k ∈ List.range' 0 s.length) g hg => hstep (k :: path) g (s.index k) hg)
      (Yields.start f) fun _ => hf
    refine h.congr ?_ ?_
    · simpa [List.mem_range'_1] using hroom
    · simp [← htuples, List.range_eq_range']
  · next grain hgrain =>
    refine Yields.congr ?_ hroom (.of_eq htuples)
    refine Yields.parallel (w.schedule.covers path grain s.length) ?_ ?_ hf
    · intro k hk g hg
      simp only [Segment.indexAtOffset?_eq_some (hs (by simp [hgrain])) hk]
      exact hstep (k :: path) g (s.index k) hg
    · intro k g hg h
      split at h
      · exact hframe (k :: path) g _ hg h
      · cases h

theorem pieces_yields {P : Frame → Prop} {path : Path} {dim : Nat} {length : UInt64} {s : Segment}
    {body : Path → Frame → Progress} {f : Frame} {room : Segment → Prop} {F : Segment → List Tuple}
    (hstep : ∀ path g piece, piece ∈ s.chunks length → P g →
      Yields (w.onDevice = true → room piece) (F piece) (body path (g.setRange dim piece)))
    (hframe : ∀ path g piece, P g → (body path (g.setRange dim piece)).fault = none →
      P (body path (g.setRange dim piece)).frame)
    (hf : P f) :
    Yields
      (w.onDevice = true → s.chunkCount length ≤ Memory.capacity 16 ∧ ∀ piece ∈ s.chunks length, room piece)
      ((s.chunks length).flatMap F) (w.pieces path dim length s body f) := by
  have hmem : ∀ k < s.chunkCount length, s.chunk length k ∈ s.chunks length := fun k hk =>
    List.mem_map_of_mem (List.mem_range.2 hk)
  have htuples : (List.range (s.chunkCount length)).flatMap (fun k => F (s.chunk length k)) =
      (s.chunks length).flatMap F := by
    rw [Segment.chunks, List.flatMap_map]
  have hroom : (∀ piece ∈ s.chunks length, room piece) ↔
      ∀ k < s.chunkCount length, room (s.chunk length k) := by
    simp [Segment.chunks]
  simp only [pieces]
  split
  · next hdev =>
    split
    · next hmany =>
      exact ⟨fun h => absurd (h hdev).1 (by omega), fun _ => rfl⟩
    · next hfew =>
      have h := Yields.parallel (w.schedule.covers path 1 (s.chunkCount length))
        (fun k hk g hg => hstep (k :: path) g _ (hmem k hk) hg)
        (fun k g hg => hframe (k :: path) g _ hg) hf
      refine h.congr ?_ (.of_eq htuples)
      simp only [hdev, true_implies, hroom]
      exact ⟨fun h => h.2, fun h => ⟨by omega, h⟩⟩
  · next hhost =>
    have h := Yields.iterate (fun k g hg => hframe (k :: path) g (s.chunk length k) hg)
      (fun k (hk : k ∈ List.range' 0 (s.chunkCount length)) g hg =>
        hstep (k :: path) g _ (hmem k (by simpa [List.mem_range'_1] using hk)) hg)
      (Yields.start f) fun _ => hf
    refine (h.mapFrame _).congr ?_ ?_
    · simp [hhost]
    · simp [← htuples, List.range_eq_range']

mutual

/-- **A walk passes the tuples of its tree to the body**, or stops for want of room on the device. -/
theorem run_yields (hbody : ∀ x, w.body x = none) : ∀ (t : Statement) (path : Path)
    {enclosing : Option Nat} {bound : List Nat} {index : Tuple} {f : Frame},
    t.checkBelow rank enclosing = .ok () → t.CallsBound rank bound →
    (t.Threaded → ∀ s ∈ f.ranges, s.Addressable) →
    (∀ d ∈ bound, ¬ Statement.Inside enclosing d) → f.Agrees rank bound index →
      Yields (w.onDevice = true → t.Fits f.ranges) (t.tuples f.ranges index) (w.run path t f)
  | .loop dim policy body, path, enclosing, bound, index, f, hc, hb, haddr, hbound, hf => by
    obtain ⟨⟨hdim, hin⟩, hbelow⟩ := Statement.checkBelow_loop.1 hc
    obtain ⟨s, hs⟩ : ∃ s, f.ranges[dim]? = some s :=
      ⟨_, List.getElem?_eq_getElem (by rw [hf.ranges]; exact hdim)⟩
    have hthreads : (grain? policy).isSome = true → s.Addressable := fun hgrain =>
      haddr (.inl hgrain) s (List.mem_of_getElem? hs)
    have hbound' : ∀ d ∈ dim :: bound, ¬ Statement.Inside (some dim) d := by
      intro d hd hlt
      rcases List.mem_cons.1 hd with rfl | hd
      · simp at hlt
      · exact hbound d hd (hin.trans (Statement.inside_some.1 hlt))
    simp only [run, hs, Statement.tuples, Statement.Fits, Option.mem_some_iff, forall_eq']
    -- Only dimensions inside the enclosing loop change from one index to the next.
    refine w.loop_yields (P := Frame.Keeps (Statement.Inside enclosing) f) hthreads ?_ ?_ (Frame.Keeps.refl f)
    · intro path g i hg
      have haddr' : Statement.ThreadedAny body → ∀ s ∈ (g.setIndex dim i).ranges, s.Addressable := by
        simp only [Frame.setIndex, hg.ranges]
        exact fun hany => haddr (.inr hany)
      have h := runAll_yields hbody body path 0 hbelow hb haddr' hbound'
        ((hf.keeps hg hbound).setIndex dim i)
      simpa only [Frame.setIndex, hg.ranges] using h
    · intro path g i hg h
      have hset := Frame.Keeps.setIndex g dim i
      refine hg.trans ((hset.mono ?_).trans ((w.runAll_keeps body path 0 _ h).mono ?_))
      · rintro d rfl
        exact hin
      · exact fun d hd => hin.trans (Statement.inside_some.1 (Statement.leavesAny_inside hbelow hd))
  | .kernel _ body, path, enclosing, bound, index, f, hc, hb, haddr, hbound, hf => by
    simp only [Statement.checkBelow] at hc
    simp only [run]
    exact runAll_yields hbody body path 0 hc hb haddr hbound hf
  | .segments dim length body, path, enclosing, bound, index, f, hc, hb, haddr, hbound, hf => by
    obtain ⟨⟨hdim, -⟩, hbelow⟩ := Statement.checkBelow_segments.1 hc
    obtain ⟨s, hs⟩ : ∃ s, f.ranges[dim]? = some s :=
      ⟨_, List.getElem?_eq_getElem (by rw [hf.ranges]; exact hdim)⟩
    simp only [run, hs, Statement.tuples, Statement.Fits, Option.mem_some_iff, forall_eq']
    -- From one piece to the next the range of `dim` may change as well.
    refine w.pieces_yields
      (P := fun g => Frame.Keeps (Statement.Inside enclosing) f (g.setRange dim s)) ?_ ?_ ?_
    · intro path g piece hpiece hg
      have hrange : (g.setRange dim piece).ranges = f.ranges.set dim piece := by
        simp only [Frame.setRange, ← hg.ranges, List.set_set]
      have haddr' : Statement.ThreadedAny body → ∀ t ∈ (g.setRange dim piece).ranges, t.Addressable := by
        intro hany t ht
        rw [hrange] at ht
        rcases List.mem_or_eq_of_mem_set ht with ht | rfl
        · exact haddr hany t ht
        · obtain ⟨k, -, rfl⟩ := List.mem_map.1 hpiece
          exact (haddr hany s (List.mem_of_getElem? hs)).chunk length k
      have hagree := (hf.keeps hg hbound).setRange dim piece
      have hset : (g.setRange dim s).setRange dim piece = g.setRange dim piece := by
        simp [Frame.setRange]
      rw [hset] at hagree
      have h := runAll_yields hbody body path 0 hbelow hb haddr' hbound hagree
      rwa [hrange] at h
    · intro path g piece hg h
      refine hg.trans (((w.runAll_keeps body path 0 _ h).setRange s).mono fun d hd => ?_)
      exact Statement.leavesAny_inside hbelow hd
    · rw [Frame.setRange_self hs]
      exact Frame.Keeps.refl f
  | .barrier, path, enclosing, bound, index, f, _, _, _, _, _ => by
    simp only [run]
    exact (Yields.start f).congr (by simp [Statement.Fits]) (.refl _)
  | .call, path, enclosing, bound, index, f, _, hb, _, _, hf => by
    rw [run]
    refine ⟨fun _ => ⟨by rw [Walker.call, hbody]; rfl, ?_⟩, fun h => absurd (fun _ => trivial) h⟩
    rw [visits_call, hf.index_eq hb]
    exact .refl _

theorem runAll_yields (hbody : ∀ x, w.body x = none) : ∀ (ss : List Statement) (path : Path)
    (position : Nat) {enclosing : Option Nat} {bound : List Nat} {index : Tuple} {f : Frame},
    Statement.checkAllBelow rank enclosing ss = .ok () → Statement.CallsBoundAll rank bound ss →
    (Statement.ThreadedAny ss → ∀ s ∈ f.ranges, s.Addressable) →
    (∀ d ∈ bound, ¬ Statement.Inside enclosing d) → f.Agrees rank bound index →
      Yields (w.onDevice = true → Statement.FitsAll f.ranges ss)
        (Statement.tuplesOfAll f.ranges index ss) (w.runAll path position ss f)
  | [], path, position, enclosing, bound, index, f, _, _, _, _, _ => by
    simp only [runAll]
    exact (Yields.start f).congr (by simp [Statement.FitsAll]) (.refl _)
  | s :: rest, path, position, enclosing, bound, index, f, hc, hb, haddr, hbound, hf => by
    obtain ⟨hs, hrest⟩ := Statement.checkAllBelow_cons.1 hc
    have hfirst := run_yields hbody s (position :: path) hs hb.1 (fun ht => haddr (.inl ht)) hbound hf
    have hnext : (w.run (position :: path) s f).fault = none →
        Yields (w.onDevice = true → Statement.FitsAll f.ranges rest)
          (Statement.tuplesOfAll f.ranges index rest)
          (w.runAll path (position + 1) rest (w.run (position :: path) s f).frame) := by
      intro hnone
      have hkeeps := w.run_keeps s _ f hnone
      have haddr' : Statement.ThreadedAny rest →
          ∀ t ∈ (w.run (position :: path) s f).frame.ranges, t.Addressable := by
        rw [hkeeps.ranges]
        exact fun hany => haddr (.inr hany)
      have h := runAll_yields hbody rest path (position + 1) hrest hb.2 haddr' hbound
        (hf.keeps hkeeps fun d hd hl => hbound d hd (Statement.leaves_inside hs hl))
      rwa [hkeeps.ranges] at h
    rw [runAll]
    refine (hfirst.andThen hnext).congr ?_ (.refl _)
    simp only [Statement.FitsAll]
    exact ⟨fun h => ⟨fun hd => (h hd).1, fun hd => (h hd).2⟩, fun h hd => ⟨h.1 hd, h.2 hd⟩⟩

end

end Walker

end AdaptiveLoops
