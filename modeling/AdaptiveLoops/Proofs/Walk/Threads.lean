/-
A loop on several threads against the same loop in order.

Threads reach their indices by offsets, which are read as signed numbers. A
run of offsets calls the body on those below `Segment.signedOffsets` and
stops at the first one from there on, whose index overflows (`Reaches`).
Whatever the runs are, together they call the body once on each of the first
`signedOffsets` indices, so the two loops agree on segments that have no
more.
-/
import AdaptiveLoops.Proofs.Walk.Panics

namespace AdaptiveLoops

namespace Progress

/-- A walk that passes the tuples `F k` of the offsets below `limit` to the body, and is stopped by any other. -/
structure Reaches (limit : Nat) (F : Nat → Tuple) (offsets : List Nat) (p : Progress) : Prop where
  visits : p.visits.toList = (offsets.filter (· < limit)).map F
  fault_eq_none_iff : p.fault = none ↔ ∀ k ∈ offsets, k < limit
  fault : ∀ fault, p.fault = some fault → fault = .overflow

namespace Reaches

variable {limit : Nat} {F : Nat → Tuple} {step : Nat → Frame → Progress} {P : Frame → Prop}

/-- Offsets in ascending order: behind the first that is not below the limit there is none that is. -/
theorem iterate (count : Nat)
    (hcall : ∀ k < count, ∀ g, P g → k < limit →
      (step k g).fault = none ∧ (step k g).visits = #[F k] ∧ P (step k g).frame)
    (hstop : ∀ k < count, ∀ g, limit ≤ k → step k g = .stop g .overflow) :
    ∀ (n first : Nat) (f : Frame), P f → (∀ k ∈ List.range' first n, k < count) →
      Reaches limit F (List.range' first n) (Progress.iterate step n first (.start f))
  | 0, first, f, _, _ => by
    refine ⟨?_, ?_, ?_⟩
    · simp [Progress.iterate]
    · simp [Progress.iterate, Progress.start]
    · simp [Progress.iterate, Progress.start]
  | n + 1, first, f, hf, hcount => by
    rw [List.range'_succ, List.forall_mem_cons] at hcount
    rw [iterate_succ, start_andThen, iterate_eq_andThen, List.range'_succ]
    by_cases hlt : first < limit
    · obtain ⟨hfault, hvisits, hframe⟩ := hcall first hcount.1 f hf hlt
      have hrest := iterate count hcall hstop n (first + 1) _ hframe hcount.2
      refine ⟨?_, ?_, ?_⟩
      · rw [visits_andThen hfault, hvisits, Array.toList_append, hrest.visits, List.filter_cons_of_pos (by simpa)]
        rfl
      · rw [fault_andThen hfault, hrest.fault_eq_none_iff, List.forall_mem_cons]
        exact (and_iff_right hlt).symm
      · rw [fault_andThen hfault]
        exact hrest.fault
    · have hstep := hstop first hcount.1 f (Nat.not_lt.1 hlt)
      have hnone : ∀ k ∈ first :: List.range' (first + 1) n, ¬ k < limit := by
        simp only [List.mem_cons, List.mem_range'_1]
        omega
      rw [andThen_of_fault (by rw [hstep]; rfl), hstep]
      refine ⟨?_, ?_, ?_⟩
      · rw [visits_stop, List.filter_eq_nil_iff.2 (by simpa using hnone), List.map_nil]
      · simp [Progress.stop, hlt]
      · rintro _ ⟨⟩
        rfl

/-- **Parallel runs reach what their offsets reach together**, whatever the runs are. -/
theorem parallel (count : Nat)
    (hcall : ∀ k < count, ∀ g, P g → k < limit →
      (step k g).fault = none ∧ (step k g).visits = #[F k] ∧ P (step k g).frame)
    (hstop : ∀ k < count, ∀ g, limit ≤ k → step k g = .stop g .overflow) {f : Frame} (hf : P f) {runs : List Run}
    (hcount : ∀ k ∈ runs.flatMap Run.offsets, k < count) :
    Reaches limit F (runs.flatMap Run.offsets) (parallel step f runs) := by
  simp only [List.mem_flatMap, forall_exists_index, and_imp] at hcount
  have hrun : ∀ r ∈ runs, Reaches limit F r.offsets (Progress.iterate step r.size r.first (.start f)) :=
    fun r hr => iterate count hcall hstop r.size r.first f hf fun k hk => hcount k r hr hk
  refine ⟨?_, ?_, fun fault hfault => ?_⟩
  · simp only [visits_parallel, List.filter_flatMap, List.map_flatMap]
    exact List.flatMap_congr fun r hr => (hrun r hr).visits
  · simp only [Progress.parallel, List.findSome?_map, List.findSome?_eq_none_iff, List.mem_flatMap,
      forall_exists_index, and_imp]
    constructor
    · intro hnone k r hr hk
      exact (hrun r hr).fault_eq_none_iff.1 (hnone r hr) k hk
    · intro hall r hr
      exact (hrun r hr).fault_eq_none_iff.2 fun k hk => hall k r hr hk
  · simp only [Progress.parallel, List.findSome?_map] at hfault
    obtain ⟨r, hr, hfault⟩ := List.exists_of_findSome?_eq_some hfault
    exact (hrun r hr).fault fault hfault

end Reaches

end Progress

namespace Segment

variable {s : Segment}

theorem filter_range (limit n : Nat) : (List.range n).filter (· < limit) = (List.range n).take limit := by
  induction n with
  | zero => simp
  | succ n ih =>
    rw [List.take_range] at ih ⊢
    rw [List.range_succ, List.filter_append, ih]
    by_cases hlt : n < limit
    · rw [show min limit (n + 1) = n + 1 by omega, show min limit n = n by omega, List.range_succ]
      simp [hlt]
    · simp [hlt, show min limit (n + 1) = min limit n by omega]

theorem mapM_indexAtOffset? : ∀ {offsets : List Nat}, (∀ k ∈ offsets, k < s.length) →
    (offsets.mapM fun k => match s.indexAtOffset? k with
      | some i => Except.ok i
      | none => .error Fault.overflow) =
    if ∀ k ∈ offsets, k < signedOffsets then .ok (offsets.map s.index) else .error .overflow
  | [], _ => rfl
  | k :: offsets, hoffsets => by
    rw [List.forall_mem_cons] at hoffsets
    rw [List.mapM_cons, mapM_indexAtOffset? hoffsets.2]
    simp only [indexAtOffset?_eq hoffsets.1, List.forall_mem_cons]
    by_cases hk : k < signedOffsets
    · simp only [hk, if_true, true_and]
      split <;> rfl
    · simp only [hk, if_false, false_and]
      rfl

/-- Every offset of a segment is handled, so all are signed 64-bit numbers if there are few enough. -/
theorem forall_offsets_iff (schedule : Schedule) (path : Path) (grain : Nat) (s : Segment) :
    (∀ k ∈ (schedule.runs path grain s.length).flatMap Run.offsets, k < signedOffsets) ↔
      s.length ≤ signedOffsets := by
  simp only [(schedule.covers path grain s.length).mem_iff, List.mem_range]
  exact ⟨fun h => Nat.not_lt.1 fun hlt => Nat.lt_irrefl _ (h _ hlt), fun h k hk => Nat.lt_of_lt_of_le hk h⟩

theorem threadedIndices?_runs (schedule : Schedule) (path : Path) (grain : Nat) (s : Segment) :
    s.threadedIndices? (schedule.runs path grain s.length) =
      if s.length ≤ signedOffsets then
        .ok (((schedule.runs path grain s.length).flatMap Run.offsets).map s.index)
      else .error .overflow := by
  refine (mapM_indexAtOffset? fun k hk => ?_).trans (if_congr (forall_offsets_iff schedule path grain s) rfl rfl)
  exact List.mem_range.1 ((schedule.covers path grain s.length).mem_iff.1 hk)

end Segment

namespace Walker

open Progress Segment

variable {w : Walker}

theorem call_setIndex (hbody : ∀ x, w.body x = none) {dim : Nat} {f g : Frame}
    (hg : ∀ i, g.setIndex dim i = f.setIndex dim i) (path : Path) (i : Int) :
    (w.call path (g.setIndex dim i)).fault = none ∧
    (w.call path (g.setIndex dim i)).visits = #[f.index.set dim i] ∧
    ∀ j, (w.call path (g.setIndex dim i)).frame.setIndex dim j = f.setIndex dim j := by
  rw [hg i]
  refine ⟨by simp [call, hbody], visits_call .., fun j => ?_⟩
  simp [call, Frame.setIndex]

theorem loop_sequential_reaches (hbody : ∀ x, w.body x = none) (path : Path) (dim : Nat) (s : Segment) (f : Frame) :
    Reaches s.length (fun k => f.index.set dim (s.index k)) (List.range s.length)
      (w.loop path dim .sequential s w.call f) := by
  rw [List.range_eq_range']
  refine Reaches.iterate s.length (P := fun g => ∀ i, g.setIndex dim i = f.setIndex dim i)
    (fun k _ g hg _ => call_setIndex hbody hg _ (s.index k)) (fun k hk g hle => absurd hk (Nat.not_lt.2 hle))
    s.length 0 f (fun _ => rfl) ?_
  simp

/-- The loop on threads reaches the indices whose offset is a signed 64-bit number. -/
theorem loop_threaded_reaches (hbody : ∀ x, w.body x = none) (path : Path) (dim : Nat) (minChunk : UInt64)
    (s : Segment) (f : Frame) :
    Reaches signedOffsets (fun k => f.index.set dim (s.index k))
      ((w.schedule.runs path minChunk.toNat s.length).flatMap Run.offsets)
      (w.loop path dim (.threaded minChunk) s w.call f) := by
  rw [loop]
  refine Reaches.parallel s.length (P := fun g => ∀ i, g.setIndex dim i = f.setIndex dim i) ?_ ?_
    (fun _ => rfl) ?_
  · intro k hk g hg hlt
    simp only [indexAtOffset?_eq hk, if_pos hlt]
    exact call_setIndex hbody hg _ (s.index k)
  · intro k hk g hle
    simp only [indexAtOffset?_eq hk, if_neg (Nat.not_lt.2 hle)]
  · intro k hk
    exact List.mem_range.1 ((w.schedule.covers path minChunk.toNat s.length).mem_iff.1 hk)

section

variable (hbody : ∀ x, w.body x = none) (path : Path) (dim : Nat) (minChunk : UInt64) (s : Segment) (f : Frame)

include hbody

theorem visits_loop_sequential :
    (w.loop path dim .sequential s w.call f).visits.toList = s.indices.map (f.index.set dim ·) := by
  rw [(loop_sequential_reaches hbody path dim s f).visits, filter_range, List.take_of_length_le (by simp),
    indices, List.map_map]
  rfl

/-- Together the runs call the body on the first indices of the loop in order. -/
theorem visits_loop_threaded :
    (w.loop path dim (.threaded minChunk) s w.call f).visits.toList.Perm
      ((w.loop path dim .sequential s w.call f).visits.toList.take signedOffsets) := by
  have hcovers := w.schedule.covers path minChunk.toNat s.length
  rw [(loop_threaded_reaches hbody path dim minChunk s f).visits, visits_loop_sequential hbody, indices, List.map_map,
    ← List.map_take, ← filter_range]
  exact (hcovers.filter _).map _

theorem fault_loop_threaded :
    (w.loop path dim (.threaded minChunk) s w.call f).fault =
      if s.length ≤ signedOffsets then none else some .overflow := by
  have hreaches := loop_threaded_reaches hbody path dim minChunk s f
  have hall := forall_offsets_iff w.schedule path minChunk.toNat s
  split
  · next hle => exact hreaches.fault_eq_none_iff.2 (hall.2 hle)
  · next hlt =>
    obtain ⟨fault, hfault⟩ := Option.ne_none_iff_exists'.1 (mt hreaches.fault_eq_none_iff.1 (mt hall.1 hlt))
    rw [hfault, hreaches.fault fault hfault]

/--
**A loop on threads calls its body as the loop in order does**, on each index
once, whatever the grain and the runs, as long as the segment has no more
indices than there are signed offsets, 2^63. On a longer segment it calls the
body on that many of its first indices, each once, and overflows.
-/
theorem threaded_loop_agrees (path' : Path) :
    let threaded := w.loop path dim (.threaded minChunk) s w.call f
    let ordered := w.loop path' dim .sequential s w.call f
    let reached := s.threadedIndices? (w.schedule.runs path minChunk.toNat s.length)
    (ordered.fault = none ∧ ordered.visits.toList = s.indices.map (f.index.set dim ·)) ∧
    (s.length ≤ signedOffsets →
      threaded.fault = none ∧ threaded.visits.toList.Perm ordered.visits.toList ∧
        ∃ is, reached = .ok is ∧ is.Perm s.indices ∧ is.Nodup) ∧
    (signedOffsets < s.length →
      threaded.fault = some .overflow ∧
        threaded.visits.toList.Perm (ordered.visits.toList.take signedOffsets) ∧ reached = .error .overflow) := by
  have hcovers := w.schedule.covers path minChunk.toNat s.length
  have hordered := visits_loop_sequential hbody path' dim s f
  have hperm := visits_loop_threaded hbody path dim minChunk s f
  rw [visits_loop_sequential hbody path dim s f] at hperm
  have hquiet := (loop_sequential_reaches hbody path' dim s f).fault_eq_none_iff.2 fun k hk => List.mem_range.1 hk
  refine ⟨⟨hquiet, hordered⟩, fun hle => ⟨?_, ?_, ?_⟩, fun hlt => ⟨?_, ?_, ?_⟩⟩
  · rw [fault_loop_threaded hbody, if_pos hle]
  · rwa [hordered, ← List.take_of_length_le (l := s.indices.map _) (by simpa using hle)]
  · have his : (((w.schedule.runs path minChunk.toNat s.length).flatMap Run.offsets).map s.index).Perm s.indices :=
      hcovers.map s.index
    exact ⟨_, by rw [threadedIndices?_runs, if_pos hle], his, his.nodup_iff.2 s.nodup_indices⟩
  · rw [fault_loop_threaded hbody, if_neg (Nat.not_le.2 hlt)]
  · rwa [hordered]
  · rw [threadedIndices?_runs, if_neg (Nat.not_le.2 hlt)]

end

/-- Ten indices below zero and above it, in runs of any sizes. -/
theorem threaded_loop_agrees_halving :
    let w : Walker := ⟨fun _ => none, .halving 4, false⟩
    let s : Segment := ⟨-3, 7⟩
    (w.loop [] 0 (.threaded 0) s w.call ⟨[s], [0]⟩).visits.toList.Perm
      (w.loop [] 0 .sequential s w.call ⟨[s], [0]⟩).visits.toList := by
  intro w s
  exact (@threaded_loop_agrees w (fun _ => rfl) [] 0 0 s ⟨[s], [0]⟩ []).2.1 (by decide) |>.2.1

/-- On the widest segment zero lies at an offset that is no signed number, and the loop on threads misses it. -/
theorem widest_loop_overflows :
    let w : Walker := ⟨fun _ => none, .serial, false⟩
    let s : Segment := ⟨.minValue, .maxValue⟩
    0 ∈ s.indices ∧ s.index 9223372036854775808 = 0 ∧ s.indexAtOffset? 9223372036854775808 = none ∧
    (w.loop [] 0 (.threaded 1) s w.call ⟨[s], [0]⟩).fault = some .overflow ∧
    ¬ (w.loop [] 0 (.threaded 1) s w.call ⟨[s], [0]⟩).visits.toList.Perm
      (w.loop [] 0 .sequential s w.call ⟨[s], [0]⟩).visits.toList := by
  intro w s
  have hbody : ∀ x, w.body x = none := fun _ => rfl
  have hlength : s.length = 18446744073709551615 := by decide
  have hlimit : signedOffsets = 9223372036854775808 := by decide
  refine ⟨mem_indices.2 (by decide), by decide, by decide, ?_, fun hperm => ?_⟩
  · rw [fault_loop_threaded hbody, if_neg (by omega)]
  · have hthreaded := (visits_loop_threaded hbody [] 0 1 s ⟨[s], [0]⟩).length_eq
    rw [hperm.length_eq, visits_loop_sequential hbody, List.length_take, List.length_map, length_indices] at hthreaded
    omega

end Walker

end AdaptiveLoops
