/-
Walks put together from walks: one after another, step by step, and in
parallel runs.

`Yields room ts p` is what a walk whose body never panics comes to: with room
for the pieces it lists, it has no fault and passes the tuples `ts` to the
body in some order, and without it stops for want of room. Each way of
putting walks together adds up the tuples and needs the room of every part
(`Yields.andThen`, `Yields.iterate`, `Yields.parallel`).
-/
import AdaptiveLoops.Walk
import Mathlib.Data.List.Perm.Basic

namespace AdaptiveLoops.Progress

@[simp] theorem visits_start (f : Frame) : (start f).visits = #[] := by
  simp [visits, start]

@[simp] theorem visits_stop (f : Frame) (fault : Fault) : (stop f fault).visits = #[] := by
  simp [visits, stop]

@[simp] theorem visits_call (w : Walker) (path : Path) (f : Frame) : (w.call path f).visits = #[f.index] := by
  simp [visits, Walker.call]

theorem mem_visits {p : Progress} {x : Tuple} : x ∈ p.visits ↔ ∃ c ∈ p.calls, c.index = x :=
  Array.mem_map

structure Yields (room : Prop) (ts : List Tuple) (p : Progress) : Prop where
  done : room → p.fault = none ∧ p.visits.toList.Perm ts
  full : ¬ room → p.fault = some .noRoom

theorem Yields.start (f : Frame) : Yields True [] (start f) :=
  ⟨fun _ => ⟨rfl, by simp⟩, fun h => absurd trivial h⟩

theorem Yields.congr {room room' : Prop} {ts ts' : List Tuple} {p : Progress} (h : Yields room ts p)
    (hroom : room' ↔ room) (hts : ts.Perm ts') : Yields room' ts' p :=
  ⟨fun hr => ⟨(h.done (hroom.1 hr)).1, (h.done (hroom.1 hr)).2.trans hts⟩,
    fun hr => h.full fun hr' => hr (hroom.2 hr')⟩

theorem Yields.room {room : Prop} {ts : List Tuple} {p : Progress} (h : Yields room ts p)
    (hp : p.fault = none) : room := by
  by_contra hr
  rw [h.full hr] at hp
  cases hp

theorem Yields.eq_noRoom {room : Prop} {ts : List Tuple} {p : Progress} {fault : Fault}
    (h : Yields room ts p) (hp : p.fault = some fault) : fault = .noRoom := by
  by_cases hr : room
  · rw [(h.done hr).1] at hp
    cases hp
  · rw [h.full hr] at hp
    exact (Option.some.inj hp).symm

/-! ## One after another -/

theorem fault_andThen {p : Progress} {next : Frame → Progress} (hp : p.fault = none) :
    (p.andThen next).fault = (next p.frame).fault := by
  obtain ⟨frame, calls, _ | _⟩ := p
  · rfl
  · cases hp

theorem frame_andThen {p : Progress} {next : Frame → Progress} (hp : p.fault = none) :
    (p.andThen next).frame = (next p.frame).frame := by
  obtain ⟨frame, calls, _ | _⟩ := p
  · rfl
  · cases hp

theorem calls_andThen {p : Progress} {next : Frame → Progress} (hp : p.fault = none) :
    (p.andThen next).calls = p.calls ++ (next p.frame).calls := by
  obtain ⟨frame, calls, _ | _⟩ := p
  · rfl
  · cases hp

theorem visits_andThen {p : Progress} {next : Frame → Progress} (hp : p.fault = none) :
    (p.andThen next).visits = p.visits ++ (next p.frame).visits := by
  simp only [visits, calls_andThen hp, Array.map_append]

theorem andThen_of_fault {p : Progress} {next : Frame → Progress} {fault : Fault}
    (hp : p.fault = some fault) : p.andThen next = p := by
  obtain ⟨frame, calls, _ | _⟩ := p
  · cases hp
  · rfl

@[simp] theorem fault_mapFrame (change : Frame → Frame) (p : Progress) :
    (p.mapFrame change).fault = p.fault := by
  unfold mapFrame
  split <;> rfl

@[simp] theorem calls_mapFrame (change : Frame → Frame) (p : Progress) :
    (p.mapFrame change).calls = p.calls := by
  unfold mapFrame
  split <;> rfl

@[simp] theorem visits_mapFrame (change : Frame → Frame) (p : Progress) :
    (p.mapFrame change).visits = p.visits := by
  rw [visits, visits, calls_mapFrame]

theorem frame_mapFrame {change : Frame → Frame} {p : Progress} (hp : p.fault = none) :
    (p.mapFrame change).frame = change p.frame := by
  simp [mapFrame, hp]

theorem fault_eq_none_of_andThen {p : Progress} {next : Frame → Progress}
    (h : (p.andThen next).fault = none) : p.fault = none := by
  cases hp : p.fault with
  | none => rfl
  | some fault =>
    rw [andThen_of_fault hp, hp] at h
    cases h

theorem andThen_congr {p : Progress} {next next' : Frame → Progress}
    (h : p.fault = none → next p.frame = next' p.frame) : p.andThen next = p.andThen next' := by
  obtain ⟨frame, calls, _ | _⟩ := p
  · simp only [Progress.andThen, h rfl]
  · rfl

theorem andThen_assoc (p : Progress) (next next' : Frame → Progress) :
    (p.andThen next).andThen next' = p.andThen fun f => (next f).andThen next' := by
  obtain ⟨frame, calls, _ | fault⟩ := p
  · simp only [Progress.andThen]
    generalize next frame = q
    obtain ⟨frame', calls', _ | fault'⟩ := q
    · simp only [Array.append_assoc]
    · rfl
  · rfl

@[simp] theorem start_andThen (f : Frame) (next : Frame → Progress) : (start f).andThen next = next f := by
  simp [Progress.start, Progress.andThen]

@[simp] theorem andThen_start (p : Progress) : p.andThen start = p := by
  obtain ⟨frame, calls, _ | fault⟩ := p <;> simp [Progress.start, Progress.andThen]

theorem mapFrame_eq_andThen (change : Frame → Frame) (p : Progress) :
    p.mapFrame change = p.andThen fun f => start (change f) := by
  obtain ⟨frame, calls, _ | fault⟩ := p <;> simp [Progress.mapFrame, Progress.start, Progress.andThen]

theorem Yields.andThen {room room' : Prop} {ts ts' : List Tuple} {p : Progress}
    {next : Frame → Progress} (h : Yields room ts p)
    (hnext : p.fault = none → Yields room' ts' (next p.frame)) :
    Yields (room ∧ room') (ts ++ ts') (p.andThen next) := by
  cases hp : p.fault with
  | none =>
    have hr := h.room hp
    have hn := hnext hp
    constructor
    · rintro ⟨-, hr'⟩
      rw [fault_andThen hp, visits_andThen hp, Array.toList_append]
      exact ⟨(hn.done hr').1, (h.done hr).2.append (hn.done hr').2⟩
    · intro hno
      rw [fault_andThen hp]
      exact hn.full fun hr' => hno ⟨hr, hr'⟩
  | some fault =>
    rw [andThen_of_fault hp]
    have hfull : ¬ room := fun hr => by
      rw [(h.done hr).1] at hp
      cases hp
    exact ⟨fun hr => absurd hr.1 hfull, fun _ => h.full hfull⟩

theorem Yields.mapFrame {room : Prop} {ts : List Tuple} {p : Progress} (h : Yields room ts p)
    (change : Frame → Frame) : Yields room ts (p.mapFrame change) := by
  constructor
  · rw [fault_mapFrame, visits_mapFrame]
    exact h.done
  · rw [fault_mapFrame]
    exact h.full

/-! ## Step by step -/

/-- A fault stops all steps that come after it, so each step goes on as `andThen` does. -/
theorem iterate_succ (step : Nat → Frame → Progress) (n first : Nat) (p : Progress) :
    iterate step (n + 1) first p = iterate step n (first + 1) (p.andThen (step first)) := by
  rw [iterate]
  split
  · next hf =>
    obtain ⟨fault, hfault⟩ := Option.isSome_iff_exists.1 hf
    rw [andThen_of_fault hfault]
    cases n with
    | zero => rfl
    | succ n => rw [iterate, if_pos hf]
  · rfl

theorem iterate_add (step : Nat → Frame → Progress) : ∀ (m n first : Nat) (p : Progress),
    iterate step (m + n) first p = iterate step n (first + m) (iterate step m first p)
  | 0, n, first, p => by rw [Nat.zero_add]; rfl
  | m + 1, n, first, p => by
    rw [Nat.add_right_comm, iterate_succ, iterate_succ, iterate_add step m n, Nat.add_assoc first 1 m,
      Nat.add_comm 1 m]

theorem iterate_shift (step : Nat → Frame → Progress) (offset : Nat) : ∀ (n first : Nat) (p : Progress),
    iterate (fun k => step (offset + k)) n first p = iterate step n (offset + first) p
  | 0, _, _ => rfl
  | n + 1, first, p => by
    rw [iterate_succ, iterate_succ, iterate_shift step offset n, Nat.add_assoc]

/-- Steps after a walk are a walk of their own from where it ends. -/
theorem iterate_eq_andThen (step : Nat → Frame → Progress) : ∀ (n first : Nat) (p : Progress),
    iterate step n first p = p.andThen fun f => iterate step n first (start f)
  | 0, _, p => (andThen_start p).symm
  | n + 1, first, p => by
    simp only [iterate_succ, start_andThen]
    rw [iterate_eq_andThen step n, andThen_assoc]
    simp only [← iterate_eq_andThen step n]

/-- What two walks keep of one another when both go on, they keep step by step. -/
theorem iterate_rel {R : Progress → Progress → Prop}
    (handThen : ∀ {p q : Progress} {next next' : Frame → Progress}, R p q → (∀ f, R (next f) (next' f)) →
      R (p.andThen next) (q.andThen next'))
    {step step' : Nat → Frame → Progress} (hstep : ∀ k f, R (step k f) (step' k f)) :
    ∀ (n first : Nat) {p q : Progress}, R p q → R (iterate step n first p) (iterate step' n first q)
  | 0, _, _, _, h => h
  | n + 1, first, _, _, h => by
    rw [iterate_succ, iterate_succ]
    exact iterate_rel handThen hstep n (first + 1) (handThen h (hstep first))

theorem frame_iterate {P : Frame → Prop} {step : Nat → Frame → Progress}
    (hstep : ∀ k g, P g → (step k g).fault = none → P (step k g).frame) :
    ∀ (n first : Nat) {p : Progress}, P p.frame → (iterate step n first p).fault = none →
      P (iterate step n first p).frame
  | 0, _, _, hp, _ => hp
  | n + 1, first, p, hp, h => by
    rw [iterate] at h ⊢
    split at h
    · next hf => rw [h] at hf; cases hf
    · next hf =>
      have hnone : p.fault = none := by simpa using hf
      rw [if_neg hf]
      by_cases hs : (step first p.frame).fault = none
      · refine frame_iterate hstep n (first + 1) ?_ h
        rw [frame_andThen hnone]
        exact hstep first p.frame hp hs
      · -- A step with a fault is the last one.
        exfalso
        have hs : ((p.andThen (step first)).fault ≠ none) := by rwa [fault_andThen hnone]
        cases n with
        | zero => exact hs h
        | succ n =>
          rw [iterate, if_pos (by simpa [Option.isSome_iff_ne_none] using hs)] at h
          exact hs h

theorem iterate_congr {P : Frame → Prop} {step step' : Nat → Frame → Progress}
    (hframe : ∀ k g, P g → (step' k g).fault = none → P (step' k g).frame) :
    ∀ (n first : Nat) {f : Frame}, P f → (∀ k ∈ List.range' first n, ∀ g, P g → step k g = step' k g) →
      iterate step n first (start f) = iterate step' n first (start f)
  | 0, _, _, _, _ => rfl
  | n + 1, first, f, hf, h => by
    rw [List.range'_succ, List.forall_mem_cons] at h
    simp only [iterate_succ, start_andThen]
    rw [h.1 f hf, iterate_eq_andThen step, iterate_eq_andThen step']
    exact andThen_congr fun hnone => iterate_congr hframe n (first + 1) (hframe first f hf hnone) h.2

theorem Yields.iterate {P : Frame → Prop} {room : Nat → Prop} {F : Nat → List Tuple}
    {step : Nat → Frame → Progress}
    (hframe : ∀ k g, P g → (step k g).fault = none → P (step k g).frame) :
    ∀ {n first : Nat} {p : Progress} {r : Prop} {ts : List Tuple},
      (∀ k ∈ List.range' first n, ∀ g, P g → Yields (room k) (F k) (step k g)) →
      Yields r ts p → (p.fault = none → P p.frame) →
      Yields (r ∧ ∀ k ∈ List.range' first n, room k) (ts ++ (List.range' first n).flatMap F)
        (Progress.iterate step n first p)
  | 0, first, p, r, ts, _, h, _ => by
    refine h.congr ?_ ?_ <;> simp
  | n + 1, first, p, r, ts, hstep, h, hp => by
    rw [Progress.iterate]
    split
    · next hf =>
      obtain ⟨fault, hfault⟩ := Option.isSome_iff_exists.1 hf
      have hfull : ¬ r := fun hr => by
        rw [(h.done hr).1] at hfault
        cases hfault
      exact ⟨fun hr => absurd hr.1 hfull, fun _ => h.full hfull⟩
    · next hf =>
      have hnone : p.fault = none := by simpa using hf
      rw [List.range'_succ, List.forall_mem_cons] at hstep
      have hnext : Yields (r ∧ room first) (ts ++ F first) (p.andThen (step first)) :=
        h.andThen fun _ => hstep.1 _ (hp hnone)
      have hrest := Yields.iterate hframe hstep.2 hnext fun hf' => by
        rw [fault_andThen hnone] at hf'
        rw [frame_andThen hnone]
        exact hframe first _ (hp hnone) hf'
      refine hrest.congr ?_ ?_
      · simp [List.range'_succ, and_assoc]
      · simp [List.range'_succ]

/-! ## In parallel runs -/

theorem toList_foldl_calls (parts : List Progress) : ∀ acc : Array Call,
    (parts.foldl (fun acc p => acc ++ p.calls) acc).toList =
      acc.toList ++ parts.flatMap (·.calls.toList) := by
  induction parts with
  | nil => simp
  | cons p parts ih => intro acc; simp [ih]

theorem calls_parallel (step : Nat → Frame → Progress) (f : Frame) (runs : List Run) :
    (parallel step f runs).calls.toList =
      runs.flatMap fun r => (iterate step r.size r.first (start f)).calls.toList := by
  simp [parallel, toList_foldl_calls, List.flatMap_map]

theorem visits_parallel (step : Nat → Frame → Progress) (f : Frame) (runs : List Run) :
    (parallel step f runs).visits.toList =
      runs.flatMap fun r => (iterate step r.size r.first (start f)).visits.toList := by
  simp only [visits, Array.toList_map, calls_parallel, List.map_flatMap]

theorem parallel_congr {P : Frame → Prop} {step step' : Nat → Frame → Progress}
    (hframe : ∀ k g, P g → (step' k g).fault = none → P (step' k g).frame) {f : Frame} (hf : P f) {runs : List Run}
    (h : ∀ k ∈ runs.flatMap Run.offsets, ∀ g, P g → step k g = step' k g) :
    parallel step f runs = parallel step' f runs := by
  have hparts : (runs.map fun r => iterate step r.size r.first (start f)) =
      runs.map fun r => iterate step' r.size r.first (start f) := by
    refine List.map_congr_left fun r hr => iterate_congr hframe r.size r.first hf fun k hk => ?_
    exact h k (List.mem_flatMap.2 ⟨r, hr, hk⟩)
  simp only [parallel, hparts]

theorem Yields.parallel {P : Frame → Prop} {room : Nat → Prop} {F : Nat → List Tuple}
    {step : Nat → Frame → Progress} {count : Nat} {runs : List Run}
    (hcovers : (runs.flatMap Run.offsets).Perm (List.range count))
    (hstep : ∀ k < count, ∀ g, P g → Yields (room k) (F k) (step k g))
    (hframe : ∀ k g, P g → (step k g).fault = none → P (step k g).frame)
    {f : Frame} (hf : P f) :
    Yields (∀ k < count, room k) ((List.range count).flatMap F) (parallel step f runs) := by
  have hmem : ∀ {k}, k < count ↔ ∃ r ∈ runs, k ∈ r.offsets := by
    intro k
    rw [← List.mem_range, ← hcovers.mem_iff, List.mem_flatMap]
  -- Every run is a loop of its own over its offsets.
  have hrun : ∀ r ∈ runs, Yields (∀ k ∈ r.offsets, room k) (r.offsets.flatMap F)
      (Progress.iterate step r.size r.first (.start f)) := by
    intro r hr
    have h := Yields.iterate hframe (fun k hk g hg => hstep k (hmem.2 ⟨r, hr, hk⟩) g hg)
      (Yields.start f) fun _ => hf
    exact h.congr (by simp [Run.offsets]) (by simp [Run.offsets])
  constructor
  · intro hroom
    have hdone : ∀ r ∈ runs, (Progress.iterate step r.size r.first (.start f)).fault = none ∧
        (Progress.iterate step r.size r.first (.start f)).visits.toList.Perm (r.offsets.flatMap F) :=
      fun r hr => (hrun r hr).done fun k hk => hroom k (hmem.2 ⟨r, hr, hk⟩)
    constructor
    · simp only [Progress.parallel, List.findSome?_eq_none_iff, List.mem_map]
      rintro _ ⟨r, hr, rfl⟩
      exact (hdone r hr).1
    · rw [visits_parallel]
      refine (List.Perm.flatMap_left _ fun r hr => (hdone r hr).2).trans ?_
      rw [← List.flatMap_assoc]
      exact hcovers.flatMap_right F
  · intro hno
    simp only [Progress.parallel]
    cases hfind : (runs.map fun r => Progress.iterate step r.size r.first (.start f)).findSome? (·.fault) with
    | none =>
      exfalso
      rw [List.findSome?_eq_none_iff] at hfind
      refine hno fun k hk => ?_
      obtain ⟨r, hr, hkr⟩ := hmem.1 hk
      exact (hrun r hr).room (hfind _ (List.mem_map_of_mem hr)) k hkr
    | some fault =>
      obtain ⟨p, hp, hfault⟩ := List.exists_of_findSome?_eq_some hfind
      obtain ⟨r, hr, rfl⟩ := List.mem_map.1 hp
      rw [(hrun r hr).eq_noRoom hfault]

end AdaptiveLoops.Progress
