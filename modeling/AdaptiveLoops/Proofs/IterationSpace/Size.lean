/-
How many tuples a space has, and which lists of extents make one.

The number of tuples is the product of the segments' lengths, cut off at the
largest number of 64 bits (`length_eq_min_prod`). It is worked out factor by
factor and cut off after each, which comes to the same: a factor of 0 takes
the whole back to 0, and any other leaves what was cut off above the limit.
An extent past the signed numbers would end before 0, so it is refused
where it stands (`ofExtents_eq_ok_iff`, `ofExtents_eq_invalidSegment_iff`).
-/
import AdaptiveLoops.Proofs.Dispatch.RowMajor
import Mathlib

namespace AdaptiveLoops

/-! ## Segments -/

theorem Segment.length_eq_card (s : Segment) : s.length = (Finset.Ico s.begin.toInt s.stop.toInt).card := by
  rw [Int.card_Ico, length]

namespace IterationSpace

/-! ## The product, cut off -/

/-- Cutting a factor off first changes nothing where the product is cut off, too. -/
theorem min_mul_min (a b bound : Nat) : min (min a bound * b) bound = min (a * b) bound := by
  rw [← Nat.mul_min_mul_right, Nat.min_assoc]
  cases b with
  | zero => simp
  | succ b => rw [Nat.min_eq_right (Nat.le_mul_of_pos_right bound b.succ_pos)]

theorem foldl_length : ∀ (segments : List Segment) (acc : Nat), acc ≤ maxLength →
    segments.foldl (fun acc s => min (acc * s.length) maxLength) acc =
      min (acc * (segments.map (·.length)).prod) maxLength
  | [], acc, hacc => by simp [hacc]
  | s :: rest, acc, _ => by
    rw [List.foldl_cons, foldl_length rest _ (Nat.min_le_right _ _), min_mul_min, List.map_cons, List.prod_cons,
      Nat.mul_assoc]

theorem length_eq_min_prod (space : IterationSpace) :
    space.length = min (space.segments.map (·.length)).prod maxLength := by
  rw [length, foldl_length space.segments 1 (by decide), Nat.one_mul]

theorem length_eq_zero_iff (space : IterationSpace) : space.length = 0 ↔ space.isEmpty = true := by
  have hmin : space.length = 0 ↔ (space.segments.map (·.length)).prod = 0 := by
    have hmax : 0 < maxLength := by decide
    rw [length_eq_min_prod]
    omega
  rw [hmin, List.prod_eq_zero_iff, isEmpty, List.any_eq_true, List.mem_map]
  simp only [Segment.isEmpty_iff]

theorem length_eq_of_perm {space other : IterationSpace} (h : space.segments.Perm other.segments) :
    space.length = other.length := by
  rw [length_eq_min_prod, length_eq_min_prod, (h.map _).prod_eq]

/-! ## Spaces from extents -/

/-- The segment of an extent starts at 0. -/
def ofExtent (extent : UInt64) : Segment := ⟨0, extent.toInt64⟩

theorem ofExtents_eq (extents : List UInt64) : ofExtents extents = ofSegments (extents.map ofExtent) := by
  rw [ofExtents, ofBounds, List.map_map]
  rfl

/-- The extent is a signed number. -/
def Fits (extent : UInt64) : Prop := (extent.toNat : Int) ≤ Int64.maxValue.toInt

theorem toInt_toInt64 (extent : UInt64) :
    extent.toInt64.toInt = if extent.toNat < 2 ^ 63 then (extent.toNat : Int) else extent.toNat - 2 ^ 64 := by
  show extent.toBitVec.toInt = _
  rw [BitVec.toInt_eq_toNat_cond]
  have hcast : extent.toBitVec.toNat = extent.toNat := rfl
  rw [hcast]
  split <;> split <;> first | rfl | omega

/-- An extent that is no signed number ends before 0. -/
theorem inverted_ofExtent_iff {extent : UInt64} : (ofExtent extent).stop < (ofExtent extent).begin ↔ ¬ Fits extent := by
  have hmax : Int64.maxValue.toInt = 2 ^ 63 - 1 := rfl
  have hzero : (0 : Int64).toInt = 0 := rfl
  have hlt : extent.toNat < 2 ^ 64 := extent.toNat_lt
  rw [ofExtent, Int64.lt_iff_toInt_lt, toInt_toInt64, hzero, Fits, hmax]
  split <;> omega

theorem toInt_toInt64_of_fits {extent : UInt64} (h : Fits extent) : extent.toInt64.toInt = extent.toNat := by
  have hmax : Int64.maxValue.toInt = 2 ^ 63 - 1 := rfl
  rw [Fits, hmax] at h
  rw [toInt_toInt64, if_pos (by omega)]

theorem firstInverted?_eq_none : ∀ {position : Nat} {segments : List Segment},
    (∀ s ∈ segments, ¬ s.stop < s.begin) → firstInverted? position segments = none
  | _, [], _ => rfl
  | _, s :: rest, h => by
    rw [List.forall_mem_cons] at h
    rw [firstInverted?, if_neg h.1, firstInverted?_eq_none h.2]

theorem firstInverted?_append {s : Segment} {after : List Segment} (hs : s.stop < s.begin) :
    ∀ {position : Nat} {before : List Segment}, (∀ t ∈ before, ¬ t.stop < t.begin) →
      firstInverted? position (before ++ s :: after) = some (position + before.length, s)
  | _, [], _ => by rw [List.nil_append, firstInverted?, if_pos hs]; rfl
  | position, t :: before, h => by
    rw [List.forall_mem_cons] at h
    rw [List.cons_append, firstInverted?, if_neg h.1, firstInverted?_append hs h.2, List.length_cons, Nat.add_assoc,
      Nat.add_comm 1]

theorem ofExtents_of_fits {extents : List UInt64} (hne : extents ≠ []) (hfits : ∀ e ∈ extents, Fits e) :
    ofExtents extents = .ok ⟨extents.map ofExtent⟩ := by
  have hnone : firstInverted? 0 (extents.map ofExtent) = none := by
    refine firstInverted?_eq_none (List.forall_mem_map.2 fun e he => ?_)
    exact mt inverted_ofExtent_iff.1 (not_not.2 (hfits e he))
  rw [ofExtents_eq, ofSegments, if_neg (by simpa using hne), hnone]

theorem ofExtents_of_not_fits {before after : List UInt64} {extent : UInt64} (hbefore : ∀ e ∈ before, Fits e)
    (hextent : ¬ Fits extent) :
    ofExtents (before ++ extent :: after) = .error (.invalidSegment before.length (ofExtent extent)) := by
  have hsome : firstInverted? 0 ((before ++ extent :: after).map ofExtent) = some (before.length, ofExtent extent) := by
    rw [List.map_append, List.map_cons, firstInverted?_append (inverted_ofExtent_iff.2 hextent), List.length_map,
      Nat.zero_add]
    refine List.forall_mem_map.2 fun e he => ?_
    exact mt inverted_ofExtent_iff.1 (not_not.2 (hbefore e he))
  rw [ofExtents_eq, ofSegments, if_neg (by simp), hsome]

theorem fits_or_first_not (extents : List UInt64) : (∀ e ∈ extents, Fits e) ∨
    ∃ before extent after, extents = before ++ extent :: after ∧ (∀ e ∈ before, Fits e) ∧ ¬ Fits extent := by
  classical
  cases hfind : extents.find? (¬ Fits ·) with
  | none =>
    simp only [List.find?_eq_none, decide_eq_true_eq, not_not] at hfind
    exact .inl hfind
  | some extent =>
    simp only [List.find?_eq_some_iff_append, Bool.not_eq_true', decide_eq_true_eq, decide_eq_false_iff_not,
      not_not] at hfind
    obtain ⟨hextent, before, after, hcut, hbefore⟩ := hfind
    exact .inr ⟨before, extent, after, hcut, hbefore, hextent⟩

section
variable {extents : List UInt64}

theorem ofExtents_eq_ok_iff {space : IterationSpace} : ofExtents extents = .ok space ↔
    extents ≠ [] ∧ (∀ e ∈ extents, Fits e) ∧
      List.Forall₂ (fun e s => s.begin.toInt = 0 ∧ s.stop.toInt = e.toNat) extents space.segments := by
  constructor
  · intro h
    have hne : extents ≠ [] := by
      rintro rfl
      cases h
    rcases fits_or_first_not extents with hfits | ⟨before, extent, after, rfl, hbefore, hextent⟩
    · rw [ofExtents_of_fits hne hfits] at h
      obtain rfl := Except.ok.inj h
      refine ⟨hne, hfits, List.forall₂_map_right_iff.2 (List.forall₂_same.2 fun e he => ?_)⟩
      exact ⟨rfl, toInt_toInt64_of_fits (hfits e he)⟩
    · rw [ofExtents_of_not_fits hbefore hextent] at h
      cases h
  · rintro ⟨hne, hfits, hspans⟩
    have hmap : extents.map ofExtent = space.segments := by
      rw [← List.forall₂_eq_eq_eq, List.forall₂_map_left_iff]
      refine ((List.forall₂_and_left _ _).2 ⟨hfits, hspans⟩).imp fun e s h => ?_
      obtain ⟨he, hbegin, hstop⟩ := h
      rw [ofExtent, Segment.mk.injEq, ← Int64.toInt_inj, ← Int64.toInt_inj, toInt_toInt64_of_fits he]
      exact ⟨hbegin.symm, hstop.symm⟩
    rw [ofExtents_of_fits hne hfits, hmap]

theorem ofExtents_eq_invalidSegment_iff {position : Nat} {segment : Segment} :
    ofExtents extents = .error (.invalidSegment position segment) ↔
      ∃ before extent after, extents = before ++ extent :: after ∧ (∀ e ∈ before, Fits e) ∧ ¬ Fits extent ∧
        position = before.length ∧ segment = ⟨0, extent.toInt64⟩ := by
  constructor
  · intro h
    rcases fits_or_first_not extents with hfits | ⟨before, extent, after, rfl, hbefore, hextent⟩
    · by_cases hne : extents = []
      · rw [hne] at h
        cases h
      · rw [ofExtents_of_fits hne hfits] at h
        cases h
    · rw [ofExtents_of_not_fits hbefore hextent] at h
      cases h
      exact ⟨before, extent, after, rfl, hbefore, hextent, rfl, rfl⟩
  · rintro ⟨before, extent, after, rfl, hbefore, hextent, rfl, rfl⟩
    exact ofExtents_of_not_fits hbefore hextent

end

/-! ## Sequential loops over a space -/

theorem execute_sequential_covers (space : IterationSpace) {body : Body} (hbody : ∀ c, body c = none)
    (stream : Device.Stream) (now : Moment) : ∃ tree work, Statement.build space .sequential = .ok tree ∧
      (tree.execute stream .sequential space body now).Covers space work := by
  have hvalid : (Statement.ofPolicy .sequential space.rank).validate space.rank = .ok () :=
    Statement.validate_eq_ok.2 Statement.checkBelow_nest
  obtain rfl : body = fun _ => none := funext hbody
  have hwalk := Walker.run_nest_inOrder ⟨fun _ => none, now.schedule, false⟩ (fun _ => none) rfl space
  cases hwalk with
  | whole _ hvisits hfault =>
    exact ⟨_, _, by rw [Statement.build, hvalid]; rfl, Statement.runHost_covers (.of_perm hfault (.of_eq hvisits))⟩
  | cut _ _ _ _ hpanic _ _ => cases hpanic

/--
**Sizes are exact up to the largest number of 64 bits.** A list of extents
makes a space where it has an extent and all are signed numbers, and then
segment `k` holds the indices from 0 up to below extent `k`; the first
extent that is too large is refused in its place. In any space, of whatever
segments, a segment's length is the number of its indices, and the space's
is their product, cut off once. It is 0 for empty spaces alone, depends on
no order, and as long as it is not cut off it is the number of calls that a
sequential loop makes of its body.
-/
theorem sizes_exact (extents : List UInt64) (space : IterationSpace) :
    (∀ built, ofExtents extents = .ok built ↔ extents ≠ [] ∧ (∀ e ∈ extents, Fits e) ∧
      List.Forall₂ (fun e s => s.begin.toInt = 0 ∧ s.stop.toInt = e.toNat) extents built.segments) ∧
    (∀ position segment, ofExtents extents = .error (.invalidSegment position segment) ↔
      ∃ before extent after, extents = before ++ extent :: after ∧ (∀ e ∈ before, Fits e) ∧ ¬ Fits extent ∧
        position = before.length ∧ segment = ⟨0, extent.toInt64⟩) ∧
    (∀ s : Segment, s.length = (Finset.Ico s.begin.toInt s.stop.toInt).card ∧ s.length ≤ 2 ^ 64 - 1) ∧
    space.length = min (space.segments.map (·.length)).prod (2 ^ 64 - 1) ∧
    (space.length = 0 ↔ space.isEmpty = true) ∧
    (∀ other : IterationSpace, other.segments.Perm space.segments → other.length = space.length) ∧
    ((space.segments.map (·.length)).prod < 2 ^ 64 → ∀ body : Body, (∀ c, body c = none) →
      ∀ (stream : Device.Stream) (now : Moment), ∃ tree work, Statement.build space .sequential = .ok tree ∧
        (tree.execute stream .sequential space body now).Covers space work ∧ work.visits.size = space.length) := by
  refine ⟨fun _ => ofExtents_eq_ok_iff, fun _ _ => ofExtents_eq_invalidSegment_iff, fun s => ⟨s.length_eq_card, ?_⟩,
    space.length_eq_min_prod, space.length_eq_zero_iff, fun _ => length_eq_of_perm, ?_⟩
  · exact Nat.le_sub_one_of_lt s.length_lt
  · intro hprod body hbody stream now
    obtain ⟨tree, work, htree, hcovers⟩ := space.execute_sequential_covers hbody stream now
    refine ⟨tree, work, htree, hcovers, ?_⟩
    rw [hcovers.covers.size, length_eq_min_prod]
    exact (Nat.min_eq_left (Nat.le_sub_one_of_lt hprod)).symm

/--
The lengths of the first two segments alone have a product that is cut off,
the third is the wrong way round, and so nothing is called; and of two
extents that are too large the first is refused.
-/
theorem sizes_exact_cut_off :
    let space : IterationSpace := ⟨[⟨Int64.minValue, Int64.maxValue⟩, ⟨Int64.minValue, Int64.maxValue⟩, ⟨3, 1⟩]⟩
    (space.segments.map (·.length)).prod < 2 ^ 64 ∧
    (∃ tree work, Statement.build space .sequential = .ok tree ∧
      (tree.execute .empty .sequential space (fun _ => none) ⟨.serial, ⟨0⟩⟩).Covers space work ∧ work.visits.size = 0) ∧
    ofExtents [4, 9223372036854775808, 18446744073709551615] =
      .error (.invalidSegment 1 ⟨0, Int64.minValue⟩) := by
  intro space
  have hzero : (space.segments.map (·.length)).prod = 0 := by decide
  obtain ⟨-, hinvalid, -, -, hempty, -, hcalls⟩ :=
    sizes_exact [4, 9223372036854775808, 18446744073709551615] space
  have hlength : space.length = 0 := hempty.2 (by decide)
  obtain ⟨tree, work, htree, hcovers, hsize⟩ :=
    hcalls (by rw [hzero]; decide) (fun _ => none) (fun _ => rfl) .empty ⟨.serial, ⟨0⟩⟩
  refine ⟨by rw [hzero]; decide, ⟨tree, work, htree, hcovers, hsize.trans hlength⟩, (hinvalid _ _).2 ?_⟩
  refine ⟨[4], 9223372036854775808, [18446744073709551615], rfl, ?_, ?_, rfl, rfl⟩
  · simp only [List.forall_mem_singleton, Fits]
    decide
  · simp only [Fits]
    decide

end IterationSpace

end AdaptiveLoops
