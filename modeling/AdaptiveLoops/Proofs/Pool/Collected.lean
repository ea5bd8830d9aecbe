/-
What a poll collects: the launches that are seen complete, slot by slot.

What it lists is said slot by slot (`mem_listed`), in increasing order of
the slots (`pairwise_listed`); it empties the slots it lists and no other
(`slots_sweep_eq`). Of each candidate nothing is lost: what it had armed is
collected or still armed (`countP_poll`).
-/
import AdaptiveLoops.Pool
import Mathlib.Data.List.Nodup

namespace AdaptiveLoops.Pool

open Device (LaunchId Outcome)

/-! ## What is listed -/

theorem collected?_eq_some {outcome? : LaunchId → Option Outcome} {slot : Nat} {s : Slot} {c : Collected} :
    collected? outcome? slot s = some c ↔
      slot = c.slot ∧ ∃ launch, s = .inFlight c.context launch ∧ outcome? launch = some c.outcome := by
  obtain ⟨slot', context', o'⟩ := c
  cases s with
  | free => simp [collected?]
  | reserved => simp [collected?]
  | inFlight context launch =>
    simp only [collected?, Option.map_eq_some_iff, Collected.mk.injEq, Slot.inFlight.injEq]
    constructor
    · rintro ⟨o, ho, rfl, rfl, rfl⟩
      exact ⟨rfl, launch, ⟨rfl, rfl⟩, ho⟩
    · rintro ⟨rfl, _, ⟨rfl, rfl⟩, ho⟩
      exact ⟨o', ho, rfl, rfl, rfl⟩

section
variable (seen : Nat → LaunchId → Option Outcome)

/-- **A launch is listed where it is in flight and seen complete**, with its context and its outcome. -/
theorem mem_listed {c : Collected} : ∀ {slots : List Slot} {first : Nat},
    c ∈ listed seen first slots ↔ first ≤ c.slot ∧ ∃ launch,
      slots[c.slot - first]? = some (.inFlight c.context launch) ∧ seen c.slot launch = some c.outcome
  | [], first => by simp [listed]
  | s :: rest, first => by
    rw [listed, List.mem_append, Option.mem_toList, collected?_eq_some, mem_listed]
    constructor
    · rintro (⟨rfl, launch, rfl, hseen⟩ | ⟨hle, launch, hslot, hseen⟩)
      · exact ⟨Nat.le_refl _, launch, by simp, hseen⟩
      · refine ⟨Nat.le_of_succ_le hle, launch, ?_, hseen⟩
        rwa [show c.slot - first = c.slot - (first + 1) + 1 by omega, List.getElem?_cons_succ]
    · rintro ⟨hle, launch, hslot, hseen⟩
      rcases Nat.eq_or_lt_of_le hle with rfl | hlt
      · rw [Nat.sub_self, List.getElem?_cons_zero, Option.some.injEq] at hslot
        exact .inl ⟨rfl, launch, hslot, hseen⟩
      · rw [show c.slot - first = c.slot - (first + 1) + 1 by omega, List.getElem?_cons_succ] at hslot
        exact .inr ⟨hlt, launch, hslot, hseen⟩

theorem pairwise_listed : ∀ (slots : List Slot) (first : Nat),
    ((listed seen first slots).map (·.slot)).Pairwise (· < ·)
  | [], _ => .nil
  | s :: rest, first => by
    rw [listed, List.map_append, List.pairwise_append]
    refine ⟨?_, pairwise_listed rest (first + 1), ?_⟩
    · cases collected? (seen first) first s <;> simp
    · intro slot hslot slot' hslot'
      obtain ⟨c, hc, rfl⟩ := List.mem_map.1 hslot
      obtain ⟨c', hc', rfl⟩ := List.mem_map.1 hslot'
      rw [Option.mem_toList, collected?_eq_some] at hc
      have hle := ((mem_listed seen).1 hc').1
      omega

theorem mem_map_slot_listed {slots : List Slot} {slot : Nat} :
    slot ∈ (listed seen 0 slots).map (·.slot) ↔
      ∃ context launch, slots[slot]? = some (.inFlight context launch) ∧ (seen slot launch).isSome = true := by
  rw [List.mem_map]
  constructor
  · rintro ⟨c, hc, rfl⟩
    obtain ⟨-, launch, hslot, hseen⟩ := (mem_listed seen).1 hc
    exact ⟨c.context, launch, hslot, by rw [hseen]; rfl⟩
  · rintro ⟨context, launch, hslot, hseen⟩
    obtain ⟨o, ho⟩ := Option.isSome_iff_exists.1 hseen
    exact ⟨⟨slot, context, o⟩, (mem_listed seen).2 ⟨Nat.zero_le _, launch, hslot, ho⟩, rfl⟩

/-! ## What is emptied -/

theorem emptied_of_seen {outcome? : LaunchId → Option Outcome} {context : Context} {launch : LaunchId}
    (h : (outcome? launch).isSome = true) : emptied outcome? (.inFlight context launch) = .free := by
  simp [emptied, collected?, h]

theorem emptied_of_unseen {outcome? : LaunchId → Option Outcome} {s : Slot}
    (h : ∀ context launch, s = .inFlight context launch → outcome? launch = none) :
    emptied outcome? s = s := by
  cases s with
  | free => rfl
  | reserved => rfl
  | inFlight context launch => simp [emptied, collected?, h context launch rfl]

theorem slots_sweep (p : Pool) (slot : Nat) :
    (p.sweep seen).2.slots[slot]? = (p.slots[slot]?).map (emptied (seen slot)) :=
  List.getElem?_mapIdx

/-- **A sweep frees the slots that it lists** and leaves the others as they are. -/
theorem slots_sweep_eq (p : Pool) (slot : Nat) :
    (p.sweep seen).2.slots[slot]? =
      if slot ∈ (p.sweep seen).1.map (·.slot) then some .free else p.slots[slot]? := by
  rw [slots_sweep]
  split
  · next hmem =>
    obtain ⟨context, launch, hin, hseen⟩ := (mem_map_slot_listed seen).1 hmem
    rw [hin, Option.map_some, emptied_of_seen hseen]
  · next hmem =>
    cases hslot : p.slots[slot]? with
    | none => rfl
    | some s =>
      rw [Option.map_some, emptied_of_unseen]
      rintro context launch rfl
      by_contra hseen
      exact hmem ((mem_map_slot_listed seen).2 ⟨context, launch, hslot, Option.ne_none_iff_isSome.1 hseen⟩)

end

/-! ## Where a launch is seen alike at every slot -/

variable (outcome? : LaunchId → Option Outcome)

theorem emptied_eq_free {s : Slot} :
    emptied outcome? s = .free ↔ (collected? outcome? 0 s).isSome = true ∨ s = .free := by
  unfold emptied
  split
  · next h => simp [h]
  · next h => simp [h]

theorem slots_poll (p : Pool) : (p.poll outcome?).2.slots = p.slots.map (emptied outcome?) :=
  List.ext_getElem? fun slot => by rw [poll, slots_sweep, List.getElem?_map]

theorem inFlight_mem_of_collected {p : Pool} {c : Collected} (h : c ∈ (p.poll outcome?).1) :
    ∃ launch, .inFlight c.context launch ∈ p.slots := by
  obtain ⟨-, launch, hslot, -⟩ := (mem_listed _).1 h
  exact ⟨launch, List.mem_of_getElem? hslot⟩

theorem mem_of_mem_poll {p : Pool} {s : Slot} (hheld : s ≠ .free) (h : s ∈ (p.poll outcome?).2.slots) :
    s ∈ p.slots := by
  rw [slots_poll] at h
  obtain ⟨s', hs', heq⟩ := List.mem_map.1 h
  unfold emptied at heq
  split at heq
  · exact absurd heq.symm hheld
  · rwa [← heq]

theorem countP_listed (candidate : Nat) : ∀ (slots : List Slot) (first : Nat),
    (listed (fun _ => outcome?) first slots).countP (·.context.candidate == candidate) +
      (slots.map (emptied outcome?)).countP (holds candidate) = slots.countP (holds candidate)
  | [], first => rfl
  | s :: rest, first => by
    have ih := countP_listed candidate rest (first + 1)
    rw [listed, List.countP_append, List.map_cons, List.countP_cons, List.countP_cons]
    cases s with
    | free => simpa [collected?, emptied, holds] using ih
    | reserved => simpa [collected?, emptied, holds] using ih
    | inFlight context launch =>
      cases h : outcome? launch with
      | none =>
        simp only [collected?, h, emptied, Option.map_none, Option.toList_none, List.countP_nil,
          Option.isSome_none, Bool.false_eq_true, if_false]
        omega
      | some outcome =>
        simp only [collected?, h, emptied, holds, Option.map_some, Option.toList_some,
          List.countP_singleton, Option.isSome_some, if_true, Bool.false_eq_true, if_false]
        by_cases hc : context.candidate = candidate
        · simp only [hc, beq_self_eq_true, if_true]
          omega
        · simpa [hc] using ih

/-- **What a candidate had armed is collected or still armed.** -/
theorem countP_poll (p : Pool) (candidate : Nat) :
    (p.poll outcome?).1.countP (·.context.candidate == candidate) +
      (p.poll outcome?).2.slots.countP (holds candidate) = p.slots.countP (holds candidate) := by
  rw [slots_poll]
  exact countP_listed outcome? candidate p.slots 0

end AdaptiveLoops.Pool
