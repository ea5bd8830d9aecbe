/-
The launches in flight of a pool, as a list.

A poll hands out those of the list that are seen complete and keeps the
others (`armed_poll`). A slot that is handed out adds nothing to the list
(`Valid.armed_acquired`), and one that is armed adds its launch
(`filterMap_armed?_set`). The order is that of the slots, which says nothing
of the order of the launches.
-/
import AdaptiveLoops.Proofs.Pool.Valid
import Mathlib.Data.List.Perm.Basic

namespace AdaptiveLoops

open Device (LaunchId Outcome)

/-- A launch in flight, and what it will be reported under. -/
structure Armed where
  context : Context
  launch : LaunchId

/-- A launch that is not seen complete. -/
def Armed.isUnseen (seen : LaunchId → Option Outcome) (a : Armed) : Bool :=
  (seen a.launch).isNone

namespace Slot

def armed? : Slot → Option Armed
  | .inFlight context launch => some ⟨context, launch⟩
  | _ => none

theorem armed?_eq_some {s : Slot} {a : Armed} : s.armed? = some a ↔ s = .inFlight a.context a.launch := by
  cases s with
  | free => simp [armed?]
  | reserved => simp [armed?]
  | inFlight context launch =>
    obtain ⟨context', launch'⟩ := a
    simp [armed?]

end Slot

namespace Pool

def armed (p : Pool) : List Armed :=
  p.slots.filterMap Slot.armed?

theorem mem_armed {p : Pool} {a : Armed} : a ∈ p.armed ↔ .inFlight a.context a.launch ∈ p.slots := by
  simp only [armed, List.mem_filterMap, Slot.armed?_eq_some, exists_eq_right]

variable (outcome? : LaunchId → Option Outcome)

/-- What a poll hands out are the launches that are seen complete, with what they came to. -/
theorem map_listed {β : Type} (f : Context → Outcome → β) : ∀ (slots : List Slot) (first : Nat),
    (listed (fun _ => outcome?) first slots).map (fun c => f c.context c.outcome) =
      (slots.filterMap Slot.armed?).filterMap fun a => (outcome? a.launch).map (f a.context)
  | [], _ => rfl
  | s :: rest, first => by
    rw [listed, List.map_append, map_listed f rest]
    cases s with
    | free => rfl
    | reserved => rfl
    | inFlight context launch =>
      cases h : outcome? launch with
      | none => simp [collected?, Slot.armed?, h]
      | some o => simp [collected?, Slot.armed?, h]

/-- **A poll keeps the launches that are not seen complete.** -/
theorem armed_poll (p : Pool) :
    (p.poll outcome?).2.armed = p.armed.filter (Armed.isUnseen outcome?) := by
  simp only [armed, slots_poll, List.filterMap_map, List.filter_filterMap]
  refine List.filterMap_congr fun s _ => ?_
  cases s with
  | free => rfl
  | reserved => rfl
  | inFlight context launch => cases h : outcome? launch <;>
    simp [emptied, collected?, Slot.armed?, Option.filter, Armed.isUnseen, h]

theorem filterMap_armed?_of_free {slots : List Slot} {slot : Nat} (h : slots[slot]? = some .free) :
    slots.filterMap Slot.armed? =
      (slots.take slot).filterMap Slot.armed? ++ (slots.drop (slot + 1)).filterMap Slot.armed? := by
  obtain ⟨hlt, hget⟩ := List.getElem?_eq_some_iff.1 h
  have hsplit : slots = slots.take slot ++ .free :: slots.drop (slot + 1) := by
    rw [← hget, List.getElem_cons_drop, List.take_append_drop]
  conv_lhs => rw [hsplit]
  rw [List.filterMap_append]
  rfl

theorem filterMap_armed?_set {slots : List Slot} {slot : Nat} (h : slots[slot]? = some .free)
    (context : Context) (launch : LaunchId) :
    ((slots.set slot (.inFlight context launch)).filterMap Slot.armed?).Perm
      (⟨context, launch⟩ :: slots.filterMap Slot.armed?) := by
  obtain ⟨hlt, -⟩ := List.getElem?_eq_some_iff.1 h
  rw [List.set_eq_take_append_cons_drop, if_pos hlt, filterMap_armed?_of_free h, List.filterMap_append]
  exact List.perm_middle

theorem Valid.armed_acquired {p : Pool} (h : p.Valid) {slot : Nat} {p' : Pool} (hp : p.acquire = .ok (slot, p')) :
    p'.armed = p.armed := by
  obtain ⟨hfree, hslots⟩ := h.acquired hp
  obtain ⟨hlt, -⟩ := List.getElem?_eq_some_iff.1 hfree
  rw [armed, armed, hslots, List.set_eq_take_append_cons_drop, if_pos hlt, filterMap_armed?_of_free hfree,
    List.filterMap_append]
  rfl

theorem Valid.length_armed {p : Pool} (h : p.Valid) (hnone : .reserved ∉ p.slots) :
    p.armed.length = p.inFlight := by
  rw [h.inFlight_eq, armed, List.length_filterMap_eq_countP]
  refine List.countP_congr fun s hs => ?_
  cases s with
  | free => simp [Slot.armed?, Slot.isHeld, Slot.isFree]
  | reserved => exact absurd hs hnone
  | inFlight context launch => simp [Slot.armed?, Slot.isHeld, Slot.isFree]

end Pool

end AdaptiveLoops
