/-
Which free slot is handed out.

It is the one that was given back last. Slots that nobody had yet count as
given back before all others, the lowest of them last (`go_hands_out_newest`).
So the lowest free slot goes first in a new pool, and then as long as every
slot that came back has been handed out again, but not always: of two slots
that come back the later one goes first, whichever is lower
(`lower_slot_is_passed_over`).

What carries this is that the free list stands in the order in which its
slots came back, the newest first (`NewestFirst`). An act puts what it gives
back in front of the list and may take its first slot away (`free_after`).
-/
import AdaptiveLoops.Proofs.Pool.Outstanding

namespace AdaptiveLoops.Pool

open Device (Stream)

/-- The slots of `free` stand in the order in which `history` has them first. -/
structure NewestFirst (history free : List Nat) : Prop where
  mem : ∀ slot ∈ free, slot ∈ history
  ordered : free.Pairwise fun a b => history.idxOf a < history.idxOf b

namespace NewestFirst

variable {history free new : List Nat}

theorem sublist (h : NewestFirst history free) {kept : List Nat} (hkept : kept.Sublist free) :
    NewestFirst history kept :=
  ⟨fun slot hslot => h.mem slot (hkept.subset hslot), h.ordered.sublist hkept⟩

theorem cons (h : NewestFirst history free) {slot : Nat} (hslot : slot ∉ free) :
    NewestFirst (slot :: history) (slot :: free) := by
  have hlater : ∀ x ∈ free, (slot :: history).idxOf x = history.idxOf x + 1 := by
    intro x hx
    refine List.idxOf_cons_ne history ?_
    rintro rfl
    exact hslot hx
  refine ⟨?_, List.pairwise_cons.2 ⟨fun x hx => ?_, ?_⟩⟩
  · rw [List.forall_mem_cons]
    exact ⟨List.mem_cons_self, fun x hx => List.mem_cons_of_mem slot (h.mem x hx)⟩
  · rw [List.idxOf_cons_self, hlater x hx]
    exact Nat.succ_pos _
  · refine h.ordered.imp_of_mem fun ha hb hlt => ?_
    rw [hlater _ ha, hlater _ hb]
    exact Nat.succ_lt_succ hlt

theorem append (h : NewestFirst history free) (hnodup : (new ++ free).Nodup) :
    NewestFirst (new ++ history) (new ++ free) := by
  induction new with
  | nil => exact h
  | cons slot new ih =>
    rw [List.cons_append, List.nodup_cons] at hnodup
    exact (ih hnodup.2).cons hnodup.1

theorem refl (hnodup : free.Nodup) : NewestFirst free free := by
  have hnil : NewestFirst [] [] := ⟨by simp, .nil⟩
  have happend : NewestFirst (free ++ []) (free ++ []) := hnil.append (by rwa [List.append_nil])
  rwa [List.append_nil] at happend

/-- **The first free slot of the history is the first of the list.** -/
theorem find?_eq {isFree : Nat → Bool} (hfree : ∀ slot, isFree slot = true ↔ slot ∈ free)
    (h : NewestFirst history free) : history.find? isFree = free.head? := by
  induction history with
  | nil =>
    have hnone : free = [] := List.eq_nil_iff_forall_not_mem.2 fun slot hslot => by
      cases h.mem slot hslot
    rw [hnone]
    rfl
  | cons slot history ih =>
    by_cases hslot : slot ∈ free
    · rw [List.find?_cons_of_pos ((hfree slot).2 hslot)]
      obtain ⟨first, rest, rfl⟩ := List.exists_cons_of_ne_nil (List.ne_nil_of_mem hslot)
      rcases List.mem_cons.1 hslot with rfl | hrest
      · rfl
      · -- Nothing stands in the history before its first slot.
        have hlt := (List.pairwise_cons.1 h.ordered).1 slot hrest
        rw [List.idxOf_cons_self] at hlt
        cases hlt
    · have hne : ∀ x ∈ free, slot ≠ x := by
        rintro x hx rfl
        exact hslot hx
      rw [List.find?_cons_of_neg fun hpos => hslot ((hfree slot).1 hpos)]
      refine ih ⟨fun x hx => ?_, h.ordered.imp_of_mem fun ha hb hlt => ?_⟩
      · exact (List.mem_cons.1 (h.mem x hx)).resolve_left fun heq => hne x hx heq.symm
      · rwa [List.idxOf_cons_ne _ (hne _ ha), List.idxOf_cons_ne _ (hne _ hb), Nat.succ_lt_succ_iff] at hlt

end NewestFirst

/-! ## What comes back -/

/-- Whether a slot is there and free. -/
def isFreeAt (p : Pool) (slot : Nat) : Bool :=
  (p.slots[slot]?).any Slot.isFree

theorem isFreeAt_iff {p : Pool} {slot : Nat} : p.isFreeAt slot = true ↔ p.slots[slot]? = some .free := by
  simp [isFreeAt, Option.any_eq_true, Slot.isFree_iff]

/-- The slots that an act gives back, in this order. -/
def Act.givesBack (s : Shared) : Act → List Nat
  | .call (.release slot) =>
    match s.pool.release s.stream.isComplete slot with
    | .ok _ => [slot]
    | .error _ => []
  | act => (act.lists s).map (·.slot)

namespace Shared

/-- The slots that came back in a run of acts, in this order. -/
def givenBack (s : Shared) : List Act → List Nat
  | [] => []
  | act :: acts => act.givesBack s ++ (s.after act).givenBack acts

/-- **An act puts what it gives back in front of what stays free**, the last of it first. -/
theorem free_after (s : Shared) (act : Act) :
    ∃ kept, (s.after act).pool.free = (act.givesBack s).reverse ++ kept ∧ kept.Sublist s.pool.free := by
  cases act with
  | stream e => exact ⟨_, rfl, .refl _⟩
  | sweep looks => exact ⟨_, rfl, .refl _⟩
  | call c =>
    cases c with
    | acquire =>
      simp only [after, step, call]
      split
      · exact ⟨_, rfl, .refl _⟩
      · next slot p hp =>
        obtain ⟨rest, hfree, rfl⟩ := acquire_eq_ok hp
        exact ⟨rest, rfl, hfree ▸ List.sublist_cons_self slot rest⟩
    | arm slot context launch =>
      simp only [after, step, call]
      split
      · exact ⟨_, rfl, .refl _⟩
      · next p hp =>
        obtain ⟨-, rfl⟩ := arm_eq_ok hp
        exact ⟨_, rfl, .refl _⟩
    | tryComplete slot => exact ⟨_, rfl, .refl _⟩
    | release slot =>
      simp only [after, step, call, Act.givesBack]
      cases hp : s.pool.release s.stream.isComplete slot with
      | error e => exact ⟨_, rfl, .refl _⟩
      | ok p =>
        obtain ⟨-, rfl⟩ := release_eq_ok hp
        exact ⟨_, rfl, .refl _⟩
    | poll => exact ⟨_, rfl, .refl _⟩

theorem newestFirst_after {s : Shared} (hvalid : s.pool.Valid) {history : List Nat}
    (h : NewestFirst history s.pool.free) (act : Act) :
    NewestFirst ((act.givesBack s).reverse ++ history) (s.after act).pool.free := by
  have hnodup := (valid_after hvalid act).nodup
  obtain ⟨kept, hfree, hkept⟩ := free_after s act
  rw [hfree] at hnodup ⊢
  exact (h.sublist hkept).append hnodup

/-- **The free list of a run stands in the order in which slots came back**, the newest first. -/
theorem newestFirst_go : ∀ (acts : List Act) {s : Shared} {history : List Nat}, s.pool.Valid →
    NewestFirst history s.pool.free →
      NewestFirst ((s.givenBack acts).reverse ++ history) (s.go acts).pool.free
  | [], _, _, _, h => h
  | act :: acts, s, history, hvalid, h => by
    have hrest := newestFirst_go acts (valid_after hvalid act) (newestFirst_after hvalid h act)
    rwa [givenBack, List.reverse_append, List.append_assoc]

end Shared

theorem acquire_eq_ok_iff {p : Pool} {slot : Nat} :
    (∃ p', p.acquire = .ok (slot, p')) ↔ p.free.head? = some slot := by
  unfold acquire
  split
  · next hfree => simp [hfree]
  · next first rest hfree => simp [hfree]

/--
**The slot that was given back last is handed out first**, after any acts on a new pool, with launches that
come to their end at any time. Slots that nobody had yet count as given back before, the lowest of them last.

So an acquire hands out the lowest free slot where no slot that came back is still free.
-/
theorem go_hands_out_newest (site : CallSite) (capacity : Nat) (stream : Stream) (acts : List Act) :
    let s := Shared.go ⟨ofCapacity site capacity, stream⟩ acts
    let back := Shared.givenBack ⟨ofCapacity site capacity, stream⟩ acts
    (∀ slot, (∃ p, s.pool.acquire = .ok (slot, p)) ↔
      (back.reverse ++ List.range capacity).find? s.pool.isFreeAt = some slot) ∧
    ((∀ slot ∈ back, s.pool.isFreeAt slot = false) → ∀ slot p, s.pool.acquire = .ok (slot, p) →
      s.pool.isFreeAt slot = true ∧ ∀ lower < slot, s.pool.isFreeAt lower = false) := by
  intro s back
  have hnew := valid_ofCapacity site capacity
  have hvalid : s.pool.Valid := Shared.valid_go acts (s := ⟨ofCapacity site capacity, stream⟩) hnew
  have hnewest : NewestFirst (back.reverse ++ List.range capacity) s.pool.free :=
    Shared.newestFirst_go acts (s := ⟨ofCapacity site capacity, stream⟩) hnew (.refl hnew.nodup)
  have hfree : ∀ slot, s.pool.isFreeAt slot = true ↔ slot ∈ s.pool.free := fun slot =>
    isFreeAt_iff.trans (hvalid.mem_free slot).symm
  have hfind := hnewest.find?_eq hfree
  refine ⟨fun slot => by rw [acquire_eq_ok_iff, hfind], fun hback slot p hp => ?_⟩
  have hslot := acquire_eq_ok_iff.1 ⟨p, hp⟩
  have hnone : back.reverse.find? s.pool.isFreeAt = none := by
    rw [List.find?_eq_none]
    intro x hx
    rw [hback x (List.mem_reverse.1 hx)]
    exact Bool.false_ne_true
  rw [← hfind, List.find?_append, hnone, Option.none_or, List.find?_range_eq_some] at hslot
  exact ⟨hslot.1, fun lower hlt => by simpa using hslot.2.2 lower hlt⟩

/-- Of two slots that are released the later one is handed out, while the lower one is free. -/
theorem lower_slot_is_passed_over :
    let acts : List Act := [.call .acquire, .call .acquire, .call (.release 0), .call (.release 1)]
    let s := Shared.go ⟨ofCapacity (.named "saxpy") 2, .empty⟩ acts
    (∃ p, s.pool.acquire = .ok (1, p)) ∧ s.pool.isFreeAt 0 = true := by
  intro acts s
  exact ⟨⟨_, rfl⟩, by decide⟩

end AdaptiveLoops.Pool
