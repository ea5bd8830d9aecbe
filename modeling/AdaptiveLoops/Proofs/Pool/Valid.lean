/-
The slots of a pool and its free list, which say the same thing twice.

`Pool.Valid` is the invariant: the free list names the free slots, each
once. Every operation keeps it, whatever slot it is given, and in a valid
pool the free list is as long as there are free slots (`Valid.freeCount_eq`),
so that a slot is handed out exactly where one is free (`Valid.acquire_iff`).
-/
import AdaptiveLoops.Proofs.Pool.Collected

namespace AdaptiveLoops

open Device (LaunchId Outcome)

namespace Slot

def isFree : Slot → Bool
  | .free => true
  | .reserved => false
  | .inFlight _ _ => false

/-- Reserved or in flight. -/
def isHeld (s : Slot) : Bool := !s.isFree

theorem isFree_iff {s : Slot} : s.isFree = true ↔ s = .free := by
  cases s <;> simp [isFree]

end Slot

namespace Pool

/-- The free list names the free slots, and none of them twice. -/
structure Valid (p : Pool) : Prop where
  nodup : p.free.Nodup
  mem_free : ∀ slot, slot ∈ p.free ↔ p.slots[slot]? = some .free

variable {p : Pool}

/-! ## What a valid pool counts -/

theorem mem_findIdxs_isFree {slots : List Slot} {slot : Nat} :
    slot ∈ slots.findIdxs Slot.isFree ↔ slots[slot]? = some .free := by
  rw [List.mem_findIdxs_iff_exists_getElem_pos, List.getElem?_eq_some_iff]
  simp only [Slot.isFree_iff]

theorem Valid.perm (h : p.Valid) : p.free.Perm (p.slots.findIdxs Slot.isFree) :=
  (List.perm_ext_iff_of_nodup h.nodup List.nodup_findIdxs).2 fun slot => by
    rw [h.mem_free, mem_findIdxs_isFree]

theorem Valid.freeCount_eq (h : p.Valid) : p.freeCount = p.slots.countP Slot.isFree := by
  rw [freeCount, h.perm.length_eq, List.length_findIdxs]

theorem Valid.inFlight_eq (h : p.Valid) : p.inFlight = p.slots.countP Slot.isHeld := by
  have hfree := h.freeCount_eq
  have hall := List.length_eq_countP_add_countP Slot.isFree (l := p.slots)
  have hheld : p.slots.countP Slot.isHeld = p.slots.countP fun s => ¬ s.isFree = true :=
    List.countP_congr fun s _ => by simp [Slot.isHeld]
  unfold freeCount inFlight at *
  omega

/-- **The counts add up**: every slot is free or held. -/
theorem Valid.freeCount_add_inFlight (h : p.Valid) : p.freeCount + p.inFlight = p.capacity := by
  have hfree := h.freeCount_eq
  have hle := List.countP_le_length (p := Slot.isFree) (l := p.slots)
  unfold freeCount inFlight capacity at *
  omega

/-! ## What operations do -/

theorem acquire_eq_ok {slot : Nat} {p' : Pool} (h : p.acquire = .ok (slot, p')) :
    ∃ rest, p.free = slot :: rest ∧ p' = { p with slots := p.slots.set slot .reserved, free := rest } := by
  unfold acquire at h
  split at h
  · cases h
  · next slot rest hfree =>
    cases h
    exact ⟨rest, hfree, rfl⟩

theorem acquire_eq_error {e : LoopError} (h : p.acquire = .error e) :
    p.free = [] ∧ e = .poolExhausted p.site p.capacity := by
  unfold acquire at h
  split at h
  · next hfree =>
    cases h
    exact ⟨hfree, rfl⟩
  · cases h

theorem arm_eq_ok {slot : Nat} {context : Context} {launch : LaunchId} {p' : Pool}
    (h : p.arm slot context launch = .ok p') :
    p.slots[slot]? = some .reserved ∧ p' = { p with slots := p.slots.set slot (.inFlight context launch) } := by
  unfold arm at h
  split at h
  · next hslot =>
    cases h
    exact ⟨hslot, rfl⟩
  · cases h

theorem release_eq_ok {isComplete : LaunchId → Bool} {slot : Nat} {p' : Pool}
    (h : p.release isComplete slot = .ok p') :
    (∃ s, p.slots[slot]? = some s ∧ s.isHeld = true) ∧ p' = p.giveBack slot := by
  unfold release at h
  split at h
  · cases h
  · cases h
  · next hslot =>
    cases h
    exact ⟨⟨_, hslot, rfl⟩, rfl⟩
  · next context launch hslot =>
    split at h
    · cases h
      exact ⟨⟨_, hslot, rfl⟩, rfl⟩
    · cases h

/-! ## Operations keep a pool valid -/

theorem valid_ofCapacity (site : CallSite) (capacity : Nat) : (ofCapacity site capacity).Valid where
  nodup := List.nodup_range
  mem_free slot := by simp [ofCapacity, List.getElem?_replicate]

theorem Valid.acquire (h : p.Valid) {slot : Nat} {p' : Pool} (hp : p.acquire = .ok (slot, p')) :
    p'.Valid := by
  obtain ⟨rest, hfree, rfl⟩ := acquire_eq_ok hp
  have hnodup := h.nodup
  rw [hfree, List.nodup_cons] at hnodup
  refine ⟨hnodup.2, fun i => ?_⟩
  have hi := h.mem_free i
  rw [hfree, List.mem_cons] at hi
  simp only [List.getElem?_set]
  split
  · next heq =>
    subst heq
    constructor
    · exact fun hmem => absurd hmem hnodup.1
    · split <;> simp
  · next hne =>
    rw [← hi]
    exact ⟨.inr, fun hor => hor.resolve_left fun heq => hne heq.symm⟩

theorem Valid.arm (h : p.Valid) {slot : Nat} {context : Context} {launch : LaunchId} {p' : Pool}
    (hp : p.arm slot context launch = .ok p') : p'.Valid := by
  obtain ⟨hslot, rfl⟩ := arm_eq_ok hp
  refine ⟨h.nodup, fun i => ?_⟩
  simp only [h.mem_free i, List.getElem?_set]
  split
  · next heq =>
    subst heq
    rw [hslot]
    split <;> simp
  · rfl

theorem Valid.release (h : p.Valid) {isComplete : LaunchId → Bool} {slot : Nat} {p' : Pool}
    (hp : p.release isComplete slot = .ok p') : p'.Valid := by
  obtain ⟨⟨s, hslot, hheld⟩, rfl⟩ := release_eq_ok hp
  have hlt : slot < p.slots.length := (List.getElem?_eq_some_iff.1 hslot).1
  have hnot : slot ∉ p.free := by
    rw [h.mem_free, hslot]
    rintro ⟨⟩
    cases hheld
  refine ⟨List.nodup_cons.2 ⟨hnot, h.nodup⟩, fun i => ?_⟩
  simp only [giveBack, List.mem_cons, List.getElem?_set, h.mem_free i]
  split
  · next heq =>
    subst heq
    simp [hlt]
  · next hne => simp [Ne.symm hne]

theorem Valid.sweep (h : p.Valid) (seen : Nat → LaunchId → Option Outcome) : (p.sweep seen).2.Valid := by
  have hlisted : ∀ slot, slot ∈ (listed seen 0 p.slots).map (·.slot) ↔ ∃ context launch,
      p.slots[slot]? = some (.inFlight context launch) ∧ (seen slot launch).isSome = true := fun _ =>
    mem_map_slot_listed seen
  constructor
  · simp only [Pool.sweep, List.nodup_append, List.nodup_reverse, List.mem_reverse]
    refine ⟨(pairwise_listed seen p.slots 0).imp Nat.ne_of_lt, h.nodup, ?_⟩
    rintro slot hslot _ hfree rfl
    -- A slot that is listed was in flight, and so was not among the free ones.
    obtain ⟨context, launch, hin, -⟩ := (hlisted _).1 hslot
    rw [h.mem_free, hin] at hfree
    cases hfree
  · intro slot
    rw [slots_sweep]
    simp only [Pool.sweep, List.mem_append, List.mem_reverse, hlisted, h.mem_free]
    constructor
    · rintro (⟨context, launch, hin, hseen⟩ | hfree)
      · rw [hin, Option.map_some, emptied_of_seen hseen]
      · rw [hfree]
        rfl
    · intro hfree
      obtain ⟨s, hs, hempty⟩ := Option.map_eq_some_iff.1 hfree
      rcases (emptied_eq_free _).1 hempty with hsome | rfl
      · cases s with
        | free => exact .inr hs
        | reserved => cases hsome
        | inFlight context launch => exact .inl ⟨context, launch, hs, by simpa [collected?] using hsome⟩
      · exact .inr hs

theorem Valid.poll (h : p.Valid) (outcome? : LaunchId → Option Outcome) : (p.poll outcome?).2.Valid :=
  h.sweep _

/-! ## Handing out slots -/

/-- **A slot is handed out exactly where one is free**, and then it is one of the free ones. -/
theorem Valid.acquire_iff (h : p.Valid) : (∃ slot p', p.acquire = .ok (slot, p')) ↔ .free ∈ p.slots := by
  constructor
  · rintro ⟨slot, p', hp⟩
    obtain ⟨rest, hfree, -⟩ := acquire_eq_ok hp
    exact List.mem_of_getElem? ((h.mem_free slot).1 (by simp [hfree]))
  · intro hmem
    obtain ⟨slot, hslot⟩ := List.getElem?_of_mem hmem
    rw [← h.mem_free] at hslot
    unfold Pool.acquire
    split
    · next hnil => simp [hnil] at hslot
    · exact ⟨_, _, rfl⟩

theorem Valid.acquired (h : p.Valid) {slot : Nat} {p' : Pool} (hp : p.acquire = .ok (slot, p')) :
    p.slots[slot]? = some .free ∧ p'.slots = p.slots.set slot .reserved := by
  obtain ⟨rest, hfree, rfl⟩ := acquire_eq_ok hp
  exact ⟨(h.mem_free slot).1 (by simp [hfree]), rfl⟩

theorem Valid.release_acquired (h : p.Valid) {slot : Nat} {p' : Pool} (hp : p.acquire = .ok (slot, p'))
    (isComplete : LaunchId → Bool) : p'.release isComplete slot = .ok p := by
  obtain ⟨rest, hfree, rfl⟩ := acquire_eq_ok hp
  have hslot : p.slots[slot]? = some .free := (h.mem_free slot).1 (by simp [hfree])
  obtain ⟨hlt, hget⟩ := List.getElem?_eq_some_iff.1 hslot
  have hback : p.slots.set slot .free = p.slots := by
    rw [← hget, List.set_getElem_self]
  simp only [Pool.release, List.getElem?_set_self hlt, giveBack, List.set_set, hback, ← hfree]

theorem Valid.arm_acquired (h : p.Valid) {slot : Nat} {p' : Pool} (hp : p.acquire = .ok (slot, p'))
    (context : Context) (launch : LaunchId) :
    ∃ p'', p'.arm slot context launch = .ok p'' ∧ p''.Valid ∧
      p''.slots = p.slots.set slot (.inFlight context launch) := by
  have hslots := (h.acquired hp).2
  have hlt : slot < p.slots.length := (List.getElem?_eq_some_iff.1 (h.acquired hp).1).1
  have harm : p'.arm slot context launch =
      .ok { p' with slots := p'.slots.set slot (.inFlight context launch) } := by
    simp only [Pool.arm, hslots, List.getElem?_set_self hlt]
  refine ⟨_, harm, (h.acquire hp).arm harm, ?_⟩
  simp only [hslots, List.set_set]

end Pool

end AdaptiveLoops
