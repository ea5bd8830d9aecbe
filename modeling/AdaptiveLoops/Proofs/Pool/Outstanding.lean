/-
Outstanding launches keep their slots.

A slot that was armed holds its launch until the launch is complete, whatever
slots the calls are given, and then loses it to one act: it is released, or a
poll lists it (`Shared.after_held`). From then on the slot is free, and only
arming it again puts a launch into it (`Shared.held_of_after`). A poll may
look at all slots in one moment or take its time.
-/
import AdaptiveLoops.Proofs.Device.Steps
import AdaptiveLoops.Proofs.Pool.Run

namespace AdaptiveLoops

open Device (Stream LaunchId Outcome)

/-- What the stream does during a poll, and after how many of these events each slot is looked at. -/
structure Looks where
  events : List Device.Event
  looked : (slot : Nat) → Nat

namespace Looks

/-- What the poll sees of a launch in a slot. -/
def seen (l : Looks) (s : Stream) (slot : Nat) (id : LaunchId) : Option Outcome :=
  (s.run (l.events.take (l.looked slot))).outcome? id

/-- The stream when the poll is over. -/
def after (l : Looks) (s : Stream) : Stream :=
  s.run l.events

theorem outcome?_of_seen {l : Looks} {s : Stream} {slot : Nat} {id : LaunchId} {o : Outcome}
    (h : l.seen s slot id = some o) : (l.after s).outcome? id = some o := by
  have hrest := Stream.outcome?_run (l.events.drop (l.looked slot)) h
  rwa [← Stream.run_append, List.take_append_drop] at hrest

end Looks

namespace Pool

/-- A call, a poll during which the stream goes on, or an event of the stream. -/
inductive Act where
  | call (c : Call)
  | sweep (looks : Looks)
  | stream (e : Device.Event)

/-- The launches that an act hands out. -/
def Act.lists (s : Shared) : Act → List Collected
  | .call .poll => (s.pool.poll s.stream.outcome?).1
  | .sweep looks => (s.pool.sweep (looks.seen s.stream)).1
  | _ => []

namespace Shared

def after (s : Shared) : Act → Shared
  | .call c => s.step (.call c)
  | .sweep looks => ⟨(s.pool.sweep (looks.seen s.stream)).2, looks.after s.stream⟩
  | .stream e => s.step (.stream e)

def go (s : Shared) (acts : List Act) : Shared :=
  acts.foldl after s

/-- The slot is armed with a launch. -/
def Holds (s : Shared) (slot : Nat) (context : Context) (launch : LaunchId) : Prop :=
  s.pool.slots[slot]? = some (.inFlight context launch)

variable {s : Shared} {slot : Nat} {context : Context} {launch : LaunchId}

/-- A poll in one moment is a sweep during which nothing happens. -/
theorem after_poll (s : Shared) :
    s.after (.call .poll) = s.after (.sweep ⟨[], fun _ => 0⟩) ∧
      Act.lists s (.call .poll) = Act.lists s (.sweep ⟨[], fun _ => 0⟩) :=
  ⟨rfl, rfl⟩

theorem valid_after (h : s.pool.Valid) (act : Act) : (s.after act).pool.Valid := by
  cases act with
  | call c => exact h.call c
  | sweep looks => exact h.sweep _
  | stream e => exact h

theorem valid_go : ∀ (acts : List Act) {s : Shared}, s.pool.Valid → (s.go acts).pool.Valid
  | [], _, h => h
  | act :: acts, _, h => valid_go acts (valid_after h act)

theorem reaches_after (s : Shared) (act : Act) : s.stream.Reaches (s.after act).stream := by
  cases act with
  | call c => exact .refl _
  | sweep looks => exact Stream.reaches_run _ _
  | stream e => exact ⟨[e], rfl⟩

theorem reaches_go : ∀ (acts : List Act) (s : Shared), s.stream.Reaches (s.go acts).stream
  | [], _ => .refl _
  | act :: acts, s => (reaches_after s act).trans (reaches_go acts (s.after act))

/-! ## One act -/

theorem acquire_ne (h : s.pool.Valid) (hslot : s.Holds slot context launch) {slot' : Nat} {p : Pool}
    (hp : s.pool.acquire = .ok (slot', p)) : slot' ≠ slot := by
  rintro rfl
  have hfree := (h.acquired hp).1
  rw [Holds, hfree] at hslot
  cases hslot

theorem arm_held (hslot : s.Holds slot context launch) (context' : Context) (launch' : LaunchId) :
    s.pool.arm slot context' launch' = .error (.slotNotInFlight slot) := by
  rw [arm, hslot]

theorem release_held (hslot : s.Holds slot context launch) (isComplete : LaunchId → Bool) :
    s.pool.release isComplete slot =
      if isComplete launch = true then .ok (s.pool.giveBack slot) else .error (.slotBusy slot) := by
  rw [release, hslot]

/-- How a launch leaves its slot. -/
inductive Leaves (s : Shared) (slot : Nat) (context : Context) (launch : LaunchId) : Act → Prop where
  | released (hcomplete : s.stream.isComplete launch = true)
      (hanswer : (s.pool.call s.stream (.release slot)).2 = .ok .done) :
    Leaves s slot context launch (.call (.release slot))
  | listed {act : Act} {o : Outcome} (hlisted : ⟨slot, context, o⟩ ∈ act.lists s)
      (houtcome : (s.after act).stream.outcome? launch = some o) : Leaves s slot context launch act

/-- An act leaves a launch where it is, and does not hand it out. -/
def Stays (s : Shared) (slot : Nat) (context : Context) (launch : LaunchId) (act : Act) : Prop :=
  (s.after act).Holds slot context launch ∧ ∀ c ∈ act.lists s, c.slot ≠ slot

theorem sweep_held (hslot : s.Holds slot context launch) (looks : Looks) :
    s.Stays slot context launch (.sweep looks) ∨
      s.Leaves slot context launch (.sweep looks) ∧
        (s.after (.sweep looks)).pool.slots[slot]? = some .free := by
  have hafter : (s.after (.sweep looks)).pool.slots[slot]? =
      some (emptied (looks.seen s.stream slot) (.inFlight context launch)) := by
    rw [after, slots_sweep, hslot, Option.map_some]
  cases hseen : looks.seen s.stream slot launch with
  | none =>
    refine .inl ⟨?_, ?_⟩
    · rw [Holds, hafter, emptied_of_unseen]
      rintro _ _ ⟨⟩
      exact hseen
    · rintro c hc rfl
      obtain ⟨-, launch', hc', hsome⟩ := (mem_listed _).1 hc
      rw [Nat.sub_zero, hslot] at hc'
      cases hc'
      rw [hseen] at hsome
      cases hsome
  | some o =>
    refine .inr ⟨.listed ((mem_listed _).2 ⟨Nat.zero_le _, launch, hslot, hseen⟩) ?_, ?_⟩
    · exact Looks.outcome?_of_seen hseen
    · rw [hafter, emptied_of_seen (by rw [hseen]; rfl)]

theorem Holds.aside (hslot : s.Holds slot context launch) {c : Call} (hlists : Act.lists s (.call c) = [])
    (hsame : (s.pool.call s.stream c).1.slots[slot]? = s.pool.slots[slot]?) :
    s.Stays slot context launch (.call c) := by
  refine ⟨hsame.trans hslot, fun c' hc' => ?_⟩
  rw [hlists] at hc'
  cases hc'

theorem Holds.release (hslot : s.Holds slot context launch) :
    s.Stays slot context launch (.call (.release slot)) ∨
      s.Leaves slot context launch (.call (.release slot)) ∧
        (s.after (.call (.release slot))).pool.slots[slot]? = some .free := by
  have hlt : slot < s.pool.slots.length := (List.getElem?_eq_some_iff.1 hslot).1
  cases hcomplete : s.stream.isComplete launch with
  | false =>
    refine .inl (hslot.aside rfl ?_)
    simp only [call, release_held hslot, hcomplete, Bool.false_eq_true, if_false]
  | true =>
    refine .inr ⟨.released hcomplete ?_, ?_⟩
    · simp only [call, release_held hslot, hcomplete, if_true]
    · simp only [after, step, call, release_held hslot, hcomplete, if_true]
      exact List.getElem?_set_self hlt

/-- **A held slot keeps its launch, or loses it complete and is free**, whatever the act is. -/
theorem after_held (h : s.pool.Valid) (hslot : s.Holds slot context launch) (act : Act) :
    s.Stays slot context launch act ∨
      s.Leaves slot context launch act ∧ (s.after act).pool.slots[slot]? = some .free := by
  cases act with
  | stream e => exact .inl ⟨hslot, nofun⟩
  | sweep looks => exact sweep_held hslot looks
  | call c =>
    cases c with
    | acquire =>
      refine .inl (hslot.aside rfl ?_)
      simp only [call]
      split
      · rfl
      · next slot' p hp =>
        rw [(h.acquired hp).2, List.getElem?_set_ne (acquire_ne h hslot hp)]
    | arm slot' context' launch' =>
      refine .inl (hslot.aside rfl ?_)
      simp only [call]
      split
      · rfl
      · next p hp =>
        obtain ⟨hreserved, rfl⟩ := arm_eq_ok hp
        refine List.getElem?_set_ne ?_
        rintro rfl
        rw [hslot] at hreserved
        cases hreserved
    | tryComplete slot' => exact .inl (hslot.aside rfl rfl)
    | release slot' =>
      by_cases heq : slot' = slot
      · subst heq
        exact hslot.release
      · refine .inl (hslot.aside rfl ?_)
        simp only [call]
        split
        · rfl
        · next p hp =>
          obtain ⟨-, rfl⟩ := release_eq_ok hp
          exact List.getElem?_set_ne heq
    | poll =>
      obtain ⟨hsame, hlists⟩ := after_poll s
      rcases sweep_held hslot ⟨[], fun _ => 0⟩ with ⟨hholds, hnone⟩ | ⟨hleaves, hfree⟩
      · exact .inl ⟨hsame ▸ hholds, hlists ▸ hnone⟩
      · cases hleaves with
        | listed hlisted houtcome =>
          exact .inr ⟨.listed (hlists ▸ hlisted) (hsame ▸ houtcome), hsame ▸ hfree⟩

theorem set_eq_some {slots : List Slot} {slot slot' : Nat} {new state : Slot}
    (h : (slots.set slot' new)[slot]? = some state) : slots[slot]? = some state ∨ slot' = slot ∧ new = state := by
  rw [List.getElem?_set] at h
  split at h
  · next heq =>
    split at h
    · exact .inr ⟨heq, Option.some.inj h⟩
    · cases h
  · exact .inl h

theorem held_of_sweep {looks : Looks} (hslot : (s.after (.sweep looks)).Holds slot context launch) :
    s.Holds slot context launch := by
  rw [Holds, after, slots_sweep, Option.map_eq_some_iff] at hslot
  obtain ⟨state, hstate, hempty⟩ := hslot
  rw [Holds, hstate]
  unfold emptied at hempty
  split at hempty
  · cases hempty
  · rw [hempty]

/-- **Only arming puts a launch into a slot.** -/
theorem held_of_after {act : Act} (hslot : (s.after act).Holds slot context launch) :
    s.Holds slot context launch ∨ act = .call (.arm slot context launch) := by
  cases act with
  | stream e => exact .inl hslot
  | sweep looks => exact .inl (held_of_sweep hslot)
  | call c =>
    cases c with
    | acquire =>
      simp only [Holds, after, step, call] at hslot
      split at hslot
      · exact .inl hslot
      · next slot' p hp =>
        obtain ⟨rest, -, rfl⟩ := acquire_eq_ok hp
        rcases set_eq_some hslot with hold | ⟨-, hnew⟩
        · exact .inl hold
        · cases hnew
    | arm slot' context' launch' =>
      simp only [Holds, after, step, call] at hslot
      split at hslot
      · exact .inl hslot
      · next p hp =>
        obtain ⟨-, rfl⟩ := arm_eq_ok hp
        refine (set_eq_some hslot).imp_right ?_
        rintro ⟨rfl, ⟨⟩⟩
        rfl
    | tryComplete slot' => exact .inl hslot
    | release slot' =>
      simp only [Holds, after, step, call] at hslot
      split at hslot
      · exact .inl hslot
      · next p hp =>
        obtain ⟨-, rfl⟩ := release_eq_ok hp
        rcases set_eq_some hslot with hold | ⟨-, hnew⟩
        · exact .inl hold
        · cases hnew
    | poll => exact .inl (held_of_sweep ((after_poll s).1 ▸ hslot))

/-! ## Polls -/

/--
What a poll does, by what it sees at each slot: it lists, in increasing order, the slots whose launches it sees
complete, each with its context and the outcome it sees, and it frees those slots and no others.
-/
structure Polls (s : Shared) (seen : (slot : Nat) → LaunchId → Option Outcome) (act : Act) : Prop where
  ordered : ((act.lists s).map (·.slot)).Pairwise (· < ·)
  lists : ∀ c, c ∈ act.lists s ↔ ∃ launch, s.Holds c.slot c.context launch ∧ seen c.slot launch = some c.outcome
  slots : ∀ slot, (s.after act).pool.slots[slot]? =
    if slot ∈ (act.lists s).map (·.slot) then some .free else s.pool.slots[slot]?

theorem polls_sweep (s : Shared) (looks : Looks) : s.Polls (looks.seen s.stream) (.sweep looks) where
  ordered := pairwise_listed _ _ _
  lists c := by simp only [Act.lists, sweep, mem_listed, Nat.zero_le, true_and, Nat.sub_zero, Holds]
  slots := slots_sweep_eq _ s.pool

theorem polls_poll (s : Shared) : s.Polls (fun _ => s.stream.outcome?) (.call .poll) where
  ordered := (s.polls_sweep ⟨[], fun _ => 0⟩).ordered
  lists := (s.polls_sweep ⟨[], fun _ => 0⟩).lists
  slots := (s.polls_sweep ⟨[], fun _ => 0⟩).slots

/-! ## Runs -/

/-- A launch stays in its slot, not handed out, up to the act it leaves by, and then the slot is free. -/
def StaysUntilComplete (slot : Nat) (context : Context) (launch : LaunchId) : Shared → List Act → Prop
  | _, [] => True
  | s, act :: acts =>
    s.Stays slot context launch act ∧ StaysUntilComplete slot context launch (s.after act) acts ∨
      s.Leaves slot context launch act ∧ (s.after act).pool.slots[slot]? = some .free

theorem stays_until_complete : ∀ (acts : List Act) {s : Shared}, s.pool.Valid →
    s.Holds slot context launch → StaysUntilComplete slot context launch s acts
  | [], _, _, _ => trivial
  | act :: acts, _, h, hslot =>
    (after_held h hslot act).imp_left fun hstays =>
      ⟨hstays, stays_until_complete acts (valid_after h act) hstays.1⟩

theorem Leaves.isComplete {act : Act} (h : s.Leaves slot context launch act) :
    (s.after act).stream.isComplete launch = true := by
  cases h with
  | released hcomplete _ => exact hcomplete
  | listed _ houtcome => rw [Stream.isComplete, houtcome]; rfl

theorem held_go : ∀ (acts : List Act) {s : Shared}, s.pool.Valid → s.Holds slot context launch →
    (s.go acts).stream.isComplete launch = false → (s.go acts).Holds slot context launch
  | [], _, _, hslot, _ => hslot
  | act :: acts, s, h, hslot, hopen => by
    rcases after_held h hslot act with ⟨hstays, -⟩ | ⟨hleaves, -⟩
    · exact held_go acts (valid_after h act) hstays hopen
    · obtain ⟨o, ho⟩ := Option.isSome_iff_exists.1 hleaves.isComplete
      have hdone := (reaches_go acts (s.after act)).outcome? ho
      have hgo : s.go (act :: acts) = (s.after act).go acts := rfl
      rw [hgo, Stream.isComplete, hdone] at hopen
      cases hopen

end Shared

/--
**An outstanding launch keeps its slot, and its completion is handed out once**, after any acts on a new
pool and before any others, with any slots and at any times.

A slot that is armed is handed out to nobody else, cannot be armed again, and can be released only when its
launch is complete. It holds the launch with its context as long as the launch is not complete, and then
loses it to one act, a release or a poll that lists it with its outcome; only arming puts a launch into a slot.

A poll lists what is complete (`Shared.Polls`), be it that it looks at all slots in one moment, or at one after
the other while the stream goes on.
-/
theorem go_keeps_outstanding (site : CallSite) (capacity : Nat) (stream : Stream) (acts : List Act) :
    let s := Shared.go ⟨ofCapacity site capacity, stream⟩ acts
    (∀ slot context launch, (s.pool.call s.stream (.arm slot context launch)).2 = .ok .done →
      (s.after (.call (.arm slot context launch))).Holds slot context launch) ∧
    (∀ slot context launch, s.Holds slot context launch →
      (∀ slot' p, s.pool.acquire = .ok (slot', p) → slot' ≠ slot) ∧
      (∀ context' launch', s.pool.arm slot context' launch' = .error (.slotNotInFlight slot)) ∧
      (s.pool.release s.stream.isComplete slot =
        if s.stream.isComplete launch = true then .ok (s.pool.giveBack slot) else .error (.slotBusy slot)) ∧
      ∀ later, Shared.StaysUntilComplete slot context launch s later ∧
        ((s.go later).stream.isComplete launch = false → (s.go later).Holds slot context launch)) ∧
    (∀ act slot context launch, (s.after act).Holds slot context launch →
      s.Holds slot context launch ∨ act = .call (.arm slot context launch)) ∧
    s.Polls (fun _ => s.stream.outcome?) (.call .poll) ∧
    ∀ looks : Looks, s.Polls (looks.seen s.stream) (.sweep looks) := by
  intro s
  have hvalid : s.pool.Valid :=
    Shared.valid_go acts (s := ⟨ofCapacity site capacity, stream⟩) (valid_ofCapacity site capacity)
  refine ⟨fun slot context launch harm => ?_, fun slot context launch hslot => ?_, fun act slot context launch =>
    Shared.held_of_after, s.polls_poll, s.polls_sweep⟩
  · simp only [call] at harm
    simp only [Shared.Holds, Shared.after, Shared.step, call]
    split at harm
    · cases harm
    · next p hp =>
      obtain ⟨hreserved, rfl⟩ := arm_eq_ok hp
      exact List.getElem?_set_self (List.getElem?_eq_some_iff.1 hreserved).1
  · exact ⟨fun slot' p => Shared.acquire_ne hvalid hslot, Shared.arm_held hslot, Shared.release_held hslot _,
      fun later => ⟨Shared.stays_until_complete later hvalid hslot, Shared.held_go later hvalid hslot⟩⟩

end Pool

end AdaptiveLoops
