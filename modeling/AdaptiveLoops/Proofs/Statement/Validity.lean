/-
Validation accepts exactly the well-nested trees.

A check carries the nearest loop around a node alone, and forgets it between
siblings. As long as nothing was refused the loops around a node get smaller
on the way out, so the nearest one speaks for all of them, and a loop that
stands inside it stands inside every other (`checkBelow_finds`). What is
refused is the first node in pre-order that does not fit.
-/
import AdaptiveLoops.Proofs.Statement.Nesting
import AdaptiveLoops.Proofs.Statement.Positions

namespace AdaptiveLoops.Statement

namespace Position

/--
The node fits: its dimension is one of the space, pieces have a length, and
every loop around a loop, however far out, is over a smaller dimension.
-/
def Legal (rank : Nat) (p : Position) : Prop :=
  match p.node with
  | .loop dim _ _ => dim < rank ∧ ∀ outer ∈ p.loops, outer.1 < dim
  | .segments dim length _ => dim < rank ∧ length ≠ 0
  | _ => True

/-- What is wrong with a node, its dimension before its nesting and its length. -/
inductive Offends (rank : Nat) : Position → TreeFault → Prop where
  | loopOutside {above : List Statement} {dim : Nat} {policy : Policy} {body : List Statement}
      (hrank : rank ≤ dim) : Offends rank ⟨above, .loop dim policy body⟩ (.loopOutside dim rank)
  | loopNotInside {above : List Statement} {dim : Nat} {policy : Policy} {body : List Statement}
      {outer : Nat × Policy} (hrank : dim < rank) (hnearest : (above.filterMap loop?).head? = some outer)
      (houter : dim ≤ outer.1) : Offends rank ⟨above, .loop dim policy body⟩ (.loopNotInside dim outer.1)
  | segmentsOutside {above : List Statement} {dim : Nat} {length : UInt64} {body : List Statement}
      (hrank : rank ≤ dim) : Offends rank ⟨above, .segments dim length body⟩ (.segmentsOutside dim rank)
  | emptySegments {above : List Statement} {dim : Nat} {body : List Statement} (hrank : dim < rank) :
      Offends rank ⟨above, .segments dim 0 body⟩ .emptySegments

theorem Offends.not_legal {rank : Nat} {p : Position} {fault : TreeFault} (h : p.Offends rank fault) :
    ¬ p.Legal rank := by
  intro hlegal
  cases h with
  | loopOutside hrank => exact Nat.not_lt.2 hrank hlegal.1
  | loopNotInside hrank hnearest houter =>
    exact Nat.not_lt.2 houter (hlegal.2 _ (List.mem_of_mem_head? hnearest))
  | segmentsOutside hrank => exact Nat.not_lt.2 hrank hlegal.1
  | emptySegments hrank => exact hlegal.2 rfl

end Position

/-! ## What a check finds in a list of nodes -/

/-- Nothing, where all nodes fit, or else what is wrong with the first that does not. -/
inductive Finds (rank : Nat) : List Position → Except TreeFault Unit → Prop where
  | nothing {ps : List Position} (h : ∀ p ∈ ps, p.Legal rank) : Finds rank ps (.ok ())
  | fault {before after : List Position} {p : Position} {fault : TreeFault}
      (hbefore : ∀ q ∈ before, q.Legal rank) (hp : p.Offends rank fault) :
      Finds rank (before ++ p :: after) (.error fault)

namespace Finds

variable {rank : Nat} {ps qs : List Position} {p : Position} {found : Except TreeFault Unit} {fault : TreeFault}

theorem ok_iff : Finds rank ps (.ok ()) ↔ ∀ p ∈ ps, p.Legal rank := by
  constructor
  · intro h
    cases h with
    | nothing hall => exact hall
  · exact .nothing

theorem error_iff : Finds rank ps (.error fault) ↔ ∃ before p after, ps = before ++ p :: after ∧
    (∀ q ∈ before, q.Legal rank) ∧ p.Offends rank fault := by
  constructor
  · intro h
    cases h with
    | fault hbefore hp => exact ⟨_, _, _, rfl, hbefore, hp⟩
  · rintro ⟨before, p, after, rfl, hbefore, hp⟩
    exact .fault hbefore hp

theorem cons (hp : p.Legal rank) (h : Finds rank ps found) : Finds rank (p :: ps) found := by
  cases h with
  | nothing hall => exact .nothing (List.forall_mem_cons.2 ⟨hp, hall⟩)
  | @fault before after q f hbefore hq =>
    have hcons : ∀ r ∈ p :: before, r.Legal rank := List.forall_mem_cons.2 ⟨hp, hbefore⟩
    exact .fault hcons hq

theorem append (hps : ∀ p ∈ ps, p.Legal rank) (h : Finds rank qs found) : Finds rank (ps ++ qs) found := by
  induction ps with
  | nil => exact h
  | cons p ps ih =>
    rw [List.forall_mem_cons] at hps
    exact cons hps.1 (ih hps.2)

theorem append_error (h : Finds rank ps (.error fault)) (qs : List Position) :
    Finds rank (ps ++ qs) (.error fault) := by
  obtain ⟨before, p, after, rfl, hbefore, hp⟩ := error_iff.1 h
  rw [List.append_assoc]
  exact .fault hbefore hp

end Finds

/-! ## Checks -/

/-- The dimension of the nearest of the loops above. -/
def nearest? (above : List Statement) : Option Nat :=
  (above.filterMap loop?).head?.map (·.1)

/-- The loops above get smaller on the way out. -/
def Descending (above : List Statement) : Prop :=
  (above.filterMap loop?).Pairwise fun inner outer => outer.1 < inner.1

section

variable {rank dim : Nat} {above body : List Statement} {policy : Policy} {length : UInt64} {fault : TreeFault}

/-- Inside the nearest loop is inside all of them, where they get smaller on the way out. -/
theorem Descending.inside_iff (h : Descending above) :
    Inside (nearest? above) dim ↔ ∀ outer ∈ above.filterMap loop?, outer.1 < dim := by
  unfold Descending at h
  unfold nearest?
  cases hloops : above.filterMap loop? with
  | nil => simp [Inside]
  | cons inner loops =>
    rw [hloops, List.pairwise_cons] at h
    simp only [List.head?_cons, Option.map_some, inside_some, List.forall_mem_cons]
    exact ⟨fun hin => ⟨hin, fun outer houter => Nat.lt_trans (h.1 outer houter) hin⟩, fun hall => hall.1⟩

theorem Descending.loop (h : Descending above) (hlegal : Position.Legal rank ⟨above, .loop dim policy body⟩) :
    Descending (.loop dim policy body :: above) :=
  List.pairwise_cons.2 ⟨hlegal.2, h⟩

theorem Descending.checkLoop_iff (h : Descending above) :
    checkLoop rank (nearest? above) dim = .ok () ↔ Position.Legal rank ⟨above, .loop dim policy body⟩ := by
  rw [checkLoop_eq_ok, h.inside_iff]
  rfl

theorem offends_of_checkLoop (h : checkLoop rank (nearest? above) dim = .error fault) :
    Position.Offends rank ⟨above, .loop dim policy body⟩ fault := by
  unfold checkLoop nearest? at h
  split at h
  · next hrank =>
    cases h
    exact .loopOutside hrank
  · next hrank =>
    cases hnearest : (above.filterMap loop?).head? with
    | none =>
      rw [hnearest] at h
      cases h
    | some outer =>
      rw [hnearest] at h
      simp only [Option.map_some] at h
      split at h
      · next houter =>
        cases h
        exact .loopNotInside (Nat.not_le.1 hrank) hnearest houter
      · cases h

theorem checkSegments_iff :
    checkSegments rank dim length = .ok () ↔ Position.Legal rank ⟨above, .segments dim length body⟩ :=
  checkSegments_eq_ok

theorem offends_of_checkSegments (h : checkSegments rank dim length = .error fault) :
    Position.Offends rank ⟨above, .segments dim length body⟩ fault := by
  unfold checkSegments at h
  split at h
  · next hrank =>
    cases h
    exact .segmentsOutside hrank
  · next hrank =>
    split at h
    · next hlength =>
      cases h
      subst hlength
      exact .emptySegments (Nat.not_le.1 hrank)
    · cases h

end

mutual

/-- **A check finds the first node that does not fit**, and nothing where all do. -/
theorem checkBelow_finds (rank : Nat) : ∀ (s : Statement) (above : List Statement), Descending above →
    Finds rank (positionsBelow above s) (checkBelow rank (nearest? above) s)
  | .loop dim policy body, above, h => by
    simp only [positionsBelow, checkBelow]
    split
    · next fault hcheck =>
      have hnone : ∀ q ∈ ([] : List Position), q.Legal rank := by simp
      exact .fault hnone (offends_of_checkLoop hcheck)
    · next hcheck =>
      have hlegal : Position.Legal rank ⟨above, .loop dim policy body⟩ := h.checkLoop_iff.1 hcheck
      exact .cons hlegal (checkAllBelow_finds rank body _ (h.loop hlegal))
  | .kernel policy body, above, h =>
    .cons (show Position.Legal rank ⟨above, .kernel policy body⟩ from trivial)
      (checkAllBelow_finds rank body (.kernel policy body :: above) h)
  | .segments dim length body, above, h => by
    simp only [positionsBelow, checkBelow]
    split
    · next fault hcheck =>
      have hnone : ∀ q ∈ ([] : List Position), q.Legal rank := by simp
      exact .fault hnone (offends_of_checkSegments hcheck)
    · next hcheck =>
      have hlegal : Position.Legal rank ⟨above, .segments dim length body⟩ := checkSegments_iff.1 hcheck
      exact .cons hlegal (checkAllBelow_finds rank body (.segments dim length body :: above) h)
  | .barrier, above, _ => .nothing (by simp [positionsBelow, Position.Legal])
  | .call, above, _ => .nothing (by simp [positionsBelow, Position.Legal])

theorem checkAllBelow_finds (rank : Nat) : ∀ (ss : List Statement) (above : List Statement), Descending above →
    Finds rank (positionsOfAll above ss) (checkAllBelow rank (nearest? above) ss)
  | [], _, _ => .nothing (by simp [positionsOfAll])
  | s :: rest, above, h => by
    have hs := checkBelow_finds rank s above h
    simp only [positionsOfAll, checkAllBelow]
    split
    · next fault hcheck =>
      rw [hcheck] at hs
      exact hs.append_error _
    · next hcheck =>
      rw [hcheck] at hs
      exact .append (Finds.ok_iff.1 hs) (checkAllBelow_finds rank rest above h)

end

theorem check_finds (s : Statement) (rank : Nat) : Finds rank s.positions (s.check rank) :=
  checkBelow_finds rank s [] .nil

/--
**Validation accepts exactly the well-nested trees**: those where every node
fits, a loop being one that stands inside every loop around it. What is
refused is the first node in pre-order that does not fit, for what is wrong
with it.
-/
theorem validate_wellNested (s : Statement) (rank : Nat) :
    (s.validate rank = .ok () ↔ ∀ p ∈ s.positions, p.Legal rank) ∧
    ∀ e, s.validate rank = .error e → ∃ fault before p after, e = .invalidStatementTree fault ∧
      s.positions = before ++ p :: after ∧ (∀ q ∈ before, q.Legal rank) ∧ ¬ p.Legal rank ∧
      p.Offends rank fault := by
  have hfinds := check_finds s rank
  unfold validate
  cases hcheck : s.check rank with
  | ok _ =>
    rw [hcheck] at hfinds
    exact ⟨⟨fun _ => Finds.ok_iff.1 hfinds, fun _ => rfl⟩, fun _ h => (nomatch h)⟩
  | error fault =>
    rw [hcheck] at hfinds
    obtain ⟨before, p, after, hsplit, hbefore, hp⟩ := Finds.error_iff.1 hfinds
    refine ⟨⟨fun h => (nomatch h), fun hall => ?_⟩, fun e h => ?_⟩
    · have hmem : p ∈ s.positions := by simp [hsplit]
      exact absurd (hall p hmem) hp.not_legal
    · cases h
      exact ⟨fault, before, p, after, rfl, hsplit, hbefore, hp.not_legal, hp⟩

/-- Of two faults the one of the first node counts, though the other is nearer to the root. -/
example : (Statement.loop 0 .sequential [.kernel .sequential [.loop 0 .sequential [.call]],
    .segments 1 0 [.call]]).validate 2 = .error (.invalidStatementTree (.loopNotInside 0 0)) := rfl

end AdaptiveLoops.Statement
