/-
How the nodes of a statement tree stand inside one another: which loops may
leave an index behind (`Leaves`), which loops stand around every call
(`CallsBound`), whether any goes to several threads (`Threaded`) or over a
given dimension (`Over`), and a tree without its policies (`unlabelled`).

What validation adds is `leaves_inside`: below a loop, only loops over larger
dimensions leave anything behind.
-/
import AdaptiveLoops.Statement.Validation
import AdaptiveLoops.Walk

namespace AdaptiveLoops.Statement

/-! ## Labels -/

mutual

/-- The tree with the policy of every node replaced by the sequential one. -/
def unlabelled : Statement → Statement
  | .loop dim _ body => .loop dim .sequential (unlabelledAll body)
  | .kernel _ body => .kernel .sequential (unlabelledAll body)
  | .segments dim length body => .segments dim length (unlabelledAll body)
  | .barrier => .barrier
  | .call => .call

def unlabelledAll : List Statement → List Statement
  | [] => []
  | s :: rest => unlabelled s :: unlabelledAll rest

end

/-! ## Loops around calls -/

mutual

/-- Every call stands below a loop over each dimension of `rank`, those in `bound` being around the tree. -/
def CallsBound (rank : Nat) (bound : List Nat) : Statement → Prop
  | .loop dim _ body => CallsBoundAll rank (dim :: bound) body
  | .kernel _ body => CallsBoundAll rank bound body
  | .segments _ _ body => CallsBoundAll rank bound body
  | .barrier => True
  | .call => ∀ d < rank, d ∈ bound

def CallsBoundAll (rank : Nat) (bound : List Nat) : List Statement → Prop
  | [] => True
  | s :: rest => CallsBound rank bound s ∧ CallsBoundAll rank bound rest

end

/-! ## Loops on several threads -/

mutual

/-- Some loop of the tree goes to several threads. -/
def Threaded : Statement → Prop
  | .loop _ policy body => (Walker.grain? policy).isSome = true ∨ ThreadedAny body
  | .kernel _ body => ThreadedAny body
  | .segments _ _ body => ThreadedAny body
  | .barrier => False
  | .call => False

def ThreadedAny : List Statement → Prop
  | [] => False
  | s :: rest => Threaded s ∨ ThreadedAny rest

end

/-! ## Loops over one dimension -/

mutual

/-- Some loop or some pieces of the tree go over `dim`. -/
def Over (dim : Nat) : Statement → Prop
  | .loop d _ body => d = dim ∨ OverAny dim body
  | .kernel _ body => OverAny dim body
  | .segments d _ body => d = dim ∨ OverAny dim body
  | .barrier => False
  | .call => False

def OverAny (dim : Nat) : List Statement → Prop
  | [] => False
  | s :: rest => Over dim s ∨ OverAny dim rest

end

/-! ## Loops that leave their index behind -/

mutual

/--
A loop over `d` that runs in order, and on the caller's own frame: not below
a parallel loop nor, on the device, below pieces.
-/
def Leaves (onDevice : Bool) (d : Nat) : Statement → Prop
  | .loop dim policy body => Walker.grain? policy = none ∧ (dim = d ∨ LeavesAny onDevice d body)
  | .kernel _ body => LeavesAny onDevice d body
  | .segments _ _ body => onDevice = false ∧ LeavesAny onDevice d body
  | .barrier => False
  | .call => False

def LeavesAny (onDevice : Bool) (d : Nat) : List Statement → Prop
  | [] => False
  | s :: rest => Leaves onDevice d s ∨ LeavesAny onDevice d rest

end

/-! ## Validation, node by node -/

/-- A loop over `d` may stand inside the enclosing loop, if there is one. -/
def Inside (enclosing : Option Nat) (d : Nat) : Prop := ∀ e ∈ enclosing, e < d

theorem Inside.trans {enclosing : Option Nat} {d d' : Nat} (h : Inside enclosing d) (hd : d < d') :
    Inside enclosing d' := fun e he => Nat.lt_trans (h e he) hd

@[simp] theorem inside_some {e d : Nat} : Inside (some e) d ↔ e < d := by
  simp [Inside]

theorem validate_eq_ok {s : Statement} {rank : Nat} :
    s.validate rank = .ok () ↔ s.checkBelow rank none = .ok () := by
  unfold validate check
  cases s.checkBelow rank none with
  | error e =>
    constructor
    · intro h
      cases h
    · intro h
      cases h
  | ok _ => exact ⟨fun _ => rfl, fun _ => rfl⟩

theorem checkLoop_eq_ok {rank : Nat} {enclosing : Option Nat} {dim : Nat} :
    checkLoop rank enclosing dim = .ok () ↔ dim < rank ∧ Inside enclosing dim := by
  unfold checkLoop Inside
  split
  · simp; omega
  · cases enclosing with
    | none => simp; omega
    | some e =>
      simp only [Option.mem_some_iff, forall_eq']
      split <;> simp <;> omega

theorem checkSegments_eq_ok {rank dim : Nat} {length : UInt64} :
    checkSegments rank dim length = .ok () ↔ dim < rank ∧ length ≠ 0 := by
  unfold checkSegments
  split
  · simp; omega
  · split
    · next h => simp [h]
    · next h => simp [h]; omega

theorem checkBelow_loop {rank : Nat} {enclosing : Option Nat} {dim : Nat} {policy : Policy}
    {body : List Statement} : checkBelow rank enclosing (.loop dim policy body) = .ok () ↔
      (dim < rank ∧ Inside enclosing dim) ∧ checkAllBelow rank (some dim) body = .ok () := by
  rw [← checkLoop_eq_ok, checkBelow]
  split
  · next h => simp [h]
  · next h => simp [h]

theorem checkBelow_segments {rank : Nat} {enclosing : Option Nat} {dim : Nat} {length : UInt64}
    {body : List Statement} : checkBelow rank enclosing (.segments dim length body) = .ok () ↔
      (dim < rank ∧ length ≠ 0) ∧ checkAllBelow rank enclosing body = .ok () := by
  rw [← checkSegments_eq_ok, checkBelow]
  split
  · next h => simp [h]
  · next h => simp [h]

theorem checkAllBelow_cons {rank : Nat} {enclosing : Option Nat} {s : Statement}
    {rest : List Statement} : checkAllBelow rank enclosing (s :: rest) = .ok () ↔
      checkBelow rank enclosing s = .ok () ∧ checkAllBelow rank enclosing rest = .ok () := by
  rw [checkAllBelow]
  split
  · next h => simp [h]
  · next h => simp [h]

/-! ## What validation says of labels and of loops that leave an index -/

mutual

theorem checkBelow_unlabelled (rank : Nat) : ∀ (s : Statement) (enclosing : Option Nat),
    checkBelow rank enclosing s.unlabelled = checkBelow rank enclosing s
  | .loop dim _ body, enclosing => by
    simp only [unlabelled, checkBelow, checkAllBelow_unlabelled rank body]
  | .kernel _ body, enclosing => by
    simp only [unlabelled, checkBelow, checkAllBelow_unlabelled rank body]
  | .segments dim length body, enclosing => by
    simp only [unlabelled, checkBelow, checkAllBelow_unlabelled rank body]
  | .barrier, _ => rfl
  | .call, _ => rfl

theorem checkAllBelow_unlabelled (rank : Nat) : ∀ (ss : List Statement) (enclosing : Option Nat),
    checkAllBelow rank enclosing (unlabelledAll ss) = checkAllBelow rank enclosing ss
  | [], _ => rfl
  | s :: rest, enclosing => by
    simp only [unlabelledAll, checkAllBelow, checkBelow_unlabelled rank s,
      checkAllBelow_unlabelled rank rest]

end

theorem validate_unlabelled (s : Statement) (rank : Nat) : s.unlabelled.validate rank = s.validate rank := by
  rw [validate, validate, check, check, checkBelow_unlabelled]

mutual

theorem callsBound_unlabelled (rank : Nat) : ∀ (s : Statement) (bound : List Nat),
    s.unlabelled.CallsBound rank bound ↔ s.CallsBound rank bound
  | .loop dim _ body, bound => by
    simp only [unlabelled, CallsBound, callsBoundAll_unlabelled rank body]
  | .kernel _ body, bound => by
    simp only [unlabelled, CallsBound, callsBoundAll_unlabelled rank body]
  | .segments dim length body, bound => by
    simp only [unlabelled, CallsBound, callsBoundAll_unlabelled rank body]
  | .barrier, _ => Iff.rfl
  | .call, _ => Iff.rfl

theorem callsBoundAll_unlabelled (rank : Nat) : ∀ (ss : List Statement) (bound : List Nat),
    CallsBoundAll rank bound (unlabelledAll ss) ↔ CallsBoundAll rank bound ss
  | [], _ => Iff.rfl
  | s :: rest, bound => by
    simp only [unlabelledAll, CallsBoundAll, callsBound_unlabelled rank s,
      callsBoundAll_unlabelled rank rest]

end

mutual

/-- **A loop leaves only indices of larger dimensions behind**, where the tree is valid below it. -/
theorem leaves_inside {onDevice : Bool} {rank d : Nat} : ∀ {s : Statement} {enclosing : Option Nat},
    checkBelow rank enclosing s = .ok () → s.Leaves onDevice d → Inside enclosing d
  | .loop dim policy body, enclosing, hc, hl => by
    obtain ⟨⟨-, hin⟩, hbody⟩ := checkBelow_loop.1 hc
    simp only [Leaves] at hl
    rcases hl.2 with rfl | hl
    · exact hin
    · exact hin.trans (inside_some.1 (leavesAny_inside hbody hl))
  | .kernel _ body, enclosing, hc, hl => by
    simp only [checkBelow] at hc
    exact leavesAny_inside hc hl
  | .segments dim length body, enclosing, hc, hl => by
    simp only [Leaves] at hl
    exact leavesAny_inside (checkBelow_segments.1 hc).2 hl.2

theorem leavesAny_inside {onDevice : Bool} {rank d : Nat} :
    ∀ {ss : List Statement} {enclosing : Option Nat},
      checkAllBelow rank enclosing ss = .ok () → LeavesAny onDevice d ss → Inside enclosing d
  | s :: rest, enclosing, hc, hl => by
    obtain ⟨hs, hrest⟩ := checkAllBelow_cons.1 hc
    rcases hl with hl | hl
    · exact leaves_inside hs hl
    · exact leavesAny_inside hrest hl

end

end AdaptiveLoops.Statement
