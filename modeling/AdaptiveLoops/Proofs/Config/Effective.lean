/-
Which configuration a command runs with.

The flags are a layer over the environment, and the environment is one over
the defaults. All three together are checked, and before that the environment
and the defaults alone. The second check refuses nothing more than the first
would, except for a capacity of 0: that is the only value of the environment
which is refused and which a flag could replace (`effective_eq_ok_iff`).
-/
import AdaptiveLoops.Config.Effective
import AdaptiveLoops.Proofs.Config.Override

namespace AdaptiveLoops

/-- What the flags of a command say. -/
def ConfigFlags.layer (flags : ConfigFlags) : Config.Layer
  | .poolCapacity => flags.poolCapacity
  | .warmup => flags.warmup
  | _ => none

namespace Config

/-! ## Valid configurations -/

theorem validate_eq_ok_iff {c : Config} : c.validate = .ok () ↔
    c.poolCapacity ≠ 0 ∧ c.hostThreads ≠ some 0 ∧ c.deviceComputeUnits ≠ some 0 := by
  have hcheck : c.validate = .ok () ↔ c.check = .ok () := by
    rw [validate]
    cases c.check <;> simp [Except.mapError]
  rw [hcheck, check]
  split
  · next hpool => simp [hpool]
  · next hpool =>
    split
    · next hthreads => simp [hthreads]
    · next hthreads => split <;> simp [*]

theorem validate_of_no_capacity {c : Config} (h : c.poolCapacity = 0) :
    c.validate = .error (.config .noPoolCapacity) := by
  rw [validate, check, if_pos h]
  rfl

theorem validate_congr {c d : Config} (hc : c.poolCapacity ≠ 0) (hd : d.poolCapacity ≠ 0)
    (hthreads : c.hostThreads = d.hostThreads) (hunits : c.deviceComputeUnits = d.deviceComputeUnits) :
    c.validate = d.validate := by
  rw [validate, validate, check, check, if_neg hc, if_neg hd, hthreads, hunits]

/-! ## The layers of a command -/

section
variable {lookup : String → Option String} {flags : ConfigFlags}

/-- The defaults with the environment over them. -/
def fromEnvironment (lookup : String → Option String) : Config := (environment lookup).overlay default

/-- The defaults with the environment over them, and with the flags over both. -/
def merged (lookup : String → Option String) (flags : ConfigFlags) : Config :=
  flags.layer.overlay (fromEnvironment lookup)

theorem applyFlags_fromEnvironment : (fromEnvironment lookup).applyFlags flags = merged lookup flags := rfl

/-- What the environment leaves has to be valid by itself. -/
theorem load_of_readable (h : ∀ f ∈ overridden, f.Readable lookup) : load lookup =
    match (fromEnvironment lookup).validate with
    | .error e => .error (.invalidEnvironment e)
    | .ok () => .ok (fromEnvironment lookup) := by
  rw [load, applyOverrides_of_readable h]
  rfl

theorem effective_of_invalid (h : ∀ f ∈ overridden, f.Readable lookup) {e : LoopError}
    (hinvalid : (fromEnvironment lookup).validate = .error e) :
    effective lookup flags = .error (.invalidEnvironment e) := by
  rw [effective, load_of_readable h, hinvalid]

theorem effective_of_valid (h : ∀ f ∈ overridden, f.Readable lookup)
    (hvalid : (fromEnvironment lookup).validate = .ok ()) :
    effective lookup flags =
      match (merged lookup flags).validate with
      | .error e => .error (.invalidFlags e)
      | .ok () => .ok (merged lookup flags) := by
  rw [effective, load_of_readable h, hvalid]
  rfl

theorem capacity_fromEnvironment : (fromEnvironment lookup).poolCapacity = 0 ↔
    environment lookup .poolCapacity = some (0 : UInt64) := by
  have hdefault : (64 : UInt64) ≠ 0 := by decide
  have hget : (fromEnvironment lookup).poolCapacity = 0 ↔
      environment lookup .poolCapacity = some (0 : UInt64) ∨
        environment lookup .poolCapacity = none ∧ (64 : UInt64) = 0 :=
    Option.getD_eq_iff
  rw [hget]
  simp only [hdefault, and_false, or_false]

theorem effective_of_no_capacity (h : ∀ f ∈ overridden, f.Readable lookup)
    (hzero : environment lookup .poolCapacity = some (0 : UInt64)) :
    effective lookup flags = .error (.invalidEnvironment (.config .noPoolCapacity)) :=
  effective_of_invalid h (validate_of_no_capacity (capacity_fromEnvironment.2 hzero))

/-- The flags leave the numbers of threads and units as they are. -/
theorem validate_fromEnvironment (hmerged : (merged lookup flags).validate = .ok ())
    (hzero : environment lookup .poolCapacity ≠ some (0 : UInt64)) : (fromEnvironment lookup).validate = .ok () := by
  rw [← hmerged]
  exact validate_congr (mt capacity_fromEnvironment.1 hzero) (validate_eq_ok_iff.1 hmerged).1 rfl rfl

theorem effective_eq_ok_iff (h : ∀ f ∈ overridden, f.Readable lookup) {c : Config} : effective lookup flags = .ok c ↔
    c = merged lookup flags ∧ c.validate = .ok () ∧ environment lookup .poolCapacity ≠ some (0 : UInt64) := by
  constructor
  · intro hok
    have hzero : environment lookup .poolCapacity ≠ some (0 : UInt64) := by
      intro hzero
      rw [effective_of_no_capacity h hzero] at hok
      cases hok
    cases hvalid : (fromEnvironment lookup).validate with
    | error e =>
      rw [effective_of_invalid h hvalid] at hok
      cases hok
    | ok =>
      rw [effective_of_valid h hvalid] at hok
      cases hmerged : (merged lookup flags).validate with
      | error e =>
        rw [hmerged] at hok
        cases hok
      | ok =>
        rw [hmerged] at hok
        obtain rfl := Except.ok.inj hok
        exact ⟨rfl, hmerged, hzero⟩
  · rintro ⟨rfl, hmerged, hzero⟩
    rw [effective_of_valid h (validate_fromEnvironment hmerged hzero), hmerged]

/-- Two environments that differ only where a flag replaces them give one configuration. -/
theorem merged_congr {other : String → Option String}
    (hsame : ∀ f, flags.layer f = none → environment other f = environment lookup f) :
    merged other flags = merged lookup flags := by
  refine Field.ext_get fun f => ?_
  rw [merged, merged, Layer.get_overlay, Layer.get_overlay, fromEnvironment, fromEnvironment, Layer.get_overlay,
    Layer.get_overlay]
  cases hflag : flags.layer f with
  | some v => rfl
  | none => rw [hsame f hflag]

theorem effective_congr {other : String → Option String} (h : ∀ f ∈ overridden, f.Readable lookup)
    (hother : ∀ f ∈ overridden, f.Readable other)
    (hsame : ∀ f, flags.layer f = none → environment other f = environment lookup f)
    (hzero : environment lookup .poolCapacity ≠ some (0 : UInt64))
    (hotherZero : environment other .poolCapacity ≠ some (0 : UInt64)) :
    effective other flags = effective lookup flags := by
  have hthreads : (fromEnvironment other).hostThreads = (fromEnvironment lookup).hostThreads :=
    congrArg (·.getD none) (hsame .hostThreads rfl)
  have hvalid : (fromEnvironment other).validate = (fromEnvironment lookup).validate :=
    validate_congr (mt capacity_fromEnvironment.1 hotherZero) (mt capacity_fromEnvironment.1 hzero) hthreads rfl
  rw [effective, effective, load_of_readable h, load_of_readable hother, hvalid]
  cases (fromEnvironment lookup).validate with
  | error e => rfl
  | ok => simp only [applyFlags_fromEnvironment, merged_congr hsame]

end

/--
**Flags are laid over the environment, and the environment over the
defaults.** Where the texts of the environment can be read, a command has a
configuration exactly where all three layers together are valid and the
environment does not ask for a capacity of 0, and then it is that one. A
capacity of 0 in the environment is refused before the flags are looked at.
Any other value of the environment that a flag replaces changes nothing: with
another text in its place the outcome is the same.
-/
theorem effective_merges {lookup : String → Option String} (h : ∀ f ∈ overridden, f.Readable lookup)
    (flags : ConfigFlags) :
    (∀ c, effective lookup flags = .ok c ↔ c = flags.layer.overlay ((environment lookup).overlay default) ∧
      c.validate = .ok () ∧ environment lookup .poolCapacity ≠ some (0 : UInt64)) ∧
    (environment lookup .poolCapacity = some (0 : UInt64) →
      effective lookup flags = .error (.invalidEnvironment (.config .noPoolCapacity))) ∧
    (∀ other : String → Option String, (∀ f ∈ overridden, f.Readable other) →
      (∀ f, flags.layer f = none → ∀ r ∈ f.reader?, other r.name = lookup r.name) →
      environment lookup .poolCapacity ≠ some (0 : UInt64) → environment other .poolCapacity ≠ some (0 : UInt64) →
      effective other flags = effective lookup flags) := by
  refine ⟨fun c => effective_eq_ok_iff h, effective_of_no_capacity h, fun other hother hsame hzero hotherZero => ?_⟩
  refine effective_congr h hother (fun f hflag => ?_) hzero hotherZero
  rw [environment, environment]
  cases hreader : f.reader? with
  | none => rfl
  | some r => rw [Option.bind_some, Option.bind_some, hsame f hflag r hreader]

/-- Two capacities that a flag replaces, and a word that it leaves. -/
theorem effective_merges_replaced :
    let lookup : String → Option String := fun name =>
      if name = "KERNPORT_POOL_CAPACITY" then some "8"
      else if name = "KERNPORT_WARMUP" then some "round-robin" else none
    let other : String → Option String := fun name =>
      if name = "KERNPORT_POOL_CAPACITY" then some " +16"
      else if name = "KERNPORT_WARMUP" then some "round-robin" else none
    (∀ f ∈ overridden, f.Readable lookup) ∧ (∀ f ∈ overridden, f.Readable other) ∧
    effective lookup ⟨some 4, none⟩ = .ok { default with poolCapacity := 4, warmup := .roundRobin } ∧
    effective other ⟨some 4, none⟩ = .ok { default with poolCapacity := 4, warmup := .roundRobin } := by
  intro lookup other
  have hread : ∀ f ∈ overridden, f.Readable lookup := (applyOverrides_eq_ok_iff (c := default)).1 rfl
  have hother : ∀ f ∈ overridden, f.Readable other := (applyOverrides_eq_ok_iff (c := default)).1 rfl
  have hzero : environment lookup .poolCapacity ≠ some (0 : UInt64) :=
    show some (8 : UInt64) ≠ some 0 by decide
  have hotherZero : environment other .poolCapacity ≠ some (0 : UInt64) :=
    show some (16 : UInt64) ≠ some 0 by decide
  obtain ⟨hok, -, hsame⟩ := effective_merges hread ⟨some 4, none⟩
  have hlookup := (hok { default with poolCapacity := 4, warmup := .roundRobin }).2 ⟨rfl, rfl, hzero⟩
  refine ⟨hread, hother, hlookup, (hsame other hother (fun f hflag r hr => ?_) hzero hotherZero).trans hlookup⟩
  -- Of the fields without a flag, none has the capacity's variable.
  cases f <;> cases hr <;> first | rfl | cases hflag

/-- A capacity of 0 in the environment makes a command fail also where a flag replaces it. -/
theorem effective_refuses_replaced_zero :
    let lookup : String → Option String := fun name => if name = "KERNPORT_POOL_CAPACITY" then some "0" else none
    let flags : ConfigFlags := ⟨some 4, none⟩
    (∀ f ∈ overridden, f.Readable lookup) ∧
    (flags.layer.overlay ((environment lookup).overlay default)).validate = .ok () ∧
    ¬ ∃ c, effective lookup flags = .ok c := by
  intro lookup flags
  have hrefused : effective lookup flags = .error (.invalidEnvironment (.config .noPoolCapacity)) := rfl
  refine ⟨(applyOverrides_eq_ok_iff (c := default)).1 rfl, rfl, ?_⟩
  rintro ⟨c, hc⟩
  rw [hrefused] at hc
  cases hc

end Config

end AdaptiveLoops
