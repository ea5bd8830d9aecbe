/-
What the variables of the environment do to a configuration.

`Field.reader?` says of each field which variable replaces it and how the
variable's text is read. The texts that can be read make a layer
(`environment`), and applying the variables lays it over the configuration:
all of it, or its part up to the first variable whose text cannot be read
(`applyAll_ends`). Which part that is, and what is refused, does not depend
on the configuration.
-/
import AdaptiveLoops.Config.Override
import AdaptiveLoops.Proofs.Config.Field
import Mathlib.Data.List.Forall2

namespace AdaptiveLoops.Config

/-- A variable of the environment, and how its text is read without the blanks around it. -/
structure Reader (α : Type) where
  name : String
  read : String → Except OverrideCause α

/-- The fields that the environment can replace, in the order of their variables. -/
def overridden : List Field :=
  [.poolCapacity, .warmup, .warmupSamples, .onPoolExhausted, .hostThreads, .model]

namespace Field

/-- The variable of a field, if it has one. -/
def reader? : (f : Field) → Option (Reader f.Value)
  | .poolCapacity => some ⟨"KERNPORT_POOL_CAPACITY", fun s => (Text.Numeral.parse s).mapError .numeral⟩
  | .warmup => some ⟨"KERNPORT_WARMUP", fun s => (Warmup.parse s).mapError .warmup⟩
  | .warmupSamples => some ⟨"KERNPORT_WARMUP_SAMPLES", fun s => (Text.Numeral.parse s).mapError .numeral⟩
  | .onPoolExhausted => some ⟨"KERNPORT_ON_POOL_EXHAUSTED", fun s => (Exhaustion.parse s).mapError .exhaustion⟩
  | .hostThreads =>
    some ⟨"KERNPORT_HOST_THREADS", fun s => ((Text.Numeral.parse s).mapError .numeral).map some⟩
  | .model => some ⟨"KERNPORT_MODEL", fun s => (ModelKind.parse s).mapError .model⟩
  | .deviceComputeUnits => none
  | .plugins => none

/-- The field's text can be read, if there is one. -/
def Readable (lookup : String → Option String) (f : Field) : Prop :=
  ∀ r ∈ f.reader?, ∀ text ∈ lookup r.name, ∃ v, r.read (Text.trim text) = .ok v

/-- The field's text cannot be read, and `e` says so: of which variable, with which text, and why. -/
def Refuses (lookup : String → Option String) (f : Field) (e : OverrideError) : Prop :=
  ∃ r ∈ f.reader?, e.name = r.name ∧ lookup r.name = some e.value ∧ r.read (Text.trim e.value) = .error e.cause

theorem Refuses.not_readable {lookup : String → Option String} {f : Field} {e : OverrideError}
    (h : f.Refuses lookup e) : ¬ f.Readable lookup := by
  obtain ⟨r, hr, -, htext, hread⟩ := h
  intro hreadable
  obtain ⟨v, hv⟩ := hreadable r hr _ htext
  rw [hread] at hv
  cases hv

end Field

/-- What the texts of the environment say, as far as they can be read. -/
def environment (lookup : String → Option String) : Layer := fun f =>
  f.reader?.bind fun r => (lookup r.name).bind fun text => (r.read (Text.trim text)).toOption

theorem environment_eq_none (lookup : String → Option String) {f : Field} (h : f ∉ overridden) :
    environment lookup f = none := by
  cases f <;> first | rfl | exact absurd (by decide) h

/-! ## One variable -/

/-- The variable replaces this one field, by what its text says. -/
def Sets (v : Variable) (f : Field) : Prop :=
  ∃ r ∈ f.reader?, r.name = v.name ∧ ∀ text c, v.set text c = (r.read text).map (f.set · c)

theorem overridable_sets : List.Forall₂ Sets overridable overridden := by
  have hthreads : Sets .hostThreads .hostThreads := by
    refine ⟨_, rfl, rfl, fun text c => ?_⟩
    simp only [Variable.hostThreads]
    cases Text.Numeral.parse text <;> rfl
  exact .cons ⟨_, rfl, rfl, fun _ _ => rfl⟩ (.cons ⟨_, rfl, rfl, fun _ _ => rfl⟩ (.cons ⟨_, rfl, rfl, fun _ _ => rfl⟩
    (.cons ⟨_, rfl, rfl, fun _ _ => rfl⟩ (.cons hthreads (.cons ⟨_, rfl, rfl, fun _ _ => rfl⟩ .nil)))))

/-- A variable is applied as its part of the environment, or it refuses its text. -/
theorem apply_cases (lookup : String → Option String) {v : Variable} {f : Field} (h : Sets v f) :
    (f.Readable lookup ∧ ∀ c, v.apply (lookup v.name) c = .ok (((environment lookup).on [f]).overlay c)) ∨
    ∃ e, f.Refuses lookup e ∧ ∀ c, v.apply (lookup v.name) c = .error e := by
  obtain ⟨r, hr, hname, hset⟩ := h
  have hreader : f.reader? = some r := hr
  rw [← hname]
  cases htext : lookup r.name with
  | none =>
    have hnone : environment lookup f = none := by simp [environment, hreader, htext]
    refine .inl ⟨?_, fun c => by rw [Layer.on_singleton_overlay_of_none hnone]; rfl⟩
    simp [Field.Readable, hreader, htext]
  | some text =>
    cases hread : r.read (Text.trim text) with
    | ok value =>
      have hsome : environment lookup f = some value := by simp [environment, hreader, htext, hread, Except.toOption]
      refine .inl ⟨by simp [Field.Readable, hreader, htext, hread], fun c => ?_⟩
      rw [Layer.on_singleton_overlay_of_some hsome, Variable.apply, hset, hread]
      rfl
    | error cause =>
      refine .inr ⟨⟨r.name, text, cause⟩, ⟨r, hr, rfl, htext, hread⟩, fun c => ?_⟩
      rw [Variable.apply, hset, hread, ← hname]
      rfl

/-! ## All variables -/

/-- What applying the variables of `fs` comes to: the layer that is laid over the configuration, and how it ends. -/
inductive Ends (lookup : String → Option String) (fs : List Field) : Layer → Except OverrideError Unit → Prop where
  | applied (hread : ∀ f ∈ fs, f.Readable lookup) : Ends lookup fs ((environment lookup).on fs) (.ok ())
  | refused (before after : List Field) {f : Field} {e : OverrideError} (hcut : fs = before ++ f :: after)
      (hread : ∀ g ∈ before, g.Readable lookup) (he : f.Refuses lookup e) :
      Ends lookup fs ((environment lookup).on before) (.error e)

theorem applyAll_ends {lookup : String → Option String} {vs : List Variable} {fs : List Field}
    (h : List.Forall₂ Sets vs fs) :
    ∃ l result, Ends lookup fs l result ∧ ∀ c, applyAll lookup vs c = (l.overlay c, result) := by
  induction h with
  | nil => exact ⟨_, _, .applied (by simp), fun c => by rw [Layer.on_nil_overlay]; rfl⟩
  | @cons v f vs fs hv _ ih =>
    rcases apply_cases lookup hv with ⟨hreadable, happly⟩ | ⟨e, hrefuses, happly⟩
    · obtain ⟨l, result, hends, hrest⟩ := ih
      have hstep : ∀ c,
          applyAll lookup (v :: vs) c = (l.overlay (((environment lookup).on [f]).overlay c), result) := by
        intro c
        rw [applyAll, happly, ← hrest]
      simp only [hstep]
      cases hends with
      | applied hread =>
        exact ⟨_, _, .applied (List.forall_mem_cons.2 ⟨hreadable, hread⟩), fun c => by rw [Layer.on_cons_overlay f fs]⟩
      | refused before after hcut hread he =>
        refine ⟨_, _, .refused (f :: before) after (by rw [hcut]; rfl) (List.forall_mem_cons.2 ⟨hreadable, hread⟩) he,
          fun c => by rw [Layer.on_cons_overlay f before]⟩
    · refine ⟨_, _, .refused [] fs rfl (by simp) hrefuses, fun c => ?_⟩
      rw [Layer.on_nil_overlay, applyAll, happly]

theorem applyOverrides_ends (lookup : String → Option String) : ∃ l result, Ends lookup overridden l result ∧
    ∀ c : Config, c.applyOverrides lookup = (l.overlay c, result) :=
  applyAll_ends overridable_sets

theorem applyOverrides_of_readable {lookup : String → Option String} (h : ∀ f ∈ overridden, f.Readable lookup)
    (c : Config) : c.applyOverrides lookup = ((environment lookup).overlay c, .ok ()) := by
  obtain ⟨l, result, hends, hall⟩ := applyOverrides_ends lookup
  rw [hall]
  cases hends with
  | applied _ => rw [Layer.on_eq_self fun _ hf => environment_eq_none lookup hf]
  | refused before after hcut _ he => exact absurd (h _ (by simp [hcut])) he.not_readable

theorem applyOverrides_eq_ok_iff {lookup : String → Option String} {c : Config} :
    (c.applyOverrides lookup).2 = .ok () ↔ ∀ f ∈ overridden, f.Readable lookup := by
  obtain ⟨l, result, hends, hall⟩ := applyOverrides_ends lookup
  rw [hall]
  cases hends with
  | applied hread => simpa using hread
  | refused before after hcut _ he =>
    simp only [reduceCtorEq, false_iff]
    exact fun hread => he.not_readable (hread _ (by simp [hcut]))

/--
**Variables are laid over a configuration in order, up to the first that
cannot be read.** All of them are applied exactly where every text that is
there can be read without its blanks, and then the fields whose variable has
a text hold what it says, and the others what they held. Otherwise the
refusal is that of the first variable in order whose text cannot be read, it
shows that text as it stands, and just the variables before it are applied.
The same variables change nothing a second time.
-/
theorem applyOverrides_overlays (lookup : String → Option String) (c : Config) :
    (overridden.map fun f => f.reader?.map (·.name)) =
      [some "KERNPORT_POOL_CAPACITY", some "KERNPORT_WARMUP", some "KERNPORT_WARMUP_SAMPLES",
        some "KERNPORT_ON_POOL_EXHAUSTED", some "KERNPORT_HOST_THREADS", some "KERNPORT_MODEL"] ∧
    ((c.applyOverrides lookup).2 = .ok () ↔ ∀ f ∈ overridden, f.Readable lookup) ∧
    ((c.applyOverrides lookup).2 = .ok () → ∀ f : Field,
      f.get (c.applyOverrides lookup).1 = (environment lookup f).getD (f.get c)) ∧
    (∀ e, (c.applyOverrides lookup).2 = .error e → ∃ before f after, overridden = before ++ f :: after ∧
      (∀ g ∈ before, g.Readable lookup) ∧ f.Refuses lookup e ∧
      e.message = "invalid value `" ++ e.value ++ "` for " ++ e.name ++ ": " ++ e.cause.message ∧
      ∀ g : Field, g.get (c.applyOverrides lookup).1 =
        if g ∈ before then (environment lookup g).getD (g.get c) else g.get c) ∧
    (c.applyOverrides lookup).1.deviceComputeUnits = c.deviceComputeUnits ∧
    (c.applyOverrides lookup).1.plugins = c.plugins ∧
    (c.applyOverrides lookup).1.applyOverrides lookup = c.applyOverrides lookup := by
  obtain ⟨l, result, hends, hall⟩ := applyOverrides_ends lookup
  have hkept : ∀ f, f ∉ overridden → f.get (l.overlay c) = f.get c := by
    intro f hf
    have hnone : l f = none := by
      cases hends <;> simp [Layer.on, environment_eq_none lookup hf]
    rw [Layer.get_overlay, hnone]
    rfl
  refine ⟨rfl, applyOverrides_eq_ok_iff, ?_⟩
  simp only [hall, Layer.overlay_overlay]
  refine ⟨?_, ?_, hkept .deviceComputeUnits (by decide), hkept .plugins (by decide), trivial⟩
  · intro hok f
    cases hends with
    | applied _ => rw [Layer.on_eq_self fun _ hf => environment_eq_none lookup hf, Layer.get_overlay]
    | refused => cases hok
  · intro e hrefused
    cases hends with
    | applied => cases hrefused
    | @refused before after f _ hcut hread he =>
      obtain rfl := Except.error.inj hrefused
      refine ⟨before, f, after, hcut, hread, he, rfl, fun g => ?_⟩
      rw [Layer.get_overlay, Layer.on]
      split <;> rfl

/--
Zeros, a sign and blanks around the first text are read, and the third text
is a number past 64 bits: the first two are applied, and what follows is not.
-/
theorem applyOverrides_overlays_upTo :
    let lookup : String → Option String := fun name =>
      if name = "KERNPORT_POOL_CAPACITY" then some " +08 "
      else if name = "KERNPORT_WARMUP" then some "round-robin"
      else if name = "KERNPORT_WARMUP_SAMPLES" then some " 18446744073709551616"
      else if name = "KERNPORT_MODEL" then some "fixed:1" else none
    (∃ before f after, overridden = before ++ f :: after ∧ (∀ g ∈ before, g.Readable lookup) ∧
      f.Refuses lookup ⟨"KERNPORT_WARMUP_SAMPLES", " 18446744073709551616", .numeral .tooLarge⟩) ∧
    (default.applyOverrides lookup).1 = { default with poolCapacity := 8, warmup := .roundRobin } := by
  intro lookup
  have hrun : default.applyOverrides lookup = ({ default with poolCapacity := 8, warmup := .roundRobin },
      .error ⟨"KERNPORT_WARMUP_SAMPLES", " 18446744073709551616", .numeral .tooLarge⟩) := by
    rfl
  obtain ⟨-, -, -, hrefused, -⟩ := applyOverrides_overlays lookup default
  obtain ⟨before, f, after, hcut, hread, he, -⟩ := hrefused _ (congrArg Prod.snd hrun)
  exact ⟨⟨before, f, after, hcut, hread, he⟩, congrArg Prod.fst hrun⟩

end AdaptiveLoops.Config
