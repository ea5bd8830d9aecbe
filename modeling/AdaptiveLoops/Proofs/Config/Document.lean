/-
Configurations in documents, field by field.

Every field has a name and a form of its own in a document, and is read back
from that form (`decode?_encode`). A document with some of a configuration's
fields, in whatever order, reads as the defaults with these fields laid over
them (`ofDocument?_part`), so that the one with all of them gives the
configuration back. One key that names no field spoils a document
(`setFields?_of_not_name`).
-/
import AdaptiveLoops.Config.Document
import AdaptiveLoops.Proofs.Config.Field
import AdaptiveLoops.Proofs.Model.Kind

namespace AdaptiveLoops.Config

open AdaptiveLoops (Document)

/-! ## Fields -/

namespace Field

def all : List Field :=
  [.poolCapacity, .warmupSamples, .warmup, .onPoolExhausted, .hostThreads, .deviceComputeUnits, .model, .plugins]

theorem mem_all (f : Field) : f ∈ all := by
  cases f <;> decide

/-- The key of a field. -/
def name : Field → String
  | .poolCapacity => "pool_capacity"
  | .warmupSamples => "warmup_samples"
  | .warmup => "warmup"
  | .onPoolExhausted => "on_pool_exhausted"
  | .hostThreads => "host_threads"
  | .deviceComputeUnits => "device_compute_units"
  | .model => "model"
  | .plugins => "plugins"

/-- What stands behind the key. -/
def encode : (f : Field) → f.Value → Document
  | .poolCapacity, n => .word n
  | .warmupSamples, n => .word n
  | .warmup, w => .text w.text
  | .onPoolExhausted, e => .text e.text
  | .hostThreads, n => .ofOption .word n
  | .deviceComputeUnits, n => .ofOption .word n
  | .model, m => .text m.text
  | .plugins, b => .bool b

def decode? : (f : Field) → Document → Option f.Value
  | .poolCapacity, d => d.word?
  | .warmupSamples, d => d.word?
  | .warmup, d => warmupOfDocument? d
  | .onPoolExhausted, d => exhaustionOfDocument? d
  | .hostThreads, d => d.optional? (·.word?)
  | .deviceComputeUnits, d => d.optional? (·.word?)
  | .model, d => modelOfDocument? d
  | .plugins, d => d.bool?

end Field

theorem optional?_ofOption_word (n : Option UInt64) :
    (Document.ofOption Document.word n).optional? (·.word?) = some n := by
  cases n with
  | none => rfl
  | some n =>
    show ((Document.word n).word?).map some = some (some n)
    rw [Document.word?_word]
    rfl

theorem modelOfDocument?_text (m : ModelKind) : modelOfDocument? (.text m.text) = some m := by
  show (ModelKind.parse m.text).toOption = some m
  rw [ModelKind.parse_text]
  rfl

theorem modelOfDocument?_eq_some_iff {d : Document} {m : ModelKind} :
    modelOfDocument? d = some m ↔ ∃ s, d = .text s ∧ ModelKind.parse s = .ok m := by
  rw [modelOfDocument?, Option.bind_eq_some_iff]
  refine exists_congr fun s => and_congr ?_ ?_
  · cases d <;> simp [Document.text?]
  · cases ModelKind.parse s <;> simp [Except.toOption]

namespace Field

theorem decode?_encode (f : Field) (v : f.Value) : f.decode? (f.encode v) = some v := by
  cases f with
  | poolCapacity => exact Document.word?_word v
  | warmupSamples => exact Document.word?_word v
  | warmup => cases v <;> rfl
  | onPoolExhausted => cases v <;> rfl
  | hostThreads => exact optional?_ofOption_word v
  | deviceComputeUnits => exact optional?_ofOption_word v
  | model => exact modelOfDocument?_text v
  | plugins => rfl

end Field

theorem setField?_name (c : Config) (f : Field) (d : Document) :
    c.setField? f.name d = (f.decode? d).map (f.set · c) := by
  cases f <;> rfl

theorem setField?_of_not_name (c : Config) {key : String} (h : ∀ f : Field, f.name ≠ key) (d : Document) :
    c.setField? key d = none := by
  have hkey : ∀ f : Field, key ≠ f.name := fun f => (h f).symm
  -- One test for each field.
  calc c.setField? key d
    _ = _ := if_neg (hkey .poolCapacity)
    _ = _ := if_neg (hkey .warmupSamples)
    _ = _ := if_neg (hkey .warmup)
    _ = _ := if_neg (hkey .onPoolExhausted)
    _ = _ := if_neg (hkey .hostThreads)
    _ = _ := if_neg (hkey .deviceComputeUnits)
    _ = _ := if_neg (hkey .model)
    _ = none := if_neg (hkey .plugins)

/-! ## Documents -/

/-- The document with the given fields of a configuration. -/
def part (c : Config) (fs : List Field) : Document :=
  .record (fs.map fun f => (f.name, f.encode (f.get c)))

theorem document_eq_part (c : Config) : c.document = c.part Field.all := rfl

theorem setFields?_part (c : Config) : ∀ (fs : List Field) (d : Config),
    setFields? d (fs.map fun f => (f.name, f.encode (f.get c))) = some (((Layer.of c).on fs).overlay d)
  | [], d => by rw [Layer.on_nil_overlay]; rfl
  | f :: fs, d => by
    rw [Layer.on_cons_overlay, Layer.on_singleton_overlay_of_some rfl, List.map_cons, setFields?, setField?_name,
      Field.decode?_encode]
    exact setFields?_part c fs _

theorem ofDocument?_part (c : Config) (fs : List Field) :
    ofDocument? (c.part fs) = some (((Layer.of c).on fs).overlay default) :=
  setFields?_part c fs default

theorem setFields?_of_not_name {key : String} (h : ∀ f : Field, f.name ≠ key) (d : Document)
    (after : List (String × Document)) : ∀ (before : List (String × Document)) (c : Config),
      setFields? c (before ++ (key, d) :: after) = none
  | [], c => by rw [List.nil_append, setFields?, setField?_of_not_name c h]; rfl
  | (other, value) :: before, c => by
    rw [List.cons_append, setFields?]
    cases c.setField? other value with
    | none => rfl
    | some c => exact setFields?_of_not_name h d after before c

/--
**Documents and configurations are each other's inverse, field by field.** A
configuration is read back from its document, and a document with some of
its fields, in whatever order, gives the defaults with just these fields
replaced. A document with a key that names no field is refused, whatever
else it has. The model goes through its text: every kind is read back from
what it is written as, and a text is read as a fixed index or as the mean
time exactly where, without its blanks, it is `fixed:` and a decimal text of
the index, or `mean-time` in letters of either case.
-/
theorem ofDocument?_overlays (c : Config) :
    ofDocument? c.document = some c ∧ c.document = c.part Field.all ∧
    (∀ fs : List Field, fs.Nodup → ∃ read, ofDocument? (c.part fs) = some read ∧
      ∀ f : Field, f.get read = if f ∈ fs then f.get c else f.get default) ∧
    (∀ before key d after, (∀ f : Field, f.name ≠ key) → ofDocument? (.record (before ++ (key, d) :: after)) = none) ∧
    (∀ d k, Field.model.decode? d = some k ↔ ∃ s, d = .text s ∧ ModelKind.parse s = .ok k) ∧
    (∀ k, Field.model.encode k = .text (ModelKind.text k)) ∧
    (∀ k, ModelKind.parse (ModelKind.text k) = .ok k) ∧
    (∀ s n, ModelKind.parse s = .ok (.fixed n) ↔ ∃ raw, Text.Trims s ("fixed:" ++ raw) ∧ Text.Numeral.Denotes raw n) ∧
    (∀ s, ModelKind.parse s = .ok .meanTime ↔ ∃ word, Text.Trims s word ∧ Text.Spells word "mean-time") := by
  refine ⟨?_, c.document_eq_part, fun fs _ => ⟨_, c.ofDocument?_part fs, fun f => ?_⟩,
    fun before _ d after h => setFields?_of_not_name h d after before default, fun _ _ => modelOfDocument?_eq_some_iff,
    fun _ => rfl, ModelKind.parse_text, fun s n => ?_, fun s => ?_⟩
  · rw [document_eq_part, ofDocument?_part]
    refine congrArg some (Field.ext_get fun f => ?_)
    rw [Layer.get_overlay, Layer.on, if_pos f.mem_all]
    rfl
  · rw [Layer.get_overlay, Layer.on]
    split <;> rfl
  · rw [ModelKind.parse_eq_ok_iff]
    constructor
    · rintro ⟨_, htrims, hnames⟩
      cases hnames with
      | fixed hraw => exact ⟨_, htrims, hraw⟩
    · rintro ⟨raw, htrims, hraw⟩
      exact ⟨_, htrims, .fixed hraw⟩
  · rw [ModelKind.parse_eq_ok_iff]
    constructor
    · rintro ⟨_, htrims, hnames⟩
      cases hnames with
      | meanTime hword => exact ⟨_, htrims, hword⟩
    · rintro ⟨word, htrims, hword⟩
      exact ⟨_, htrims, .meanTime hword⟩

/-- Two fields of three that are not the defaults, the later one first, and a key that is not quite a field's. -/
theorem ofDocument?_overlays_partial :
    let c : Config := { default with poolCapacity := 4, model := .fixed 0, plugins := false }
    ofDocument? (c.part [.model, .poolCapacity]) = some { default with poolCapacity := 4, model := .fixed 0 } ∧
    (∀ f : Field, f.name ≠ "pool_size") ∧
    ofDocument? (.record [("pool_size", .word 3), ("plugins", .bool true)]) = none ∧
    (∃ raw, Text.Trims "\u2003fixed:+00\n" ("fixed:" ++ raw) ∧ Text.Numeral.Denotes raw 0) ∧
    ∃ word, Text.Trims " Mean-TIME" word ∧ Text.Spells word "mean-time" := by
  intro c
  obtain ⟨-, -, hpart, hunknown, -, -, -, hfixed, hmean⟩ := ofDocument?_overlays c
  obtain ⟨read, hread, hfields⟩ := hpart [.model, .poolCapacity] (by decide)
  have hkey : ∀ f : Field, f.name ≠ "pool_size" := by
    intro f
    cases f <;> decide
  refine ⟨?_, hkey, hunknown [] _ _ _ hkey, (hfixed _ _).1 rfl, (hmean _).1 rfl⟩
  rw [hread, Option.some.injEq]
  refine Field.ext_get fun f => ?_
  rw [hfields]
  cases f <;> rfl

end AdaptiveLoops.Config
