/-
Models: what picks a candidate from past times.

A model picks one from the features of the loop and the number of launches
that each candidate still has outstanding, and is told the time of every
launch that ended well. `MeanTime` keeps a mean for each candidate and each
bucket of sizes: the first candidate that has neither a time in the bucket
nor an outstanding launch is tried, and once there is none, the candidate
with the smallest mean is picked. `Fixed` picks one index always.
-/
import AdaptiveLoops.Fault
import AdaptiveLoops.Features
import AdaptiveLoops.Memory
import AdaptiveLoops.RunningMean

namespace AdaptiveLoops

/-- The operations of a model whose state is an `α`. -/
class Model (α : Type) where
  name : α → String
  select : α → Features → (pending : List Nat) → Nat × α
  observe : α → Features → (candidate : Nat) → Duration → α
  samples : α → Nat

/-! ## Mean times -/

structure MeanTime where
  buckets : List (List Nat × List RunningMean)
  samples : Nat

namespace MeanTime

def empty : MeanTime := ⟨[], 0⟩

def entries (m : MeanTime) (bucket : List Nat) : List RunningMean :=
  (m.buckets.lookup bucket).getD []

/-- The entry of a candidate, or the empty one where none is kept. -/
def entry (entries : List RunningMean) (candidate : Nat) : RunningMean :=
  entries[candidate]?.getD .zero

def seen (entries : List RunningMean) (candidate : Nat) : Bool :=
  0 < (entry entries candidate).count

/-- The better of the best candidate so far and `candidate`. -/
def better (entries : List RunningMean) (best : Option Nat) (candidate : Nat) : Option Nat :=
  if seen entries candidate then
    match best with
    | none => some candidate
    | some b =>
      if (entry entries candidate).mean.order < (entry entries b).mean.order then some candidate
      else some b
  else best

/-- The first candidate below `count` of smallest mean, among those with a time. -/
def best? (entries : List RunningMean) (count : Nat) : Option Nat :=
  (List.range count).foldl (better entries) none

/-- The pick from the entries of a bucket. -/
def pick (entries : List RunningMean) (pending : List Nat) : Nat :=
  match (List.range pending.length).find? fun c => !seen entries c && pending[c]? == some 0 with
  | some untried => untried
  | none =>
    match best? entries pending.length with
    | some best => best
    | none => ((List.range pending.length).find? fun c => !seen entries c).getD 0

def select (m : MeanTime) (features : Features) (pending : List Nat) : Nat :=
  pick (m.entries features.bucket) pending

/-- The entries with one more time for a candidate, with empty ones added up to it. -/
def record (entries : List RunningMean) (candidate : Nat) (elapsed : Duration) :
    List RunningMean :=
  let padded := entries ++ List.replicate (candidate + 1 - entries.length) .zero
  padded.modify candidate (·.push elapsed)

/-- Replaces the value of a key, or adds the key. -/
def put (bucket : List Nat) (entries : List RunningMean) :
    List (List Nat × List RunningMean) → List (List Nat × List RunningMean)
  | [] => [(bucket, entries)]
  | (b, es) :: rest => if b = bucket then (b, entries) :: rest else (b, es) :: put bucket entries rest

def observe (m : MeanTime) (features : Features) (candidate : Nat) (elapsed : Duration) :
    MeanTime :=
  let bucket := features.bucket
  { buckets := put bucket (record (m.entries bucket) candidate elapsed) m.buckets
    samples := m.samples + 1 }

/-- `observe` for a candidate of any number; an entry takes 16 bytes. -/
def observed? (m : MeanTime) (features : Features) (candidate : Nat) (elapsed : Duration) :
    Except Fault MeanTime :=
  if UInt64.size ≤ candidate + 1 then .error .overflow
  else if Memory.capacity 16 < candidate + 1 then .error .noRoom
  else .ok (m.observe features candidate elapsed)

end MeanTime

instance : Model MeanTime where
  name _ := "mean-time"
  select m features pending := (m.select features pending, m)
  observe := MeanTime.observe
  samples := MeanTime.samples

/-! ## A fixed index -/

structure Fixed where
  index : UInt64
  samples : Nat
  deriving DecidableEq, Repr

namespace Fixed

def ofIndex (index : UInt64) : Fixed := ⟨index, 0⟩

end Fixed

instance : Model Fixed where
  name _ := "fixed"
  select m _ _ := (m.index.toNat, m)
  observe m _ _ _ := { m with samples := m.samples + 1 }
  samples := Fixed.samples

end AdaptiveLoops
