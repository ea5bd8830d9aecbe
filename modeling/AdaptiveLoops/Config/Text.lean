/-
The words for warm-up strategies and for what becomes of a launch that
finds no slot. Each has one word it is written with, and some further ones
that are read; blanks are not taken off.
-/
import AdaptiveLoops.Config

namespace AdaptiveLoops

def Warmup.text : Warmup → String
  | .defaultIndex => "default-index"
  | .roundRobin => "round-robin"

/-- A word that is no warm-up strategy. -/
structure WarmupTextError where
  word : String
  deriving DecidableEq, Repr

def WarmupTextError.message (e : WarmupTextError) : String :=
  s!"unknown warm-up strategy `{e.word}`"

def Warmup.parse (s : String) : Except WarmupTextError Warmup :=
  if s = "default-index" ∨ s = "default" then .ok .defaultIndex
  else if s = "round-robin" then .ok .roundRobin
  else .error ⟨s⟩

def Exhaustion.text : Exhaustion → String
  | .fail => "fail"
  | .synchronous => "synchronous"

/-- A word that says nothing about a full pool. -/
structure ExhaustionTextError where
  word : String
  deriving DecidableEq, Repr

def ExhaustionTextError.message (e : ExhaustionTextError) : String :=
  s!"unknown exhaustion policy `{e.word}`"

def Exhaustion.parse (s : String) : Except ExhaustionTextError Exhaustion :=
  if s = "fail" then .ok .fail
  else if s = "synchronous" ∨ s = "sync" then .ok .synchronous
  else .error ⟨s⟩

theorem Warmup.parse_text (w : Warmup) : Warmup.parse w.text = .ok w := by
  cases w <;> rfl

theorem Exhaustion.parse_text (e : Exhaustion) : Exhaustion.parse e.text = .ok e := by
  cases e <;> rfl

end AdaptiveLoops
