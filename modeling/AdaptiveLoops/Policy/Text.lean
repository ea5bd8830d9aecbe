/-
The two texts of a policy.

`Policy.text` is the short one, `threaded:4`, and `Policy.parse` reads it
back: a name, and after the first colon a numeral that is not zero. Blanks
around it do not count, and a name may stand without its number.
`Policy.listing` is the long one, used where a message shows a whole list
of candidates.
-/
import AdaptiveLoops.Policy
import AdaptiveLoops.Text.Blank
import AdaptiveLoops.Text.Numeral

namespace AdaptiveLoops

/-- Why a text names no policy. -/
inductive PolicyTextError where
  | unknown (text : String)
  | invalidParameter (policy value : String)
  deriving DecidableEq, Repr

def PolicyTextError.message : PolicyTextError → String
  | .unknown text => s!"unknown execution policy `{text}`"
  | .invalidParameter policy value => s!"invalid parameter `{value}` for policy `{policy}`"

namespace Policy

def text : Policy → String
  | .sequential => "seq"
  | .threaded minChunk => "threaded:" ++ Text.Numeral.text minChunk
  | .device block .sync => "device:" ++ Text.Numeral.text block
  | .device block .async => "device-async:" ++ Text.Numeral.text block

/-- The number after a name's colon, or `default` where there is no colon. -/
def parameter (name : String) (default : UInt64) :
    Option (List Char) → Except PolicyTextError UInt64
  | none => .ok default
  | some raw =>
    match Text.Numeral.parse (String.ofList raw) with
    | .ok n => if n = 0 then .error (.invalidParameter name (String.ofList raw)) else .ok n
    | .error _ => .error (.invalidParameter name (String.ofList raw))

/-- The policy of a text that has no blanks around it. -/
def parseTrimmed (cs : List Char) : Except PolicyTextError Policy :=
  let name := String.ofList (Text.splitAtFirst ':' cs).1
  let param := (Text.splitAtFirst ':' cs).2
  if (name = "seq" ∨ name = "sequential" ∨ name = "loop") ∧ param = none then
    .ok .sequential
  else if name = "threaded" ∨ name = "omp" then
    (parameter name defaultMinChunk param).map .threaded
  else if name = "device" then
    (parameter name defaultBlockSize param).map (.device · .sync)
  else if name = "device-async" then
    (parameter name defaultBlockSize param).map (.device · .async)
  else
    .error (.unknown (String.ofList cs))

def parse (s : String) : Except PolicyTextError Policy :=
  parseTrimmed (Text.trimmed s.toList)

/-- The mode as `listing` shows it. -/
def modeWord : Mode → String
  | .sync => "Sync"
  | .async => "Async"

/-- The policy with its fields by name. -/
def long : Policy → String
  | .sequential => "Sequential"
  | .threaded minChunk => "Threaded \x7b min_chunk: " ++ Text.Numeral.text minChunk ++ " \x7d"
  | .device block mode =>
    "Device \x7b block_size: " ++ Text.Numeral.text block ++ ", mode: " ++ modeWord mode ++ " \x7d"

def listing (ps : List Policy) : String :=
  "[" ++ ", ".intercalate (ps.map long) ++ "]"

end Policy

end AdaptiveLoops
