/-
The kinds of models a configuration can name, and their texts: `mean-time`
in any mixture of ASCII cases, or `fixed:` and a numeral.
-/
import AdaptiveLoops.Model
import AdaptiveLoops.Text.Blank
import AdaptiveLoops.Text.Numeral

namespace AdaptiveLoops

inductive ModelKind where
  | meanTime
  | fixed (index : UInt64)
  deriving DecidableEq, Repr

/-- Why a text names no kind of model. -/
inductive ModelTextError where
  | badIndex (index : String)
  | unknown (text : String)
  deriving DecidableEq, Repr

def ModelTextError.message : ModelTextError → String
  | .badIndex index => s!"invalid fixed model index `{index}`"
  | .unknown text => "unknown model `" ++ text ++ "` (expected mean-time or fixed:<n>)"

namespace ModelKind

def text : ModelKind → String
  | .meanTime => "mean-time"
  | .fixed index => "fixed:" ++ Text.Numeral.text index

/-- The kind of a text that has no blanks around it. -/
def parseTrimmed (cs : List Char) : Except ModelTextError ModelKind :=
  if cs.map Char.toLower = "mean-time".toList then .ok .meanTime
  else
    match Text.splitAtFirst ':' cs with
    | (name, some index) =>
      if name = "fixed".toList then
        match Text.Numeral.parse (String.ofList index) with
        | .ok n => .ok (.fixed n)
        | .error _ => .error (.badIndex (String.ofList index))
      else .error (.unknown (String.ofList cs))
    | (_, none) => .error (.unknown (String.ofList cs))

def parse (s : String) : Except ModelTextError ModelKind :=
  parseTrimmed (Text.trimmed s.toList)

/-- The kind with its index, as a listing shows it. -/
def long : ModelKind → String
  | .meanTime => "MeanTime"
  | .fixed index => "Fixed(" ++ Text.Numeral.text index ++ ")"

end ModelKind

/-- A model of one of the kinds. -/
inductive AnyModel where
  | meanTime (m : MeanTime)
  | fixed (m : Fixed)

def ModelKind.build : ModelKind → AnyModel
  | .meanTime => .meanTime .empty
  | .fixed index => .fixed (.ofIndex index)

/-- The model after one more time, for candidates of any number. -/
def AnyModel.observed? (m : AnyModel) (features : Features) (candidate : Nat) (elapsed : Duration) :
    Except Fault AnyModel :=
  match m with
  | .meanTime m => (m.observed? features candidate elapsed).map .meanTime
  | .fixed m => .ok (.fixed (Model.observe m features candidate elapsed))

instance : Model AnyModel where
  name
    | .meanTime m => Model.name m
    | .fixed m => Model.name m
  select m features pending :=
    match m with
    | .meanTime m => ((Model.select m features pending).1, .meanTime (Model.select m features pending).2)
    | .fixed m => ((Model.select m features pending).1, .fixed (Model.select m features pending).2)
  observe m features candidate elapsed :=
    match m with
    | .meanTime m => .meanTime (Model.observe m features candidate elapsed)
    | .fixed m => .fixed (Model.observe m features candidate elapsed)
  samples
    | .meanTime m => Model.samples m
    | .fixed m => Model.samples m

end AdaptiveLoops
