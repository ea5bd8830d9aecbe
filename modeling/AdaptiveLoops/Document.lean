/-
Documents: the values that configurations and reports are written as.

A record keeps its fields in order. A reader takes what it needs through
`field?` and the functions that read one kind of value; each refuses a
value of another kind, and a number outside the range it is read at.
-/
namespace AdaptiveLoops

inductive Document where
  | null
  | bool (b : Bool)
  | int (n : Int)
  | real (x : Float)
  | text (s : String)
  | list (items : List Document)
  | record (fields : List (String × Document))
  deriving Inhabited

namespace Document

def word (n : UInt64) : Document := .int n.toNat

def ofOption {α : Type} (f : α → Document) : Option α → Document
  | none => .null
  | some a => f a

def fields? : Document → Option (List (String × Document))
  | .record fields => some fields
  | _ => none

def field? (d : Document) (key : String) : Option Document :=
  d.fields?.bind fun fields => (fields.find? fun f => f.1 == key).map (·.2)

def bool? : Document → Option Bool
  | .bool b => some b
  | _ => none

def text? : Document → Option String
  | .text s => some s
  | _ => none

def items? : Document → Option (List Document)
  | .list items => some items
  | _ => none

def int? : Document → Option Int
  | .int n => some n
  | _ => none

/-- A number from 0 up to below `bound`. -/
def nat? (bound : Nat) (d : Document) : Option Nat :=
  d.int?.bind fun n => if 0 ≤ n ∧ n < bound then some n.toNat else none

/-- An unsigned 64-bit number. -/
def word? (d : Document) : Option UInt64 :=
  d.int?.bind fun n =>
    if h : 0 ≤ n ∧ n.toNat < UInt64.size then some (UInt64.ofNatLT n.toNat h.2) else none

/-- A signed 64-bit number. -/
def index? (d : Document) : Option Int64 :=
  d.int?.bind fun n =>
    if h : Int64.minValue.toInt ≤ n ∧ n ≤ Int64.maxValue.toInt then some (Int64.ofIntLE n h.1 h.2)
    else none

/-- A value that may be left empty. -/
def optional? {α : Type} (read : Document → Option α) : Document → Option (Option α)
  | .null => some none
  | d => (read d).map some

/-- One of several named choices: its name, or a record of its name alone with nothing in it. -/
def choice? : Document → Option String
  | .text s => some s
  | .record [(s, .null)] => some s
  | _ => none

/-- A choice where a record without fields counts as nothing, too. -/
def looseChoice? : Document → Option String
  | .record [(s, .record [])] => some s
  | d => d.choice?

@[simp] theorem word?_word (n : UInt64) : (word n).word? = some n := by
  have h : 0 ≤ (n.toNat : Int) ∧ (n.toNat : Int).toNat < UInt64.size :=
    ⟨Int.natCast_nonneg _, n.toNat_lt⟩
  simp only [word, word?, int?, Option.bind_some]
  rw [dif_pos h]
  simp

end Document

end AdaptiveLoops
