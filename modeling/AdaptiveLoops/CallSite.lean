/-
Call sites: what a loop's statistics are kept under.

A site is a position in a source file or a name. Positions come before
names; positions are ordered by file, then line, then column, and names by
their characters.
-/
namespace AdaptiveLoops

inductive CallSite where
  | source (file : String) (line column : UInt32)
  | named (name : String)
  deriving DecidableEq, Repr

namespace CallSite

def text : CallSite → String
  | .source file line column => s!"{file}:{line.toNat}:{column.toNat}"
  | .named name => name

def file? : CallSite → Option String
  | .source file _ _ => some file
  | .named _ => none

def line? : CallSite → Option UInt32
  | .source _ line _ => some line
  | .named _ => none

def compare : CallSite → CallSite → Ordering
  | .source f l c, .source f' l' c' =>
    (Ord.compare f f').then ((Ord.compare l l').then (Ord.compare c c'))
  | .source _ _ _, .named _ => .lt
  | .named _, .source _ _ _ => .gt
  | .named n, .named n' => Ord.compare n n'

def le (a b : CallSite) : Bool :=
  (compare a b).isLE

def sort (sites : List CallSite) : List CallSite :=
  sites.mergeSort le

/-- A sorted list without the repetitions, which stand next to each other. -/
def distinct : List CallSite → List CallSite
  | [] => []
  | [s] => [s]
  | s :: t :: rest => if s = t then distinct (t :: rest) else s :: distinct (t :: rest)

end CallSite

end AdaptiveLoops
