/-
The dump of a statement tree: one line for each node, a parent before its
children, each two blanks deeper than its parent.
-/
import AdaptiveLoops.Statement

namespace AdaptiveLoops.Statement

/-- The line of a node, without its indentation. -/
def label : Statement → String
  | .loop dim policy _ => "for dim=" ++ Nat.repr dim ++ " policy=" ++ policy.text
  | .kernel policy _ => "kernel policy=" ++ policy.text
  | .segments dim length _ =>
    "segments dim=" ++ Nat.repr dim ++ " len=" ++ Text.Numeral.text length
  | .barrier => "sync"
  | .call => "lambda"

def indent (level : Nat) (line : String) : String :=
  String.ofList (List.replicate (2 * level) ' ') ++ line

mutual

def linesAt (level : Nat) : Statement → List String
  | .loop dim policy body =>
    indent level (label (.loop dim policy body)) :: linesBelow (level + 1) body
  | .kernel policy body =>
    indent level (label (.kernel policy body)) :: linesBelow (level + 1) body
  | .segments dim length body =>
    indent level (label (.segments dim length body)) :: linesBelow (level + 1) body
  | .barrier => [indent level (label .barrier)]
  | .call => [indent level (label .call)]

def linesBelow (level : Nat) : List Statement → List String
  | [] => []
  | s :: rest => linesAt level s ++ linesBelow level rest

end

def lines (s : Statement) : List String :=
  linesAt 0 s

def dump (s : Statement) : String :=
  String.join (s.lines.map (· ++ "\n"))

theorem linesAt_eq (level : Nat) (s : Statement) :
    linesAt level s = indent level s.label :: linesBelow (level + 1) s.children := by
  cases s <;> simp [linesAt, children, linesBelow]

end AdaptiveLoops.Statement
