/-
Block YAML texts of documents, one item or field a line.

A record inside a record is indented by two blanks, a list by none, and an
item starts with a dash. A text stands plain where a reader would take it
back for the same text, and is quoted otherwise.
-/
import AdaptiveLoops.Document.Json

namespace AdaptiveLoops.Document.Yaml

/-- Words that stand for a value of another kind when they are plain. -/
def reserved : List String :=
  ["", "~", "null", "Null", "NULL", "true", "True", "TRUE", "false", "False", "FALSE",
   "y", "Y", "yes", "Yes", "YES", "n", "N", "no", "No", "NO", "on", "On", "ON", "off", "Off", "OFF",
   ".nan", ".NaN", ".NAN", ".inf", ".Inf", ".INF"]

/-- Characters that a plain text cannot start with. -/
def indicators : List Char :=
  ['-', '?', ':', ',', '[', ']', '\x7b', '\x7d', '#', '&', '*', '!', '|', '>', '\'', '"', '%', '@',
   '\x60', ' ']

def isPlain (s : String) : Bool :=
  let cs := s.toList
  !reserved.contains s
    && !(cs.head?.any fun c => indicators.contains c || c.isDigit || c == '+' || c == '.')
    && !(cs.getLast?.any fun c => c == ' ' || c == ':')
    && cs.all (fun c => 0x20 ≤ c.toNat && c.toNat ≠ 0x7F)
    && !(cs.zip cs.tail).any fun p => p == (':', ' ') || p == (' ', '#')

def scalar (s : String) : String :=
  if isPlain s then s
  else if s.toList.any fun c => c.toNat < 0x20 || c.toNat = 0x7F then Json.quote s
  else String.ofList ('\'' :: s.toList.flatMap (fun c => if c = '\'' then [c, c] else [c]) ++ ['\''])

def number (x : Float) : String :=
  match Text.Shortest.text? x.toBits with
  | some s => s
  | none => if x.isNaN then ".nan" else if x < 0 then "-.inf" else ".inf"

def indent (line : String) : String := "  " ++ line

/-- The lines of an item: the first one after a dash, the others below it. -/
def dashed : List String → List String
  | [] => ["-"]
  | line :: rest => ("- " ++ line) :: rest.map indent

mutual

/-- The lines of a value that stands on lines of its own. -/
def lines : Document → List String
  | .null => ["null"]
  | .bool b => [if b then "true" else "false"]
  | .int n => [toString n]
  | .real x => [number x]
  | .text s => [scalar s]
  | .list [] => ["[]"]
  | .list items => itemLines items
  | .record [] => ["\x7b\x7d"]
  | .record fields => fieldLines fields

def itemLines : List Document → List String
  | [] => []
  | d :: rest => dashed (lines d) ++ itemLines rest

def fieldLines : List (String × Document) → List String
  | [] => []
  | (key, d) :: rest =>
    (match d with
      | .list (item :: items) => (scalar key ++ ":") :: itemLines (item :: items)
      | .record (f :: fs) => (scalar key ++ ":") :: (fieldLines (f :: fs)).map indent
      | d => (lines d).map fun line => scalar key ++ ": " ++ line) ++ fieldLines rest

end

def text (d : Document) : String :=
  String.join ((lines d).map (· ++ "\n"))

end AdaptiveLoops.Document.Yaml
