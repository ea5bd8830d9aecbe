/-
Reading a document from its JSON text.

The tokens are read one after the other, with a stack of the lists and
records that are open. Of two fields of one name the later value counts, at
the place of the earlier. At most `maxDepth` lists and records may be open
at a time.
-/
import AdaptiveLoops.Document.Json.Token

namespace AdaptiveLoops.Document.Json

/-- A list or a record that is open; what it holds so far is kept backwards. -/
inductive Open where
  | list (items : List Document)
  /-- A record, and the name of the field that is being read. -/
  | record (fields : List (String × Document)) (key : String)

/-- What has to come next. -/
inductive Next where
  | value
  /-- A value, or the end of a list that is empty so far. -/
  | firstItem
  | key
  /-- A name, or the end of a record that is empty so far. -/
  | firstKey
  | colon
  /-- A comma or a closing bracket. -/
  | separator
  | nothing (d : Document)

structure Reading where
  stack : List Open
  next : Next

def maxDepth : Nat := 127

/-- Gives a field a value, at the place it has or at the front. -/
def putField (key : String) (d : Document) (fields : List (String × Document)) :
    List (String × Document) :=
  if fields.any (·.1 == key) then fields.map fun f => if f.1 == key then (key, d) else f
  else (key, d) :: fields

namespace Reading

def start : Reading := ⟨[], .value⟩

/-- A value has been read. -/
def put (d : Document) : List Open → Reading
  | [] => ⟨[], .nothing d⟩
  | .list items :: rest => ⟨.list (d :: items) :: rest, .separator⟩
  | .record fields key :: rest => ⟨.record (putField key d fields) key :: rest, .separator⟩

def enter (o : Open) (next : Next) (stack : List Open) : Option Reading :=
  if stack.length < maxDepth then some ⟨o :: stack, next⟩ else none

/-- A token that begins a value. -/
def value (stack : List Open) : Token → Option Reading
  | .text s => some (put (.text s) stack)
  | .bare d => some (put d stack)
  | .openList => enter (.list []) .firstItem stack
  | .openRecord => enter (.record [] "") .firstKey stack
  | _ => none

def key : List Open → String → Option Reading
  | .record fields _ :: rest, key => some ⟨.record fields key :: rest, .colon⟩
  | _, _ => none

/-- A token behind a value. -/
def separator : List Open → Token → Option Reading
  | .list items :: rest, .comma => some ⟨.list items :: rest, .value⟩
  | .list items :: rest, .closeList => some (put (.list items.reverse) rest)
  | .record fields key :: rest, .comma => some ⟨.record fields key :: rest, .key⟩
  | .record fields _ :: rest, .closeRecord => some (put (.record fields.reverse) rest)
  | _, _ => none

def step (r : Reading) (t : Token) : Option Reading :=
  match r.next, t with
  | .value, t => value r.stack t
  | .firstItem, .closeList => separator r.stack .closeList
  | .firstItem, t => value r.stack t
  | .key, .text s => key r.stack s
  | .firstKey, .text s => key r.stack s
  | .firstKey, .closeRecord => separator r.stack .closeRecord
  | .colon, .colon => some { r with next := .value }
  | .separator, t => separator r.stack t
  | _, _ => none

def document? (r : Reading) : Option Document :=
  match r.next with
  | .nothing d => some d
  | _ => none

end Reading

def parse? (s : String) : Option Document := do
  let tokens ← tokens? .between s.toList
  let reading ← tokens.foldlM Reading.step .start
  reading.document?

end AdaptiveLoops.Document.Json
