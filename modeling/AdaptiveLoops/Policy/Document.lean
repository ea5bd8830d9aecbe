/-
Policies in documents: a record with the backend's name, and the fields of
that backend. A reader takes no notice of further fields.
-/
import AdaptiveLoops.Policy
import AdaptiveLoops.Document

namespace AdaptiveLoops

def Mode.ofText? (s : String) : Option Mode :=
  if s = "sync" then some .sync else if s = "async" then some .async else none

namespace Policy

def document : Policy → Document
  | .sequential => .record [("backend", .text "sequential")]
  | .threaded minChunk =>
    .record [("backend", .text "threaded"), ("min_chunk", .word minChunk)]
  | .device block mode =>
    .record [("backend", .text "device"), ("block_size", .word block), ("mode", .text mode.text)]

/-- The policy of the backend called `kind`, with the fields of `d`. -/
def ofFields? (kind : String) (d : Document) : Option Policy :=
  if kind = "sequential" then some .sequential
  else if kind = "threaded" then ((d.field? "min_chunk").bind (·.word?)).map .threaded
  else if kind = "device" then
    ((d.field? "block_size").bind (·.word?)).bind fun block =>
      ((d.field? "mode").bind (·.looseChoice?)).bind fun mode => (Mode.ofText? mode).map (.device block)
  else none

def ofDocument? (d : Document) : Option Policy :=
  ((d.field? "backend").bind (·.text?)).bind (ofFields? · d)

theorem ofDocument?_document (p : Policy) : ofDocument? p.document = some p := by
  cases p with
  | sequential => rfl
  | threaded minChunk =>
    simp [document, ofDocument?, ofFields?, Document.field?, Document.fields?, Document.text?]
  | device block mode =>
    cases mode <;>
      simp [document, ofDocument?, ofFields?, Document.field?, Document.fields?, Document.text?,
        Document.looseChoice?, Document.choice?, Mode.text, Mode.ofText?]

end Policy

end AdaptiveLoops
