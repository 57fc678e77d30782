import Passage.Render.Report
import Passage.Styled.Offset

/-! A report as a tree of fields, which the report formats write down. -/

namespace Passage

/-- Data without a format. A `variant` is a named choice with the data that goes with it. -/
inductive Document
  | null
  | number (n : Nat)
  | text (cs : List Char)
  | list (items : List Document)
  | record (fields : List (String × Document))
  | variant (name : String) (payload : Document)

namespace Document

def ofRegionKind : RegionKind → Document
  | .verse => text "verse".toList
  | .note => text "note".toList

def ofAttribute : Attribute → Document
  | .bold => text "bold".toList
  | .italic => text "italic".toList
  | .normal => text "normal".toList
  | .alignCenter => text "align-center".toList
  | .alignOpposite => text "align-opposite".toList
  | .clickable region =>
    variant "clickable"
      (record [("kind", ofRegionKind region.kind), ("payload", text region.payload.toList)])

def ofRun (place : Span) (r : Run) : Document :=
  record [("range", record [("start", number place.start), ("end", number place.stop)]),
    ("styles", list (r.styles.attributes.map ofAttribute))]

def ofText (t : StyledText) : Document :=
  record [("text", text t.text), ("runs", list (t.placed.map fun p => ofRun p.1 p.2))]

def ofStage (s : Stage) : Document :=
  text s.name.toList

def ofReport (r : Report) : Document :=
  record [("text", ofText r.text), ("completed_stages", list (r.completed.map ofStage)),
    ("cancelled_stage", (r.cancelled.map ofStage).getD null)]

end Document

end Passage
