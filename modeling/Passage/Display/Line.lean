import Passage.Display.Look
import Passage.Styled.Offset

/-! The lines of a text on a terminal. A run is shown piece by piece, a piece on each line
that it reaches; a line holds the non-empty pieces between two line feeds, and nothing is
shown for the stretch after the last line feed if that holds no piece. -/

namespace Passage

/-- Where a line stands; the leading edge where nothing is said. -/
inductive Alignment
  | center
  | right
deriving DecidableEq, Repr

/-- A part of a run that lies on one line. -/
structure Piece where
  text : List Char
  styles : StyleSet
  selected : Bool
deriving DecidableEq

structure DisplaySpan where
  text : List Char
  look : Look
deriving DecidableEq

structure DisplayLine where
  alignment : Option Alignment
  spans : List DisplaySpan
deriving DecidableEq

/-- The alignment that a style set asks for; the middle wins. -/
def StyleSet.alignment? (s : StyleSet) : Option Alignment :=
  if Attribute.alignCenter ∈ s then some .center
  else if Attribute.alignOpposite ∈ s then some .right
  else none

namespace Piece

/-- The look of a piece; a selected one is in reverse video. -/
def look (p : Piece) : Look :=
  let look := Look.ofStyles p.styles
  if p.selected then look.add { reversed := true } else look

/-- The pieces of a run, with a `none` for each line feed. -/
def ofRun (selected : Option Span) (place : Span) (r : Run) : List (Option Piece) :=
  ((r.text.splitOn '\n').map fun text =>
    some (⟨text, r.styles, selected == some place⟩ : Piece)).intersperse none

end Piece

/-- A line of pieces, aligned as the first non-empty one that asks for it. -/
def DisplayLine.ofPieces (ps : List Piece) : DisplayLine :=
  let shown := ps.filter fun p => !p.text.isEmpty
  ⟨shown.findSome? fun p => p.styles.alignment?, shown.map fun p => ⟨p.text, p.look⟩⟩

def dropEmptyLast (lines : List DisplayLine) : List DisplayLine :=
  if lines.getLast?.any fun l => l.spans.isEmpty then lines.dropLast else lines

/-- The lines of a text; the run that covers exactly the selected bytes is in reverse
video. -/
def StyledText.displayLines (t : StyledText) (selected : Option Span) : List DisplayLine :=
  let pieces := t.placed.flatMap fun p => Piece.ofRun selected p.1 p.2
  dropEmptyLast ((pieces.splitOnP Option.isNone).map fun line =>
    DisplayLine.ofPieces (line.filterMap id))

end Passage
