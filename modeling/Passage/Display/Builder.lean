import Passage.Display.Line
import Passage.Styled.Ranged

/-! How the lines of a held text are built: mark by mark, each mark's text piece by piece. A line
that a mark leaves unfinished is carried to the next mark; the last one is kept if it has a span.
Reading the text of a mark fails where its range cuts a character. -/

namespace Passage

structure LineBuilder where
  alignment : Option Alignment := none
  spans : List DisplaySpan := []
deriving DecidableEq

namespace LineBuilder

/-- The line with a piece at its end. An empty piece adds nothing, its alignment neither. -/
def push (b : LineBuilder) (p : Piece) : LineBuilder :=
  if p.text.isEmpty then b
  else ⟨b.alignment.or p.styles.alignment?, b.spans ++ [⟨p.text, p.look⟩]⟩

def finish (b : LineBuilder) : DisplayLine :=
  ⟨b.alignment, b.spans⟩

end LineBuilder

/-- The lines that are finished, and the one that is not. -/
structure LinesBuilder where
  finished : List DisplayLine := []
  current : LineBuilder := {}
deriving DecidableEq

namespace LinesBuilder

/-- Adds the pieces of one mark: a line is finished after each piece that another one follows. -/
def pushAll (b : LinesBuilder) : List Piece → LinesBuilder
  | [] => b
  | [p] => { b with current := b.current.push p }
  | p :: q :: rest => pushAll ⟨b.finished ++ [(b.current.push p).finish], {}⟩ (q :: rest)

def addMark? (selected : Option Span) (text : List Char) (b : LinesBuilder) (m : Mark) :
    Option LinesBuilder :=
  (Text.sliceBytes? m.range text).map fun cs =>
    b.pushAll ((cs.splitOn '\n').map fun piece => ⟨piece, m.styles, selected == some m.range⟩)

/-- The lines, with the unfinished one if it has a span. -/
def lines (b : LinesBuilder) : List DisplayLine :=
  if b.current.spans.isEmpty then b.finished else b.finished ++ [b.current.finish]

end LinesBuilder

/-- The lines of a held text; the mark on exactly the selected bytes is in reverse video. -/
def RangedText.displayLines? (t : RangedText) (selected : Option Span) :
    Option (List DisplayLine) :=
  (t.marks.foldlM (LinesBuilder.addMark? selected t.text) {}).map LinesBuilder.lines

end Passage
