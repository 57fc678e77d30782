import Passage.Display.Line
import Passage.Text.Blank
import Passage.Text.Column
import Passage.Text.Grapheme

/-! Word wrap. A line is divided into rows of at most `width` columns. Blanks are kept, and
go with the word after them until one of the two no longer fits; a row breaks
before that word, and the blanks at the break that fit on neither row are dropped. A
line of blanks alone takes an empty row before its own. -/

namespace Passage

/-- A grapheme with its look. Its columns are kept, because wrapping asks for them often. -/
structure Glyph where
  text : List Char
  columns : Nat
  look : Look
deriving DecidableEq

namespace Glyph

/-- The glyphs of a text with one look. Line feeds are not shown. -/
def ofText (look : Look) (text : List Char) : List Glyph :=
  ((Text.graphemes text).filter (· != ['\n'])).map fun g => ⟨g, Text.columns g, look⟩

/-- Whether a row may break here. No-break spaces hold together, and zero-width spaces do
not. -/
def isBreak (g : Glyph) : Bool :=
  g.text == ['\u200b'] || g.text.all Text.isWhite && g.text != ['\xa0']

def width (gs : List Glyph) : Nat :=
  gs.foldr (fun g n => g.columns + n) 0

/-- The glyphs of a line; no grapheme reaches from one span into the next. -/
def ofLine (l : DisplayLine) : List Glyph :=
  l.spans.flatMap fun s => ofText s.look s.text

end Glyph

/-- Where wrapping stands: the finished rows (latest first), the row that is being filled,
the blanks after it, and the word after these. -/
structure Wrapping where
  rows : List (List Glyph) := []
  row : List Glyph := []
  blanks : List Glyph := []
  word : List Glyph := []
  inWord : Bool := false

namespace Wrapping

def commit (w : Wrapping) : Wrapping :=
  { w with row := w.row ++ w.blanks ++ w.word, blanks := [], word := [] }

/-- The blanks that are left once those that fit into a number of columns are gone. -/
def dropFitting : Nat → List Glyph → List Glyph
  | _, [] => []
  | room, g :: gs =>
    if room < g.columns then g :: gs else dropFitting (room - g.columns) gs

/-- Finishes the row; the blanks at its end that fit on it are dropped. -/
def breakRow (width : Nat) (w : Wrapping) : Wrapping :=
  { w with
    rows := w.row :: w.rows
    row := []
    blanks := dropFitting (width - Glyph.width w.row) w.blanks }

def hold (w : Wrapping) (g : Glyph) : Wrapping :=
  if g.isBreak then { w with blanks := w.blanks ++ [g], inWord := false }
  else { w with word := w.word ++ [g], inWord := true }

def step (width : Nat) (w : Wrapping) (g : Glyph) : Wrapping :=
  if width < g.columns then w
  else
    let held := Glyph.width w.blanks + Glyph.width w.word
    let w :=
      if w.inWord && g.isBreak || w.row.isEmpty && width < held + g.columns then w.commit else w
    let used := Glyph.width w.row + Glyph.width w.blanks + Glyph.width w.word
    if width ≤ Glyph.width w.row || 0 < g.columns && width ≤ used then
      let w := w.breakRow width
      if g.isBreak && w.blanks.isEmpty then w else w.hold g
    else w.hold g

/-- The rows, in order, with what is still held. -/
def finish (w : Wrapping) : List (List Glyph) :=
  let rows := if w.row.isEmpty && w.word.isEmpty && !w.blanks.isEmpty then [] :: w.rows else w.rows
  let row := w.commit.row
  let rows := if row.isEmpty then rows else row :: rows
  if rows.isEmpty then [[]] else rows.reverse

end Wrapping

def wrapLine (width : Nat) (gs : List Glyph) : List (List Glyph) :=
  (gs.foldl (Wrapping.step width) {}).finish

end Passage
