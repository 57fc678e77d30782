import Passage.Viewer.State
import Passage.Viewer.Wrap

/-! The viewer's screen: a title bar, the document in a box, a status line. Each is
a list of rows, and a row is a list of cells, one for each column; what does not fit is cut
at the right edge. A screen that is too narrow shows a message instead. -/

namespace Passage

structure CellStyle where
  foreground : Option Colour := none
  background : Option Colour := none
  modifiers : Modifiers := {}
deriving DecidableEq, Repr

/-- What stands in one column. -/
structure Cell where
  text : List Char := [' ']
  style : CellStyle := {}
deriving DecidableEq

def CellStyle.under (s : CellStyle) (l : Look) : CellStyle :=
  { s with
    foreground := l.colour.or s.foreground
    modifiers := (s.modifiers.union l.added).diff l.removed }

namespace Screen

def gap (base : CellStyle) : Cell :=
  ⟨[' '], base⟩

/-- The cell under the second column of a wide glyph, which nothing is drawn on. -/
def covered : Cell := {}

/-- The cells of a glyph over a base style. A glyph without columns is not shown. -/
def glyphCells (base : CellStyle) (g : Glyph) : List Cell :=
  match g.columns with
  | 0 => []
  | 1 => [⟨g.text, base.under g.look⟩]
  | more + 2 => ⟨g.text, base.under g.look⟩ :: covered :: List.replicate more (gap base)

def cellsOf (base : CellStyle) (gs : List Glyph) : List Cell :=
  gs.flatMap (glyphCells base)

/-- A row of a number of columns: cells from a column on, the rest empty. -/
def rowOf (width : Nat) (base : CellStyle) (start : Nat) (cells : List Cell) : List Cell :=
  let row := (List.replicate start (gap base) ++ cells).take width
  row ++ List.replicate (width - row.length) (gap base)

/-- The glyphs that fit into a number of columns, up to the first that does not. -/
def fitting : Nat → List Glyph → List Glyph
  | _, [] => []
  | room, g :: gs => if room < g.columns then [] else g :: fitting (room - g.columns) gs

/-- A row of text from the left edge over a base style. A glyph that is wider than a whole
row is left out. -/
def textRow (width : Nat) (base : CellStyle) (gs : List Glyph) : List Cell :=
  rowOf width base 0 (cellsOf base (fitting width (gs.filter (·.columns ≤ width))))

/-- Narrower screens show no document. -/
def minWidth : Nat := 30

def narrowMessage (width : Nat) : List Char :=
  (s!"Terminal too narrow: {width} < {minWidth} chars").toList

def help : List Char :=
  "Tab/Shift+Tab select  Enter open  j/k scroll  q quit".toList

/-- The first line of a text, without its line end. -/
def firstLine (cs : List Char) : List Char :=
  let line := cs.takeWhile (· != '\n')
  if line.length < cs.length && line.getLast? = some '\r' then line.dropLast else line

/-- The title bar. It has room for one line of the file's name. -/
def titleRow (width : Nat) (file : List Char) : List Cell :=
  textRow width ⟨some .black, some .cyan, { bold := true }⟩
    (Glyph.ofText {} (firstLine ("usx-render:: ".toList ++ file)))

/-- The status line: the status, if there is one, and the keys. -/
def statusRow (width : Nat) (v : Viewer) : List Cell :=
  let status :=
    if v.status.isEmpty then []
    else
      Glyph.ofText { colour := some .yellow, added := { bold := true } } v.status.toList ++
        Glyph.ofText {} "  ".toList
  textRow width {} (status ++ Glyph.ofText { colour := some .darkGray } help)

def startColumn (width : Nat) (row : List Glyph) : Option Alignment → Nat
  | none => 0
  | some .center => width / 2 - Glyph.width row / 2
  | some .right => width - Glyph.width row

def documentRows (width : Nat) (v : Viewer) : List (List Cell) :=
  (v.document.displayLines v.selectedSpan?).flatMap fun l =>
    (wrapLine width (Glyph.ofLine l)).map fun row =>
      rowOf width {} (startColumn width row l.alignment) (cellsOf {} row)

def plainCells (cs : List Char) : List Cell :=
  cs.map fun c => ⟨[c], {}⟩

/-- The edge of a box, with a title from its left corner on. -/
def edge (width : Nat) (left : Char) (title : List Char) (right : Char) : List Cell :=
  let title := title.take (width - 2)
  plainCells (left :: title ++ List.replicate (width - 2 - title.length) '─' ++ [right])

/-- The box with the document. Its bottom edge needs a second row. -/
def documentBox (width height : Nat) (v : Viewer) : List (List Cell) :=
  let inner := width - 2
  let shown := ((documentRows inner v).drop v.scroll).take (height - 2)
  let filled := shown ++ List.replicate (height - 2 - shown.length) (rowOf inner {} 0 [])
  let title := (s!"Rendered ({v.regions.length} clickable)").toList
  let rows :=
    edge width '┌' title '┐' ::
      (filled.map fun row => plainCells ['│'] ++ row ++ plainCells ['│']) ++
      [edge width '└' [] '┘']
  rows.take height

/-- The rows of a screen. With fewer than three rows the document comes first, then the
title bar. -/
def draw (width height : Nat) (file : List Char) (v : Viewer) : List (List Cell) :=
  if width < minWidth then
    let base : CellStyle := ⟨some .red, none, { bold := true }⟩
    (textRow width base (Glyph.ofText {} (narrowMessage width)) ::
      List.replicate (height - 1) (textRow width base [])).take height
  else
    let title := if 2 ≤ height then [titleRow width file] else []
    let status := if 3 ≤ height then [statusRow width v] else []
    title ++ documentBox width (height - title.length - status.length) v ++ status

def rowText (row : List Cell) : List Char :=
  row.flatMap Cell.text

/-- The stretches of equal style in a row, `column` being its first, without those in the
default style. -/
def stretchesFrom (column : Nat) : List Cell → List (Span × CellStyle)
  | [] => []
  | c :: cs =>
    let later := stretchesFrom (column + 1) cs
    if c.style = {} then later
    else
      match later with
      | (s, style) :: rest =>
        if s.start = column + 1 ∧ style = c.style then (⟨column, s.stop⟩, style) :: rest
        else (⟨column, column + 1⟩, c.style) :: later
      | [] => [(⟨column, column + 1⟩, c.style)]

def stretches (row : List Cell) : List (Span × CellStyle) :=
  stretchesFrom 0 row

end Screen

end Passage
