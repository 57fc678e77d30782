import Passage.Styled.Offset
import Passage.Text.Place

/-! Styled text as it is held: characters, and marks that give styles to ranges of bytes. Nothing
in the type says that marks lie where they should. Every operation finds the ranges of its result
by counting bytes, and reads the text of a mark by its range, which fails where the range cuts a
character. `StyledText.ranged` is the held form of a styled text. -/

namespace Passage

structure Mark where
  range : Span
  styles : StyleSet
deriving DecidableEq

structure RangedText where
  text : List Char
  marks : List Mark
deriving DecidableEq

namespace RangedText

def empty : RangedText := ⟨[], []⟩

instance : EmptyCollection RangedText := ⟨empty⟩

/-- The marks with a range added at the end: to the last mark if that has the same styles. -/
def extend (marks : List Mark) (range : Span) (styles : StyleSet) : List Mark :=
  match marks.getLast? with
  | some last =>
    if last.styles = styles then marks.dropLast ++ [⟨⟨last.range.start, range.stop⟩, styles⟩]
    else marks ++ [⟨range, styles⟩]
  | none => [⟨range, styles⟩]

def push (t : RangedText) (cs : List Char) (styles : StyleSet) : RangedText :=
  if cs.isEmpty then t
  else
    let text := t.text ++ cs
    ⟨text, extend t.marks ⟨Text.byteLength t.text, Text.byteLength text⟩ styles⟩

def pushAll (t : RangedText) (rs : List Run) : RangedText :=
  rs.foldl (fun t r => t.push r.text r.styles) t

def styled (cs : List Char) (attributes : List Attribute) : RangedText :=
  empty.push cs (.ofList attributes)

def plain (cs : List Char) : RangedText :=
  empty.push cs ∅

def runs? (t : RangedText) : Option (List Run) :=
  t.marks.mapM fun m => (Text.sliceBytes? m.range t.text).map fun cs => ⟨cs, m.styles⟩

def append? (t u : RangedText) : Option RangedText :=
  u.runs?.map t.pushAll

def prepend? (t u : RangedText) : Option RangedText :=
  u.append? t

/-- The marks that meet a span. Those that end by its start are passed over: in marks that lie in
order they come first. The first that starts at its end or later ends the search. -/
def marksIn (t : RangedText) (s : Span) : List Mark :=
  (t.marks.dropWhile (·.range.stop ≤ s.start)).takeWhile (·.range.start < s.stop)

def runIn? (t : RangedText) (s : Span) (m : Mark) : Option (List Run) :=
  let start := max m.range.start s.start
  let stop := min m.range.stop s.stop
  if start < stop then (Text.sliceBytes? ⟨start, stop⟩ t.text).map fun cs => [⟨cs, m.styles⟩]
  else some []

/-- The text of a span of bytes; none where that has to cut inside a character. -/
def slice? (t : RangedText) (s : Span) : Option RangedText :=
  ((t.marksIn s).mapM (t.runIn? s)).map fun rs => empty.pushAll rs.flatten

/-- Joins each mark to the one before it, given apart, while the two have the same styles. -/
def joinMarks (m : Mark) : List Mark → List Mark
  | [] => [m]
  | n :: rest =>
    if m.styles = n.styles then joinMarks ⟨⟨m.range.start, n.range.stop⟩, m.styles⟩ rest
    else m :: joinMarks n rest

/-- Marks of which neighbours differ in style. -/
def coalesce : List Mark → List Mark
  | [] => []
  | m :: rest => joinMarks m rest

def addStyles (t : RangedText) (attributes : List Attribute) : RangedText :=
  ⟨t.text, coalesce (t.marks.map fun m => ⟨m.range, m.styles.insertAll attributes⟩)⟩

/-- The text with each mark's characters mapped, under the same styles. -/
def mapText? (f : List Char → List Char) (t : RangedText) : Option RangedText :=
  t.runs?.map fun rs => empty.pushAll (rs.map fun r => ⟨f r.text, r.styles⟩)

/-- The styles at a byte offset; none past the end. -/
def stylesAt? (t : RangedText) (offset : Nat) : Option StyleSet :=
  ((t.marks.dropWhile (·.range.stop ≤ offset)).head?.filter fun m =>
    m.range.start ≤ offset && offset < m.range.stop).map Mark.styles

end RangedText

/-- The marks of runs, the first one starting at `offset`. -/
def Run.marksFrom (offset : Nat) (rs : List Run) : List Mark :=
  (Run.placedFrom offset rs).map fun p => ⟨p.1, p.2.styles⟩

def StyledText.ranged (t : StyledText) : RangedText :=
  ⟨t.text, Run.marksFrom 0 t.runs⟩

@[simp] theorem StyledText.text_ranged (t : StyledText) : t.ranged.text = t.text := rfl

end Passage
