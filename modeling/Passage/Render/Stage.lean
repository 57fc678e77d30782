import Passage.Tag.Scan

/-! The stages of a render. Each is one pass for one family of tags. -/

namespace Passage

/-- A pass over the text for one family of tags. -/
inductive Stage
  | trim
  | lineBreaks
  | whitespace
  | majorSectionHeading
  | sectionHeading
  | paragraph
  | blankLine
  | poeticLine
  | rightAlignedPoeticLine
  | verse
  | note
  | chapterLabel
  | selah
deriving DecidableEq, Repr

namespace Stage

/-- The stages in the order of a render: blanks first, so that every line break in the
output is a later stage's; block tags before inline tags. -/
def all : List Stage :=
  [trim, lineBreaks, whitespace, majorSectionHeading, sectionHeading, paragraph, blankLine,
   poeticLine, rightAlignedPoeticLine, verse, note, chapterLabel, selah]

/-- The name of a stage in reports and on the command line. -/
def name : Stage → String
  | trim => "trim"
  | lineBreaks => "line-breaks"
  | whitespace => "whitespace"
  | majorSectionHeading => "major-section-heading"
  | sectionHeading => "section-heading"
  | paragraph => "paragraph"
  | blankLine => "blank-line"
  | poeticLine => "poetic-line"
  | rightAlignedPoeticLine => "right-aligned-poetic-line"
  | verse => "verse"
  | note => "note"
  | chapterLabel => "chapter-label"
  | selah => "selah"

def ofName? (name : String) : Option Stage :=
  all.find? fun s => s.name = name

def pattern : Stage → Tag.Pattern
  | trim => .blankEdges
  | lineBreaks => .lineBreaks
  | whitespace => .blanks
  | majorSectionHeading => .para ['m', 's']
  | sectionHeading => .para ['s']
  | paragraph => .para ['p']
  | blankLine => .emptyPara ['b']
  | poeticLine => .poeticLine
  | rightAlignedPoeticLine => .para ['q', 'r']
  | verse => .verse
  | note => .note
  | chapterLabel => .para ['c', 'l']
  | selah => .span ['q', 's']

theorem ofName?_name (s : Stage) : ofName? s.name = some s := by
  cases s <;> rfl

end Stage

end Passage
