import Passage.Render.Replace
import Passage.Text.Uppercase

/-! What the block tags become: the content, with attributes for the whole block, between
the line breaks and the indent of its kind. -/

namespace Passage.Block

def indent : List Char :=
  "    ".toList

def headingStyles : List Attribute :=
  [.bold, .alignCenter]

def oppositeStyles : List Attribute :=
  [.italic, .alignOpposite]

def heading (content : StyledText) : StyledText :=
  content.addStyles headingStyles ++ .plain ['\n']

def majorHeading (content : StyledText) : StyledText :=
  heading (content.mapText Text.upper)

/-- A major heading; with `suppress` one that opens the text leaves nothing. -/
def majorHeadingAt (suppress : Bool) (o : Occurrence) : StyledText :=
  if suppress && o.found.start == 0 then ∅ else majorHeading (o.group 0)

/-- An indented paragraph; it starts a line unless it opens the text. -/
def paragraphAt (o : Occurrence) : StyledText :=
  .plain (if 0 < o.found.start then '\n' :: indent else indent) ++ o.group 0 ++ .plain ['\n']

def blankLine : StyledText :=
  .plain ['\n', '\n']

def chapterLabel (content : StyledText) : StyledText :=
  content.addStyles [.bold]

def oppositeLine (content : StyledText) : StyledText :=
  .plain ['\n'] ++ content.addStyles oppositeStyles

end Passage.Block
