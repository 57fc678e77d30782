import Passage.Render.Block
import Passage.Text.Decimal

/-! Poetic lines. The indent follows the level, up to `maxLevel`, and a line that opens
with a verse tag hangs out by half a level. A line break is put on either side only
where the surrounding text does not provide one, so breaks are never stacked. -/

namespace Passage.Poetry

/-- Deeper levels have the indent of this one. -/
def maxLevel : Nat := 16

/-- The level that a digit string names. A level that is no ASCII decimal below 2^64 counts
as 0. -/
def level (digits : List Char) : Nat :=
  min maxLevel ((Text.readDecimal? (Nat.pow 2 64) digits).getD 0)

def opensWithVerse (content : List Char) : Bool :=
  Text.startsWith "<verse number".toList content

def indentWidth (level : Nat) (content : List Char) : Nat :=
  if 0 < level && opensWithVerse content then 4 * level - 2 else 4 * level

/-- The text before a line, spaces ignored, is there and does not end a line. -/
def needsLeadingBreak (before : List Char) : Bool :=
  match before.reverse.dropWhile (· == ' ') with
  | [] => false
  | c :: _ => c != '\n'

/-- The text after a line, spaces ignored, holds a line break and a block tag, and
starts with neither. -/
def needsTrailingBreak (next : List Char) : Bool :=
  let next := next.dropWhile (· == ' ')
  !(next.head? == some '\n') && !Text.startsWith "<para".toList next &&
    next.contains '\n' && Text.holds "<para".toList next

def lineAt (text : List Char) (o : Occurrence) : StyledText :=
  let content := (o.group 1).addStyles [.normal]
  let lead := if needsLeadingBreak (text.take o.found.span.start) then ['\n'] else []
  let width := indentWidth (level (o.group 0).text) content.text
  let trail := if needsTrailingBreak (text.drop o.found.span.stop) then ['\n'] else []
  .plain (lead ++ List.replicate width ' ') ++ content ++ .plain trail

end Passage.Poetry
