import Passage.Note.Attributes

/-! The body of a note: plain text and `<char style="…">…</char>` elements, which do not
nest. An element without a style, or any other `<`, makes the body unreadable. -/

namespace Passage

inductive NoteSegment
  | text (cs : List Char)
  | element (style text : List Char)
deriving DecidableEq

namespace NoteSegment

def readElement? (cs : List Char) : Option (NoteSegment × List Char) := do
  let cs ← Text.dropLiteral? "<char".toList cs
  let (attributes, cs) := NoteAttribute.readMany cs
  let cs ← Text.dropLiteral? ['>'] cs
  let text := cs.takeWhile (· != '<')
  let cs ← Text.dropLiteral? "</char>".toList (cs.dropWhile (· != '<'))
  let style ← NoteAttribute.value? attributes "style"
  return (element style text, cs)

/-- Reads one element, or the text before the next `<`. -/
def read? (cs : List Char) : Option (NoteSegment × List Char) :=
  match readElement? cs with
  | some read => some read
  | none =>
    let plain := cs.takeWhile (· != '<')
    if plain.isEmpty then none else some (text plain, cs.dropWhile (· != '<'))

/-- Reads a text that holds segments alone. -/
def readAll? (cs : List Char) : Option (List NoteSegment) :=
  if cs.isEmpty then some []
  else
    match read? cs with
    | none => none
    | some (s, rest) =>
      if rest.length < cs.length then (readAll? rest).map (s :: ·) else none
termination_by cs.length

/-- Whether the segment names the place that the note is about. -/
def isReference : NoteSegment → Bool
  | text _ => false
  | element style _ => style = "fr".toList || style = "xo".toList

def content : NoteSegment → List Char
  | text cs => cs
  | element _ cs => cs

end NoteSegment

end Passage
