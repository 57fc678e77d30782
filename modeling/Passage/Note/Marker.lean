import Passage.Note.Body
import Passage.Styled.Text

/-! Notes. A note is read from its attribute list, which names its kind and its caller,
and its body, which holds the reference and the text. The running text shows a glyph for
it; the glyph is a tap target that carries the note. -/

namespace Passage

inductive NoteKind
  | footnote
  | endnote
  | crossReference
deriving DecidableEq, Repr

/-- A note that has been read. `text` is not empty. -/
structure NoteMarker where
  kind : NoteKind
  caller : List Char
  reference : Option (List Char)
  text : List Char
deriving DecidableEq

inductive NoteError
  | missingAttribute (key : String)
  | unknownStyle (style : List Char)
  | malformed
  | empty
deriving DecidableEq

def NoteError.message : NoteError → String
  | missingAttribute key => "note is missing the '" ++ key ++ "' attribute"
  | unknownStyle style => "unknown note style '" ++ String.ofList style ++ "'"
  | malformed => "malformed note markup"
  | empty => "note has no text"

def NoteKind.ofStyle? (style : List Char) : Option NoteKind :=
  match String.ofList style with
  | "f" => some footnote
  | "fe" | "ef" => some endnote
  | "x" | "ex" => some crossReference
  | _ => none

/-- The glyph of a note whose caller is generated or hidden. -/
def NoteKind.glyph : NoteKind → List Char
  | footnote | endnote => ['*']
  | crossReference => ['†']

namespace NoteMarker

/-- The last reference that is not blank, with its white space squeezed. -/
def referenceOf (segments : List NoteSegment) : Option (List Char) :=
  ((segments.filter NoteSegment.isReference).map fun s => Text.squeeze s.content).filter
    (!·.isEmpty) |>.getLast?

/-- The text outside the references, with its white space squeezed. -/
def textOf (segments : List NoteSegment) : List Char :=
  Text.squeeze ((segments.filter (!·.isReference)).flatMap NoteSegment.content)

/-- Reads a note. The attribute list is judged first: its form, its style, its caller;
then the body. -/
def parse (attributes body : List Char) : Except NoteError NoteMarker :=
  match NoteAttribute.readAll? attributes with
  | none => .error .malformed
  | some items =>
    match NoteAttribute.value? items "style" with
    | none => .error (.missingAttribute "style")
    | some style =>
      match NoteKind.ofStyle? style with
      | none => .error (.unknownStyle style)
      | some kind =>
        match NoteAttribute.value? items "caller" with
        | none => .error (.missingAttribute "caller")
        | some caller =>
          match NoteSegment.readAll? body with
          | none => .error .malformed
          | some segments =>
            if (textOf segments).isEmpty then .error .empty
            else .ok ⟨kind, caller, referenceOf segments, textOf segments⟩

/-- What the reader sees in the running text. -/
def glyph (n : NoteMarker) : List Char :=
  match n.caller with
  | [] | ['+'] | ['-'] => n.kind.glyph
  | caller => caller

/-- The text handed to the note handler. -/
def payload (n : NoteMarker) : List Char :=
  match n.reference with
  | some reference => reference ++ ' ' :: n.text
  | none => n.text

def region (n : NoteMarker) : Region :=
  ⟨.note, String.ofList n.payload⟩

/-- The glyph as an italic tap target. -/
def render (n : NoteMarker) : StyledText :=
  StyledText.styled n.glyph (.ofList [.italic, .clickable n.region])

end NoteMarker

end Passage
