import Passage.Text.Blank
import Passage.Text.Literal

/-! Attribute lists: `key="value"` items, each surrounded by any white space. Reading
stops before the first thing that is no item, and white space belongs to an item: where
no item follows, none is skipped. -/

namespace Passage

/-- One `key="value"` item. -/
structure NoteAttribute where
  key : List Char
  value : List Char
deriving DecidableEq

namespace NoteAttribute

def isKeyChar (c : Char) : Bool :=
  c.isAlphanum || c == '-' || c == '_'

/-- Reads one item and the white space around it. -/
def read? (cs : List Char) : Option (NoteAttribute × List Char) := do
  let cs := cs.dropWhile Text.isWhite
  let key := cs.takeWhile isKeyChar
  guard !key.isEmpty
  let cs ← Text.dropLiteral? "=\"".toList (cs.dropWhile isKeyChar)
  let value := cs.takeWhile (· != '"')
  let cs ← Text.dropLiteral? ['"'] (cs.dropWhile (· != '"'))
  return (⟨key, value⟩, cs.dropWhile Text.isWhite)

def readMany (cs : List Char) : List NoteAttribute × List Char :=
  match read? cs with
  | none => ([], cs)
  | some (a, rest) =>
    if rest.length < cs.length then
      let (more, last) := readMany rest
      (a :: more, last)
    else ([a], rest)
termination_by cs.length

/-- Reads a text that holds items alone. -/
def readAll? (cs : List Char) : Option (List NoteAttribute) :=
  match readMany cs with
  | (attributes, []) => some attributes
  | _ => none

/-- The value of the first item with a key. -/
def value? (attributes : List NoteAttribute) (key : String) : Option (List Char) :=
  (attributes.find? fun a => a.key = key.toList).map value

end NoteAttribute

end Passage
