import Passage.Verse.Expected

/-! Bounds of expected verses as one argument: numbers with commas between them, with white
space allowed around each. How many bounds there may be, and in which order, is not
judged here. -/

namespace Passage.ExpectedVerses

def readBound (cs : List Char) : Except VerseError Nat :=
  match Text.readNumeral? VerseMarker.bound (Text.trim cs) with
  | some n => .ok n
  | none => .error (.invalidNumber (Text.trim cs))

/-- Reads the bounds around the commas; the first that is no number is the error. -/
def readBounds (cs : List Char) : Except VerseError (List Nat) :=
  (cs.splitOn ',').mapM readBound

end Passage.ExpectedVerses
