import Passage.Text.Grapheme.Class

/-! Graphemes: what a reader takes for one character. A text is divided wherever no rule holds
its two sides together (Unicode Standard Annex 29, extended grapheme clusters); some
rules look at more than the last character of the left side, so that side is
carried along, its last character first. -/

namespace Passage.Text

/-- Whether the text before ends in an open run of stacked consonants: a consonant, then
marks with a linker among them. -/
def endsStacked (before : List Char) : Bool :=
  let marks := before.takeWhile fun c =>
    (graphemeClass c == .extend || graphemeClass c == .joiner) && c != '\u200c'
  marks.any (inRanges linkerRanges) &&
    ((before.drop marks.length).head?.map graphemeClass) == some .consonant

/-- Whether the text before ends in a pictograph, which marks may follow. -/
def endsPictured (before : List Char) : Bool :=
  ((before.dropWhile fun c => graphemeClass c == .extend).head?.map graphemeClass) ==
    some .pictograph

/-- Whether the text before ends in a regional indicator that has no partner yet. -/
def endsUnpaired (before : List Char) : Bool :=
  (before.takeWhile fun c => graphemeClass c == .regional).length % 2 = 1

/-- Whether a character belongs to the grapheme at the end of the text before it. -/
def joins (before : List Char) (c : Char) : Bool :=
  match before with
  | [] => false
  | b :: earlier =>
    match graphemeClass b, graphemeClass c with
    | .carriageReturn, .lineFeed => true
    | .control, _ | .carriageReturn, _ | .lineFeed, _ => false
    | _, .control | _, .carriageReturn | _, .lineFeed => false
    | .leading, .leading | .leading, .vowel | .leading, .syllable
    | .leading, .closedSyllable => true
    | .syllable, .vowel | .syllable, .trailing | .vowel, .vowel | .vowel, .trailing => true
    | .closedSyllable, .trailing | .trailing, .trailing => true
    | _, .extend | _, .joiner | _, .spacing => true
    | .prepend, _ => true
    | _, .consonant => endsStacked before
    | .joiner, .pictograph => endsPictured earlier
    | .regional, .regional => endsUnpaired before
    | _, _ => false

/-- Graphemes with a character put in front, into the first one or as one of its own. -/
def putFirst (joined : Bool) (c : Char) : List (List Char) → List (List Char)
  | g :: gs => if joined then (c :: g) :: gs else [c] :: g :: gs
  | [] => [[c]]

/-- The graphemes of a text that stands after another one. -/
def graphemesAfter (before : List Char) : List Char → List (List Char)
  | [] => []
  | c :: cs =>
    putFirst (cs.head?.any (joins (c :: before))) c (graphemesAfter (c :: before) cs)

def graphemes (cs : List Char) : List (List Char) :=
  graphemesAfter [] cs

theorem flatten_putFirst (joined : Bool) (c : Char) (gs : List (List Char)) :
    (putFirst joined c gs).flatten = c :: gs.flatten := by
  cases gs with
  | nil => rfl
  | cons g gs => cases joined <;> rfl

theorem flatten_graphemesAfter (before cs : List Char) :
    (graphemesAfter before cs).flatten = cs := by
  induction cs generalizing before with
  | nil => rfl
  | cons c cs ih => rw [graphemesAfter, flatten_putFirst, ih]

/-- Dividing a text loses nothing. -/
theorem flatten_graphemes (cs : List Char) : (graphemes cs).flatten = cs :=
  flatten_graphemesAfter [] cs

end Passage.Text
