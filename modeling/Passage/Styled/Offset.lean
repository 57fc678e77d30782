import Passage.Styled.Text

/-! Byte offsets into styled text. A run's place is the span of bytes it covers; places
are contiguous from zero to the text's length. Looking up an offset, listing the tap
targets and slicing all go by places. Slicing fails exactly where it would have to
cut inside a character: a run that contributes nothing is never cut. -/

namespace Passage

namespace Run

/-- The runs with the bytes that each covers, the first one starting at `offset`. -/
def placedFrom (offset : Nat) : List Run → List (Span × Run)
  | [] => []
  | r :: rs =>
    let stop := offset + Text.byteLength r.text
    (⟨offset, stop⟩, r) :: placedFrom stop rs

/-- What of a placed run lies in a span of bytes. -/
def sliceBytes? (s : Span) (place : Span) (r : Run) : Option (List Run) :=
  let start := max s.start place.start
  let stop := min s.stop place.stop
  if start < stop then do
    let rest ← Text.dropBytes? (start - place.start) r.text
    let text ← Text.takeBytes? (stop - start) rest
    return [⟨text, r.styles⟩]
  else some []

end Run

namespace StyledText

def byteLength (t : StyledText) : Nat :=
  Text.byteLength t.text

def placed (t : StyledText) : List (Span × Run) :=
  Run.placedFrom 0 t.runs

/-- The text of a span of bytes; none where that has to cut inside a character. -/
def slice? (t : StyledText) (s : Span) : Option StyledText :=
  (t.placed.mapM fun p => Run.sliceBytes? s p.1 p.2).map fun rs => ofRuns rs.flatten

/-- The styles at a byte offset; none past the end. -/
def stylesAt? (t : StyledText) (offset : Nat) : Option StyleSet :=
  (t.placed.find? fun p => p.1.start ≤ offset && offset < p.1.stop).map (·.2.styles)

/-- The tap targets with the bytes they cover, one for each run that has any: the
least of its set. -/
def regions (t : StyledText) : List (Span × Region) :=
  t.placed.filterMap fun p => p.2.styles.regions.head?.map fun region => (p.1, region)

end StyledText

namespace Run

@[simp] theorem placedFrom_nil (offset : Nat) : placedFrom offset [] = [] := rfl

theorem map_snd_placedFrom (offset : Nat) (rs : List Run) :
    (placedFrom offset rs).map Prod.snd = rs := by
  induction rs generalizing offset with
  | nil => rfl
  | cons r rs ih => simp [placedFrom, ih]

/-- A run starts where those before it end. -/
theorem placedFrom_append (offset : Nat) (rs ss : List Run) :
    placedFrom offset (rs ++ ss) =
      placedFrom offset rs ++
        placedFrom (offset + Text.byteLength (rs.flatMap Run.text)) ss := by
  induction rs generalizing offset with
  | nil => simp [Text.byteLength]
  | cons r rs ih =>
    simp only [List.cons_append, placedFrom, ih, List.flatMap_cons, Text.byteLength_append,
      Nat.add_assoc]

end Run

end Passage
