import Passage.Styled.Ranged

/-! Searching a held text. The mark over an offset is sought by halving the list of marks, which
finds it only where marks that end by the offset come before all others. The tap targets are read
off the marks one after the other. -/

namespace Passage

/-- Where a predicate ceases to hold, if that is among `size` items from `base` on: the part that
is searched is halved until one item is left. -/
def seekFrom {α : Type} (p : α → Bool) (xs : List α) (base size : Nat) : Nat :=
  if 1 < size then
    let half := size / 2
    if xs[base + half]?.any p then seekFrom p xs (base + half) (size - half)
    else seekFrom p xs base (size - half)
  else if xs[base]?.any p then base + 1
  else base
termination_by size

/-- The number of items that a predicate holds of, in a list where these come before the others. -/
def seek {α : Type} (p : α → Bool) (xs : List α) : Nat :=
  seekFrom p xs 0 xs.length

namespace RangedText

/-- The styles at a byte offset, sought by halving; none past the end. -/
def seekStyles? (t : RangedText) (offset : Nat) : Option StyleSet :=
  (t.marks[seek (·.range.stop ≤ offset) t.marks]?.filter fun m =>
    m.range.start ≤ offset && offset < m.range.stop).map Mark.styles

/-- The tap targets with the bytes they cover, one for each mark that has any: the first that its
styles list. -/
def regions (t : RangedText) : List (Span × Region) :=
  t.marks.filterMap fun m => (m.styles.attributes.findSome? Attribute.region?).map (m.range, ·)

end RangedText

end Passage
