import Passage.Style.Set

/-! How a terminal shows a style set. A look says what to add to what is on the screen and what
to take away from it; adding and removing the same modifier cancel, the later
one winning. -/

namespace Passage

inductive Colour
  | black
  | red
  | yellow
  | cyan
  | darkGray
deriving DecidableEq, Repr

structure Modifiers where
  bold : Bool := false
  italic : Bool := false
  underlined : Bool := false
  reversed : Bool := false
deriving DecidableEq, Repr

namespace Modifiers

def union (a b : Modifiers) : Modifiers :=
  ⟨a.bold || b.bold, a.italic || b.italic, a.underlined || b.underlined,
    a.reversed || b.reversed⟩

def diff (a b : Modifiers) : Modifiers :=
  ⟨a.bold && !b.bold, a.italic && !b.italic, a.underlined && !b.underlined,
    a.reversed && !b.reversed⟩

def names (m : Modifiers) : List String :=
  (if m.bold then ["bold"] else []) ++ (if m.italic then ["italic"] else []) ++
    (if m.underlined then ["underlined"] else []) ++ (if m.reversed then ["reversed"] else [])

end Modifiers

/-- What to add to and take away from what is on the screen. -/
structure Look where
  colour : Option Colour := none
  added : Modifiers := {}
  removed : Modifiers := {}
deriving DecidableEq, Repr

namespace Look

def add (l : Look) (m : Modifiers) : Look :=
  { l with added := l.added.union m, removed := l.removed.diff m }

def remove (l : Look) (m : Modifiers) : Look :=
  { l with added := l.added.diff m, removed := l.removed.union m }

/-- Verse targets are cyan, note targets yellow. -/
def regionColour : RegionKind → Colour
  | .verse => .cyan
  | .note => .yellow

def paint (l : Look) : Attribute → Look
  | .bold => l.add { bold := true }
  | .italic => l.add { italic := true }
  | .normal => l.remove { bold := true, italic := true }
  | .alignCenter | .alignOpposite => l
  | .clickable region =>
    { l with colour := some (regionColour region.kind) }.add { underlined := true }

/-- The look of a style set: its attributes are painted in their order. -/
def ofStyles (s : StyleSet) : Look :=
  s.attributes.foldl paint {}

end Look

end Passage
