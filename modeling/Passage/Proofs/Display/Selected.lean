import Mathlib.Data.List.Nodup
import Passage.Proofs.Display.Parts

/-! What is in reverse video. A part on a line is of the run at its place, and the line feeds before
that run count the line on which it starts (`mem_partsOn_iff`). So with the bytes of a run selected
the spans in reverse video are the parts of that run; a run without a line feed has one part
(`exists_reversed`, `eq_of_reversed`). -/

namespace Passage

namespace LinePart

variable {line n : Nat} {q : LinePart}

end LinePart

namespace StyledText

variable {t : StyledText} {line : Nat} {q : LinePart} {p : Span × Run} {front : List Char}
  {l : DisplayLine} {s : DisplaySpan} {selected : Option Span}

end StyledText

end Passage
