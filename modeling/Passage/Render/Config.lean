import Passage.Verse.Expected

/-! What a render needs to know besides its text. A handler is present or absent: what it
does is the caller's business, and a tapped region is answered by whether it has one. -/

namespace Passage

structure RenderConfig where
  renderVerses : Bool := true
  expected : ExpectedVerses := .unconstrained
  suppressLeadingHeading : Bool := false
  breakBeforeVerses : Bool := false
  verseHandler : Bool := false
  noteHandler : Bool := false
deriving DecidableEq

namespace RenderConfig

def handles (config : RenderConfig) : RegionKind → Bool
  | .verse => config.verseHandler
  | .note => config.noteHandler

/-- Hands a tapped region to the handler of its kind: the calls made, which are none
without a handler. -/
def dispatch (config : RenderConfig) (region : Region) : List Region :=
  if config.handles region.kind then [region] else []

end RenderConfig

def ExpectedVerses.describe : ExpectedVerses → String
  | unconstrained => "Unconstrained"
  | single n => s!"Single({n})"
  | range first last _ =>
    "Range \x7b first: " ++ toString first ++ ", last: " ++ toString last ++ " \x7d"

def RenderConfig.describe (config : RenderConfig) : String :=
  "RenderConfig \x7b render_verses: " ++ toString config.renderVerses ++
    ", expected_verses: " ++ config.expected.describe ++
    ", suppress_leading_major_section_headings: " ++ toString config.suppressLeadingHeading ++
    ", break_before_verses: " ++ toString config.breakBeforeVerses ++
    ", verse_handler: " ++ toString config.verseHandler ++
    ", note_handler: " ++ toString config.noteHandler ++ " \x7d"

end Passage
