import Passage.Note.Marker
import Passage.Render.Config
import Passage.Render.Replace

/-! What the inline tags become. A tag that cannot be read stays in the text as it is,
unstyled. Verses are counted while they are replaced: a verse tag with a number that
was seen before, or with an end that is not expected, leaves nothing; only the first of
these keeps its numbers from being counted. -/

namespace Passage

def Occurrence.raw (o : Occurrence) : StyledText :=
  .plain o.tag.text

def noteAt (o : Occurrence) : StyledText :=
  match NoteMarker.parse (o.group 0).text (o.group 1).text with
  | .ok note => note.render
  | .error _ => o.raw

def verseLabel (config : RenderConfig) (m : VerseMarker) : StyledText :=
  if config.breakBeforeVerses then .plain ['\n'] ++ m.render config.verseHandler
  else m.render config.verseHandler

/-- A verse tag in its turn; `found` holds the numbers seen so far. -/
def verseAt (config : RenderConfig) (found : VerseSet) (o : Occurrence) :
    StyledText × VerseSet :=
  if config.renderVerses then
    match VerseMarker.parse (o.group 0).text with
    | .error _ => (o.raw, found)
    | .ok m =>
      match found.insert? m with
      | none => (∅, found)
      | some found => (if config.expected.admits m then verseLabel config m else ∅, found)
  else (∅, found)

def missingLabels (config : RenderConfig) (found : VerseSet) : StyledText :=
  StyledText.concat ((config.expected.missing found).map fun n =>
    (VerseMarker.single n).render config.verseHandler)

/-- The verse pass: the tags, and before all text the labels that were missing. -/
def versePass (config : RenderConfig) (polls : Polls) (t : StyledText) : Option StyledText :=
  let (found, output) := t.replaceWith .verse polls (verseAt config) ∅
  output.map fun out =>
    if config.renderVerses then missingLabels config found ++ out else out

end Passage
